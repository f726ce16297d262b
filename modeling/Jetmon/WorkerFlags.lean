import Jetmon.WorkerQueue

/-! The flags by which a worker deals with the master: how each handler changes them, and
the requests it sends when it does. -/
namespace WorkerFlags

open SiteModel
open WorkerState
open WorkerQueue

structure Flags where
  available : Bool
  asked : Bool
  suicide : Bool
  running : Bool
  startup : Bool
  exit : Option ExitCode

def flags (w : Worker) : Flags :=
  ⟨w.availableForWork, w.askedForWork, w.suicideSignal, w.running, w.startupTimer, w.exit⟩

theorem storeStats_flags (w : Worker) (status : SiteStatus) (res : Result) :
    flags (w.storeStats status res) = flags w := by
  unfold Worker.storeStats
  split <;> rfl

theorem startChecks_flags (now : ℤ) (n : ℕ) :
    ∀ w : Worker, flags (w.startChecks now n) = flags w := by
  induction n with
  | zero => intro w; rfl
  | succ n ih =>
    intro w
    rw [Worker.startChecks, ih]
    unfold Worker.startCheck
    split <;> rfl

theorem statusMessages_plain {server : Site} {msg : ToMaster} (h : msg ∈ statusMessages server) :
    msg ≠ .stopWork ∧ msg ≠ .sendWork := by
  unfold statusMessages at h
  split at h
  · split at h <;> rw [List.mem_singleton.mp h] <;> exact ⟨nofun, nofun⟩
  · contradiction

/-- What a finished check does to the flags, and what is sent besides its status. -/
inductive Outcome (w : Worker) (rss : ℤ) : Flags → List ToMaster → Prop where
  | next : w.pointer < w.arrCheck.length → Outcome w rss (flags w) []
  | waiting : w.arrCheck.length ≤ w.pointer → Outcome w rss
      { flags w with
        available := staysAvailable w rss
        asked := w.askedForWork || staysAvailable w rss }
      (stopMessages w rss ++ askMessages w rss)
  | exits {code} : w.arrCheck.length ≤ w.pointer → staysAvailable w rss = false → Outcome w rss
      { flags w with available := false, exit := some code } (stopMessages w rss)
  | idle : w.arrCheck.length ≤ w.pointer → staysAvailable w rss = true → Outcome w rss
      { flags w with asked := true, running := false } (askMessages w rss)

theorem complete_outcome {w : Worker} (h : Invariant w) (hx : w.exit = none) {k : ℕ}
    {o : Outstanding} (hk : w.outstanding[k]? = some o) (now : ℤ) (res : Result) :
    ∃ extra, (handle w (.complete k now res)).2 =
        statusMessages (w.applyResult now o.since res o.site) ++ extra ∧
      Outcome w res.rss (flags (handle w (.complete k now res)).1) extra := by
  rw [handle_complete h.toCore hk]
  dsimp only
  generalize hserver : w.applyResult now o.since res o.site = server
  have hc : Core (noted w k o server) := core_finish h.toCore hk (hserver ▸ rfl) _
  have hlen : (noted w k o server).arrCheck.length = w.arrCheck.length := by
    simp [noted, Worker.noteResult]
  refine ⟨_, rfl, ?_⟩
  rw [storeStats_flags]
  rcases continueQueue_cases hc hx now res.rss with ⟨hp, he⟩ | ⟨hp, _, he⟩ | ⟨hp, _, hs, he⟩ |
    ⟨hp, _, hs, he⟩ <;> rw [he] <;> rw [hlen] at hp
  · rw [startCheck_eq now (List.getElem?_eq_getElem (hlen ▸ hp))]
    exact .next hp
  · exact .waiting hp
  · exact .exits hp hs
  · exact .idle hp hs

theorem Outcome.requests {w : Worker} {rss : ℤ} {f : Flags} {extra : List ToMaster}
    (h : Outcome w rss f extra) : ∀ msg ∈ extra, msg = .stopWork ∨ msg = .sendWork := by
  have hstop : ∀ msg ∈ stopMessages w rss, msg = .stopWork := by
    intro msg hm
    unfold stopMessages at hm
    split at hm
    · exact List.mem_singleton.mp hm
    · contradiction
  have hask : ∀ msg ∈ askMessages w rss, msg = .sendWork := by
    intro msg hm
    unfold askMessages at hm
    split at hm
    · exact List.mem_singleton.mp hm
    · contradiction
  intro msg hm
  cases h with
  | next => contradiction
  | waiting => exact (List.mem_append.mp hm).imp (hstop msg) (hask msg)
  | exits => exact Or.inl (hstop msg hm)
  | idle => exact Or.inr (hask msg hm)

structure Truthful (f : Flags) (we : Event) (f' : Flags) (msgs : List ToMaster) :
    Prop where
  available : f'.available = true → f.available = true ∧ .stopWork ∉ msgs
  asked : f'.exit = none → f'.asked = true →
    (f.asked = true ∧ ∀ payload, we ≠ .queueAdd payload) ∨ .sendWork ∈ msgs
  suicide : f'.exit = none → f'.suicide = false → f.suicide = false ∧ we ≠ .evaporate
  begun : f'.exit = none → f.running = true ∨ f.startup = true ∨ f.asked = true →
    f'.running = true ∨ f'.startup = true ∨ f'.asked = true

theorem outcome_truthful {w : Worker} {rss : ℤ} {f : Flags} {server : Site} {extra : List ToMaster}
    (h : Outcome w rss f extra) (hrun : w.running = true) (k : ℕ) (now : ℤ) (res : Result) :
    Truthful (flags w) (.complete k now res) f (statusMessages server ++ extra) := by
  have hplain : .stopWork ∉ statusMessages server := fun hm => (statusMessages_plain hm).1 rfl
  cases h with
  | next =>
    exact ⟨fun ha => ⟨ha, by simpa using hplain⟩, fun _ ha => Or.inl ⟨ha, nofun⟩,
      fun _ hs => ⟨hs, nofun⟩, fun _ _ => Or.inl hrun⟩
  | waiting =>
    constructor
    · intro ha
      have hs : w.availableForWork = true ∧ w.mustStop rss = false := by
        simpa [staysAvailable] using ha
      refine ⟨hs.1, ?_⟩
      simp [hplain, stopMessages, askMessages, hs]
    · intro _ ha
      cases hk : w.askedForWork with
      | true => exact Or.inl ⟨hk, nofun⟩
      | false =>
        have hs : staysAvailable w rss = true := by simpa [hk] using ha
        exact Or.inr (by simp [askMessages, hs, hk])
    · exact fun _ hs => ⟨hs, nofun⟩
    · exact fun _ _ => Or.inl hrun
  | exits =>
    constructor
    · intro ha
      contradiction
    · intro hx
      contradiction
    · intro hx
      contradiction
    · intro hx
      contradiction
  | idle hp hs =>
    have hs' : w.availableForWork = true ∧ w.mustStop rss = false := by
      simpa [staysAvailable] using hs
    constructor
    · intro ha
      refine ⟨hs'.1, ?_⟩
      simp [hplain, askMessages]
    · intro _ ha
      cases hk : w.askedForWork with
      | true => exact Or.inl ⟨hk, nofun⟩
      | false => exact Or.inr (by simp [askMessages, hs, hk])
    · exact fun _ hs => ⟨hs, nofun⟩
    · exact fun _ _ => Or.inr (Or.inr rfl)

theorem handle_truthful {w : Worker} {we : Event} (h : Status w)
    (he : Enabled w we) :
    Truthful (flags w) we (flags (handle w we).1) (handle w we).2 := by
  cases we with
  | queueAdd payload =>
    simp only [handle, Worker.addToQueue]
    split <;> constructor <;> simp_all [flags]
  | evaporate =>
    simp only [handle]
    split <;> constructor <;> simp_all [flags]
  | configUpdate cfg seed =>
    constructor <;> simp_all [flags, handle, Worker.reloadConfig]
  | checkTimer now =>
    simp only [handle, Worker.checkServers, startChecks_flags]
    constructor <;> simp_all [flags]
  | complete k now res =>
    obtain ⟨extra, hmsgs, ho⟩ :=
      complete_outcome (h.1 he.1) he.1 (List.getElem?_eq_getElem he.2) now res
    rw [hmsgs]
    exact outcome_truthful ho (running_of_outstanding (h.1 he.1) (List.getElem_mem he.2)).1 ..
  | startup => constructor <;> simp_all [flags, handle]
  | totalsTick => constructor <;> simp_all [flags, handle, Worker.sendStats]
  | statsTick now rss => constructor <;> simp_all [flags, handle, Worker.reportStats]

/-- At the end of its queue, a finished check makes the worker decide to leave. -/
def Deciding (w : Worker) (rss : ℤ) : Prop :=
  w.arrCheck.length ≤ w.pointer ∧ w.availableForWork = true ∧ w.mustStop rss = true

instance (w : Worker) (rss : ℤ) : Decidable (Deciding w rss) := by
  unfold Deciding
  infer_instance

theorem mustStop_of_not_stays {w : Worker} {rss : ℤ} (hs : staysAvailable w rss = false)
    (ha : w.availableForWork = true) : w.mustStop rss = true := by
  simpa [staysAvailable, ha] using hs

theorem handle_stays {w : Worker} {we : Event} (he : Enabled w we)
    (ha : w.availableForWork = true) (hev : we ≠ .evaporate)
    (hdone : ∀ k now res, we ≠ .complete k now res) :
    (flags (handle w we).1).available = true ∧
      (flags (handle w we).1).exit = none := by
  cases we with
  | evaporate => contradiction
  | complete k now res => exact absurd rfl (hdone k now res)
  | queueAdd payload =>
    simp only [handle, Worker.addToQueue]
    split <;> exact ⟨ha, he⟩
  | configUpdate cfg seed => exact ⟨ha, he.1⟩
  | checkTimer now =>
    simp only [handle, Worker.checkServers, startChecks_flags]
    exact ⟨ha, he.1⟩
  | startup => exact ⟨ha, he.1⟩
  | totalsTick | statsTick => exact ⟨ha, he⟩

theorem handle_closing {w : Worker} {we : Event} (h : Status w)
    (he : Enabled w we) (ha : w.availableForWork = true) :
    ((flags (handle w we).1).available = false ∨
        (flags (handle w we).1).exit ≠ none →
      we = .evaporate ∨ ∃ k now res, we = .complete k now res ∧ Deciding w res.rss) ∧
    ((flags (handle w we).1).available = false →
      .stopWork ∈ (handle w we).2) := by
  by_cases hev : we = .evaporate
  · subst hev
    refine ⟨fun _ => Or.inl rfl, fun hf => ?_⟩
    simp only [handle] at hf
    split at hf <;> simp [flags, ha] at hf
  by_cases hdone : ∃ k now res, we = .complete k now res
  · obtain ⟨k, now, res, rfl⟩ := hdone
    obtain ⟨extra, hmsgs, ho⟩ :=
      complete_outcome (h.1 he.1) he.1 (List.getElem?_eq_getElem he.2) now res
    have hstop : staysAvailable w res.rss = false →
        w.mustStop res.rss = true ∧ .stopWork ∈ stopMessages w res.rss := by
      intro hs
      have hmust := mustStop_of_not_stays hs ha
      exact ⟨hmust, by simp [stopMessages, ha, hmust]⟩
    rw [hmsgs]
    generalize flags (handle w (.complete k now res)).1 = f at ho ⊢
    cases ho with
    | next | idle =>
      exact ⟨fun hc => by simp [flags, ha, he.1] at hc, fun hc => by simp [flags, ha] at hc⟩
    | waiting hp =>
      refine ⟨fun hc => Or.inr ⟨k, now, res, rfl, hp, ha, ?_⟩, fun hc => ?_⟩
      · exact (hstop (hc.resolve_right fun hn => hn he.1)).1
      · simp [(hstop hc).2]
    | exits hp hs =>
      refine ⟨fun _ => Or.inr ⟨k, now, res, rfl, hp, ha, (hstop hs).1⟩, fun _ => ?_⟩
      simp [(hstop hs).2]
  · obtain ⟨ha', hx'⟩ := handle_stays he ha hev fun k now res hk => hdone ⟨k, now, res, hk⟩
    rw [ha', hx']
    exact ⟨fun hc => by simp at hc, fun hc => by simp at hc⟩

end WorkerFlags

import Mathlib
import Jetmon.BoundedQueue
import Jetmon.WorkerState

/-! The queue of one worker. The array, the pointer and the outstanding callbacks of
lib/httpcheck.js implement a bounded queue: `abstraction` forgets indices and flags. -/
namespace WorkerQueue

open SiteModel
open TransitionSystem
open WorkerState

def Payloads (_ : Worker) : Event → Prop
  | .queueAdd payload => payload ≠ [] ∧ ∀ s ∈ payload, s.processed = false
  | _ => True

/-- Moreover NUM_TO_PROCESS is kept by config updates. -/
def Steady (w : Worker) (e : Event) : Prop :=
  Payloads w e ∧ ∀ cfg seed, e = .configUpdate cfg seed →
    cfg.numToProcess = w.config.numToProcess

structure Core (w : Worker) : Prop where
  counted : w.activeChecks = w.outstanding.length
  index_lt : ∀ o ∈ w.outstanding, o.index < w.pointer
  index_site : ∀ o ∈ w.outstanding, w.arrCheck[o.index]? = some o.site
  index_nodup : (w.outstanding.map Outstanding.index).Nodup
  awaited : ∀ i s, w.arrCheck[i]? = some s → i < w.pointer → s.processed = false →
    ∃ o ∈ w.outstanding, o.index = i
  unstarted : ∀ i s, w.arrCheck[i]? = some s → w.pointer ≤ i → s.processed = false
  unfinished : ∀ o ∈ w.outstanding, o.site.processed = false

structure Invariant (w : Worker) : Prop extends Core w where
  idle : w.running = false → w.arrCheck = [] ∧ w.suicideSignal = false ∧ w.checkTimers = 0
  busy : w.running = true → w.arrCheck ≠ [] ∧ w.pointer ≤ w.arrCheck.length ∧
    ((w.checkTimers = 1 ∧ w.pointer = 0) ∨ (w.checkTimers = 0 ∧ w.outstanding ≠ []))
  stopping : w.availableForWork = false → w.outstanding ≠ []

structure Drained (w : Worker) : Prop where
  no_outstanding : w.outstanding = []
  no_unstarted : w.arrCheck.length ≤ w.pointer
  all_processed : ∀ s ∈ w.arrCheck, s.processed = true
  own_exit : w.exit ≠ some .other

def Status (w : Worker) : Prop :=
  (w.exit = none → Invariant w) ∧ (w.exit ≠ none → Drained w)

theorem boot_invariant (cfg : Config) (host : String) (now seed : ℤ) :
    Invariant (Worker.boot cfg host now seed) := by
  refine ⟨⟨rfl, ?_, ?_, List.nodup_nil, ?_, ?_, ?_⟩, fun _ => ⟨rfl, rfl, rfl⟩,
    nofun, nofun⟩ <;> simp [Worker.boot, Worker.reloadConfig]

theorem startCheck_eq {w : Worker} {server : Site} (now : ℤ)
    (h : w.arrCheck[w.pointer]? = some server) : w.startCheck now =
      { w with
        activeChecks := w.activeChecks + 1
        totalChecks := w.totalChecks + 1
        outstanding := w.outstanding ++ [⟨w.pointer, now, server⟩]
        started := w.started ++ [server]
        pointer := w.pointer + 1 } := by
  simp only [Worker.startCheck, h]

theorem core_startCheck {w : Worker} (h : Core w) (now : ℤ)
    (hlt : w.pointer < w.arrCheck.length) : Core (w.startCheck now) := by
  have hget := List.getElem?_eq_getElem hlt
  rw [startCheck_eq now hget]
  constructor
  · simp [h.counted]
  · intro o ho
    rcases List.mem_append.mp ho with ho | ho
    · exact Nat.lt_succ_of_lt (h.index_lt o ho)
    · rw [List.mem_singleton.mp ho]
      exact Nat.lt_succ_self _
  · intro o ho
    rcases List.mem_append.mp ho with ho | ho
    · exact h.index_site o ho
    · rw [List.mem_singleton.mp ho]
      exact hget
  · rw [List.map_append, List.nodup_append']
    refine ⟨h.index_nodup, List.nodup_singleton _, ?_⟩
    intro i hi hp
    obtain ⟨o, ho, rfl⟩ := List.mem_map.mp hi
    have := h.index_lt o ho
    simp only [List.map_cons, List.map_nil, List.mem_singleton] at hp
    omega
  · intro i s hs hi hp
    rcases Nat.lt_succ_iff_lt_or_eq.mp hi with hi | rfl
    · obtain ⟨o, ho, he⟩ := h.awaited i s hs hi hp
      exact ⟨o, List.mem_append_left _ ho, he⟩
    · exact ⟨_, List.mem_append_right _ (List.mem_singleton_self _), rfl⟩
  · intro i s hs hi
    exact h.unstarted i s hs (Nat.le_of_succ_le hi)
  · intro o ho
    rcases List.mem_append.mp ho with ho | ho
    · exact h.unfinished o ho
    · rw [List.mem_singleton.mp ho]
      exact h.unstarted _ _ hget (Nat.le_refl _)

def startedFrom (now : ℤ) (p : ℕ) (sites : List Site) : List Outstanding :=
  (sites.zipIdx p).map fun si => ⟨si.2, now, si.1⟩

theorem startedFrom_sites (now : ℤ) (p : ℕ) (sites : List Site) :
    (startedFrom now p sites).map Outstanding.site = sites := by
  simp [startedFrom, Function.comp_def]

theorem startChecks_eq (now : ℤ) (n : ℕ) : ∀ {w : Worker}, w.pointer + n ≤ w.arrCheck.length →
    w.startChecks now n =
      { w with
        activeChecks := w.activeChecks + n
        totalChecks := w.totalChecks + n
        outstanding := w.outstanding ++
          startedFrom now w.pointer ((w.arrCheck.drop w.pointer).take n)
        started := w.started ++ (w.arrCheck.drop w.pointer).take n
        pointer := w.pointer + n } := by
  induction n with
  | zero => intro w _; simp [Worker.startChecks, startedFrom]
  | succ n ih =>
    intro w hlen
    have hlt : w.pointer < w.arrCheck.length := by omega
    have heq := startCheck_eq now (List.getElem?_eq_getElem hlt)
    rw [Worker.startChecks, ih (by rw [heq]; dsimp only; omega), heq,
      List.drop_eq_getElem_cons hlt, List.take_succ_cons]
    simp only [startedFrom, List.zipIdx_cons, List.map_cons, List.append_assoc,
      List.singleton_append]
    congr 1 <;> omega

theorem core_startChecks (now : ℤ) (n : ℕ) : ∀ {w : Worker}, Core w →
    w.pointer + n ≤ w.arrCheck.length → Core (w.startChecks now n) := by
  induction n with
  | zero => intro w h _; exact h
  | succ n ih =>
    intro w h hlen
    have hlt : w.pointer < w.arrCheck.length := by omega
    refine ih (core_startCheck h now hlt) ?_
    rw [startCheck_eq now (List.getElem?_eq_getElem hlt)]
    dsimp only
    omega

theorem ne_of_mem_eraseIdx {α β : Type*} {f : α → β} {xs : List α} (hn : (xs.map f).Nodup)
    {k : ℕ} {x y : α} (hk : xs[k]? = some x) (hy : y ∈ xs.eraseIdx k) : f y ≠ f x := by
  obtain ⟨i, hi, hik, rfl⟩ := List.mem_eraseIdx_iff_getElem.mp hy
  obtain ⟨hk, rfl⟩ := List.getElem?_eq_some_iff.mp hk
  intro he
  have hi' : i < (xs.map f).length := by rwa [List.length_map]
  have hk' : k < (xs.map f).length := by rwa [List.length_map]
  have heq : (xs.map f)[i] = (xs.map f)[k] := by simpa only [List.getElem_map] using he
  exact hik (hn.getElem_inj_iff.mp heq)

theorem core_finish {w : Worker} (h : Core w) {k : ℕ} {o : Outstanding}
    (hk : w.outstanding[k]? = some o) {server : Site} (hp : server.processed = true)
    (finished : List Site) :
    Core (Worker.noteResult o.index server
      { w with outstanding := w.outstanding.eraseIdx k, finished := finished }) := by
  have hlt := (List.getElem?_eq_some_iff.mp hk).1
  have hmem := List.mem_of_getElem? hk
  have hother : ∀ o' ∈ w.outstanding.eraseIdx k, o'.index ≠ o.index :=
    fun o' ho' => ne_of_mem_eraseIdx h.index_nodup hk ho'
  have hset : ∀ i s, (w.arrCheck.set o.index server)[i]? = some s → s.processed = false →
      i ≠ o.index ∧ w.arrCheck[i]? = some s := by
    intro i s hs hf
    by_cases hi : i = o.index
    · subst hi
      obtain ⟨hl, hg⟩ := List.getElem?_eq_some_iff.mp hs
      rw [List.getElem_set_self] at hg
      rw [← hg, hp] at hf
      contradiction
    · exact ⟨hi, by rwa [List.getElem?_set_ne (Ne.symm hi)] at hs⟩
  constructor
  · simp only [Worker.noteResult, h.counted, List.length_eraseIdx, hlt, ↓reduceIte]
    omega
  · exact fun o' ho' => h.index_lt o' (List.mem_of_mem_eraseIdx ho')
  · intro o' ho'
    simp only [Worker.noteResult]
    rw [List.getElem?_set_ne (Ne.symm (hother o' ho'))]
    exact h.index_site o' (List.mem_of_mem_eraseIdx ho')
  · simp only [Worker.noteResult]
    rw [← List.eraseIdx_map]
    exact h.index_nodup.sublist (List.eraseIdx_sublist _ _)
  · intro i s hs hi hf
    obtain ⟨hne, hs⟩ := hset i s hs hf
    obtain ⟨o', ho', rfl⟩ := h.awaited i s hs hi hf
    obtain ⟨j, hj⟩ := List.mem_iff_getElem?.mp ho'
    refine ⟨o', List.mem_eraseIdx_iff_getElem?.mpr ⟨j, ?_, hj⟩, rfl⟩
    rintro rfl
    rw [hk] at hj
    exact hne (congrArg Outstanding.index (Option.some.inj hj)).symm
  · intro i s hs hi
    have hne : i ≠ o.index := by
      have := h.index_lt o hmem
      dsimp only [Worker.noteResult] at hi
      omega
    simp only [Worker.noteResult] at hs
    rw [List.getElem?_set_ne (Ne.symm hne)] at hs
    exact h.unstarted i s hs hi
  · exact fun o' ho' => h.unfinished o' (List.mem_of_mem_eraseIdx ho')

theorem waitingFor_eq_zero_iff {w : Worker} (h : Core w) (hp : w.arrCheck.length ≤ w.pointer) :
    w.waitingFor = 0 ↔ w.outstanding = [] := by
  rw [Worker.waitingFor, List.countP_eq_zero]
  constructor
  · intro hall
    rw [List.eq_nil_iff_forall_not_mem]
    intro o ho
    have hm := List.mem_of_getElem? (h.index_site o ho)
    have hf := h.unfinished o ho
    exact hall o.site hm (by simp [hf])
  · intro hnil s hs hf
    obtain ⟨i, hi⟩ := List.mem_iff_getElem?.mp hs
    have hlt := (List.getElem?_eq_some_iff.mp hi).1
    obtain ⟨o, ho, _⟩ := h.awaited i s hi (by omega) (by simpa using hf)
    rw [hnil] at ho
    contradiction

def staysAvailable (w : Worker) (rss : ℤ) : Bool := w.availableForWork && !w.mustStop rss

def stopMessages (w : Worker) (rss : ℤ) : List ToMaster :=
  if w.availableForWork && w.mustStop rss then [.stopWork] else []

def askMessages (w : Worker) (rss : ℤ) : List ToMaster :=
  if staysAvailable w rss && !w.askedForWork then [.sendWork] else []

theorem continueQueue_cases {w : Worker} (h : Core w) (hx : w.exit = none) (now rss : ℤ) :
    (w.pointer < w.arrCheck.length ∧ w.continueQueue now rss = (w.startCheck now, [])) ∨
    (w.arrCheck.length ≤ w.pointer ∧ w.outstanding ≠ [] ∧
      w.continueQueue now rss =
        ({ w with
          availableForWork := staysAvailable w rss
          askedForWork := w.askedForWork || staysAvailable w rss },
        stopMessages w rss ++ askMessages w rss)) ∨
    (w.arrCheck.length ≤ w.pointer ∧ w.outstanding = [] ∧ staysAvailable w rss = false ∧
      w.continueQueue now rss =
        ({ w with availableForWork := false, exit := some w.exitCode }, stopMessages w rss)) ∨
    (w.arrCheck.length ≤ w.pointer ∧ w.outstanding = [] ∧ staysAvailable w rss = true ∧
      w.continueQueue now rss =
        ({ w with arrCheck := [], running := false, askedForWork := true },
          askMessages w rss)) := by
  by_cases hp : w.pointer < w.arrCheck.length
  · exact Or.inl ⟨hp, by simp only [Worker.continueQueue, if_pos hp]⟩
  have hp' : w.arrCheck.length ≤ w.pointer := by omega
  have hw := waitingFor_eq_zero_iff h hp'
  have hstop : w.stopDecision rss =
      ({ w with availableForWork := staysAvailable w rss }, stopMessages w rss) := by
    unfold Worker.stopDecision stopMessages
    by_cases hd : (w.availableForWork && w.mustStop rss) = true
    · have hs : staysAvailable w rss = false := by
        simp only [Bool.and_eq_true] at hd
        simp [staysAvailable, hd.2]
      rw [if_pos hd, if_pos hd, hs]
    · have hs : staysAvailable w rss = w.availableForWork := by
        unfold staysAvailable
        revert hd
        cases w.availableForWork <;> cases w.mustStop rss <;> decide
      rw [if_neg hd, if_neg hd, hs]
  have hw' : Worker.waitingFor { w with availableForWork := staysAvailable w rss } =
      w.waitingFor := rfl
  right
  simp only [Worker.continueQueue, if_neg hp, Worker.endOfQueue, hstop, Worker.settle, hw']
  by_cases ho : w.outstanding = []
  · right
    rw [if_pos (hw.mpr ho)]
    cases ha : staysAvailable w rss with
    | false =>
      refine Or.inl ⟨hp', ho, rfl, ?_⟩
      simp [Worker.askForWork, Worker.exitCode]
    | true =>
      refine Or.inr ⟨hp', ho, rfl, ?_⟩
      have hav : w.availableForWork = true := by
        simp only [staysAvailable, Bool.and_eq_true] at ha
        exact ha.1
      have hstop' : stopMessages w rss = [] := by
        simp only [staysAvailable, hav, Bool.true_and, Bool.not_eq_true'] at ha
        simp [stopMessages, ha]
      cases hk : w.askedForWork <;>
        simp [Worker.askForWork, askMessages, ha, hk, hx, hav, hstop']
  · refine Or.inl ⟨hp', ho, ?_⟩
    rw [if_neg (mt hw.mp ho)]
    cases ha : staysAvailable w rss <;> cases hk : w.askedForWork <;>
      simp [Worker.askForWork, askMessages, ha, hk, hx]

def noted (w : Worker) (k : ℕ) (o : Outstanding) (server : Site) : Worker :=
  Worker.noteResult o.index server
    { w with outstanding := w.outstanding.eraseIdx k, finished := w.finished ++ [o.site] }

theorem handle_complete {w : Worker} (h : Core w) {k : ℕ} {o : Outstanding}
    (hk : w.outstanding[k]? = some o) (now : ℤ) (res : Result) :
    handle w (.complete k now res) =
      let server := w.applyResult now o.since res o.site
      let next := (noted w k o server).continueQueue now res.rss
      (next.1.storeStats server.siteStatus res, statusMessages server ++ next.2) := by
  have hsite := h.index_site o (List.mem_of_getElem? hk)
  simp only [handle, hk, Worker.processResultsCallback, hsite]
  rfl

theorem running_of_timer {w : Worker} (h : Invariant w) (ht : 0 < w.checkTimers) :
    w.running = true := by
  cases hr : w.running with
  | true => rfl
  | false =>
    have hnone := (h.idle hr).2.2
    omega

theorem running_of_outstanding {w : Worker} (h : Invariant w) {o : Outstanding}
    (ho : o ∈ w.outstanding) : w.running = true ∧ w.checkTimers = 0 := by
  have hsite := h.index_site o ho
  have hr : w.running = true := by
    cases hr : w.running with
    | true => rfl
    | false => simp [(h.idle hr).1] at hsite
  refine ⟨hr, ?_⟩
  rcases (h.busy hr).2.2 with ⟨_, hp⟩ | ⟨ht, _⟩
  · have := h.index_lt o ho
    omega
  · exact ht

theorem all_processed_of_drained {w : Worker} (h : Core w) (hp : w.arrCheck.length ≤ w.pointer)
    (ho : w.outstanding = []) : ∀ s ∈ w.arrCheck, s.processed = true := by
  have hw := (waitingFor_eq_zero_iff h hp).mpr ho
  rw [Worker.waitingFor, List.countP_eq_zero] at hw
  intro s hs
  simpa using hw s hs

theorem status_storeStats {w : Worker} (h : Status w) (status : SiteStatus) (res : Result) :
    Status (w.storeStats status res) := by
  unfold Worker.storeStats
  split
  · rename_i hx
    rw [Option.isNone_iff_eq_none] at hx
    obtain ⟨⟨h₁, h₂, h₃, h₄, h₅, h₆, h₇⟩, h₉, h₁₀, h₁₁⟩ := h.1 hx
    exact ⟨fun _ => ⟨⟨h₁, h₂, h₃, h₄, h₅, h₆, h₇⟩, h₉, h₁₀, h₁₁⟩, fun hn => absurd hx hn⟩
  · exact h

theorem complete_status {w : Worker} (h : Invariant w) (hx : w.exit = none) {k : ℕ}
    (hlt : k < w.outstanding.length) (now : ℤ) (res : Result) :
    Status (handle w (.complete k now res)).1 := by
  have hk := List.getElem?_eq_getElem hlt
  obtain ⟨hr, ht⟩ := running_of_outstanding h (List.getElem_mem hlt)
  obtain ⟨hne, hple, _⟩ := h.busy hr
  rw [handle_complete h.toCore hk]
  apply status_storeStats
  have hc : Core (noted w k w.outstanding[k]
      (w.applyResult now w.outstanding[k].since res w.outstanding[k].site)) :=
    core_finish h.toCore hk rfl _
  generalize hw₁ : noted w k w.outstanding[k]
    (w.applyResult now w.outstanding[k].since res w.outstanding[k].site) = w₁ at hc ⊢
  have hset : w₁.arrCheck.length = w.arrCheck.length := by
    rw [← hw₁]; simp [noted, Worker.noteResult]
  have hp₁ : w₁.pointer = w.pointer := by rw [← hw₁]; rfl
  have hr₁ : w₁.running = true := by rw [← hw₁]; exact hr
  have ht₁ : w₁.checkTimers = 0 := by rw [← hw₁]; exact ht
  have hx₁ : w₁.exit = none := by rw [← hw₁]; exact hx
  have hne₁ : w₁.arrCheck ≠ [] := by
    rw [← List.length_pos_iff, hset, List.length_pos_iff]; exact hne
  rcases continueQueue_cases hc hx₁ now res.rss with ⟨hlt₁, he⟩ | ⟨hge, ho, he⟩ |
    ⟨hge, ho, hstay, he⟩ | ⟨hge, ho, hstay, he⟩
  · rw [he]
    have hcs := core_startCheck hc now hlt₁
    rw [startCheck_eq now (List.getElem?_eq_getElem hlt₁)] at hcs ⊢
    have hnil : w₁.outstanding ++ [⟨w₁.pointer, now, w₁.arrCheck[w₁.pointer]⟩] ≠ [] := by simp
    exact ⟨fun _ => ⟨hcs, fun hf => absurd (hr₁.symm.trans hf) (by decide),
      fun _ => ⟨hne₁, hlt₁, Or.inr ⟨ht₁, hnil⟩⟩, fun _ => hnil⟩, fun hn => absurd hx₁ hn⟩
  · rw [he]
    obtain ⟨h₁, h₂, h₃, h₄, h₅, h₆, h₇⟩ := hc
    refine ⟨fun _ => ⟨⟨h₁, h₂, h₃, h₄, h₅, h₆, h₇⟩, fun hf => ?_,
      fun _ => ⟨hne₁, ?_, Or.inr ⟨ht₁, ho⟩⟩, fun _ => ho⟩, fun hn => absurd hx₁ hn⟩
    · exact absurd (hr₁.symm.trans hf) (by decide)
    · dsimp only
      omega
  · rw [he]
    have hall := all_processed_of_drained hc hge ho
    have hcode : some w₁.exitCode ≠ some .other := by
      unfold Worker.exitCode
      split
      · decide
      · split <;> decide
    exact ⟨nofun, fun _ => ⟨ho, hge, hall, hcode⟩⟩
  · rw [he]
    have hstay' : w₁.availableForWork = true ∧ w₁.suicideSignal = false := by
      simp only [staysAvailable, Worker.mustStop, Bool.and_eq_true, Bool.not_eq_true',
        Bool.or_eq_false_iff] at hstay
      exact ⟨hstay.1, hstay.2.1.1⟩
    refine ⟨fun _ => ⟨⟨hc.counted, ?_, ?_, hc.index_nodup, ?_, ?_, hc.unfinished⟩,
      fun _ => ⟨rfl, hstay'.2, ht₁⟩, nofun, fun hf => ?_⟩, fun hn => absurd hx₁ hn⟩
    · simp [ho]
    · simp [ho]
    · simp
    · simp
    · exact absurd (hstay'.1.symm.trans hf) (by decide)

theorem checkTimer_status {w : Worker} (h : Invariant w) (hx : w.exit = none)
    (ht : 0 < w.checkTimers) (now : ℤ) : Status (handle w (.checkTimer now)).1 := by
  have hr := running_of_timer h ht
  obtain ⟨hne, hple, hphase⟩ := h.busy hr
  obtain ⟨ht₁, hp⟩ : w.checkTimers = 1 ∧ w.pointer = 0 := by
    rcases hphase with hp | hp
    · exact hp
    · omega
  have hnil : w.outstanding = [] := by
    rw [List.eq_nil_iff_forall_not_mem]
    intro o ho
    have := h.index_lt o ho
    omega
  have hpos := w.config.numToProcess_pos
  have hlen := List.length_pos_iff.mpr hne
  obtain ⟨h₁, h₂, h₃, h₄, h₅, h₆, h₇⟩ := h.toCore
  have hc : Core { w with checkTimers := w.checkTimers - 1 } := ⟨h₁, h₂, h₃, h₄, h₅, h₆, h₇⟩
  have hn : min (w.pointer + w.config.numToProcess) w.arrCheck.length - w.pointer =
      min w.config.numToProcess w.arrCheck.length := by rw [hp]; omega
  simp only [handle, Worker.checkServers, hn]
  have hcs := core_startChecks now (min w.config.numToProcess w.arrCheck.length) hc
    (by dsimp only; omega)
  rw [startChecks_eq now _ (by dsimp only; omega)] at hcs ⊢
  have hout : (startedFrom now w.pointer ((w.arrCheck.drop w.pointer).take
      (min w.config.numToProcess w.arrCheck.length))).length =
      min w.config.numToProcess w.arrCheck.length := by
    simp [startedFrom, hp]
  refine ⟨fun _ => ⟨hcs, fun hf => ?_, fun _ => ⟨hne, ?_, Or.inr ⟨?_, ?_⟩⟩, fun _ => ?_⟩,
    fun hf => absurd hx hf⟩
  · exact absurd (hr.symm.trans hf) (by decide)
  · dsimp only
    omega
  · dsimp only
    omega
  · rw [← List.length_pos_iff, List.length_append, hout]
    omega
  · rw [← List.length_pos_iff, List.length_append, hout]
    omega

theorem queueAdd_invariant {w : Worker} (h : Invariant w) {payload : List Site}
    (hne : payload ≠ []) (hf : ∀ s ∈ payload, s.processed = false) :
    Invariant (Worker.addToQueue payload { w with askedForWork := false }) := by
  obtain ⟨⟨h₁, h₂, h₃, h₄, h₅, h₆, h₇⟩, h₉, h₁₀, h₁₁⟩ := h
  cases hr : w.running with
  | true =>
    obtain ⟨hne', hple, hphase⟩ := h₁₀ hr
    simp only [Worker.addToQueue, ↓reduceIte]
    have hlookup : ∀ i s, (w.arrCheck ++ payload)[i]? = some s → i < w.arrCheck.length →
        w.arrCheck[i]? = some s := by
      intro i s hs hi
      rwa [List.getElem?_append_left hi] at hs
    refine ⟨⟨h₁, h₂, ?_, h₄, ?_, ?_, h₇⟩, nofun, fun _ => ⟨?_, ?_, hphase⟩, h₁₁⟩
    · intro o ho
      have := h₂ o ho
      exact (List.getElem?_append_left (by omega)).trans (h₃ o ho)
    · intro i s hs hi hp
      exact h₅ i s (hlookup i s hs (Nat.lt_of_lt_of_le hi hple)) hi hp
    · intro i s hs hi
      by_cases hlt : i < w.arrCheck.length
      · exact h₆ i s (hlookup i s hs hlt) hi
      · rw [List.getElem?_append_right (by omega)] at hs
        exact hf s (List.mem_of_getElem? hs)
    · simp [hne]
    · rw [List.length_append]
      dsimp only
      omega
  | false =>
    obtain ⟨harr, hsig, ht⟩ := h₉ hr
    have hnil : w.outstanding = [] := by
      rw [List.eq_nil_iff_forall_not_mem]
      intro o ho
      simpa [harr] using h₃ o ho
    simp only [Worker.addToQueue, Bool.false_eq_true, ↓reduceIte]
    refine ⟨⟨h₁, ?_, ?_, h₄, ?_, ?_, h₇⟩, nofun, fun _ => ⟨hne, Nat.zero_le _,
      Or.inl ⟨by simp [ht], rfl⟩⟩, h₁₁⟩
    · simp [hnil]
    · simp [hnil]
    · intro i s _ hi
      exact absurd hi (Nat.not_lt_zero i)
    · intro i s hs _
      exact hf s (List.mem_of_getElem? hs)

theorem evaporate_status {w : Worker} (h : Invariant w) (hx : w.exit = none) :
    Status (handle w .evaporate).1 := by
  cases hr : w.running with
  | true =>
    obtain ⟨⟨h₁, h₂, h₃, h₄, h₅, h₆, h₇⟩, h₉, h₁₀, h₁₁⟩ := h
    simp only [handle, hr, ↓reduceIte]
    rw [hr] at h₁₀
    exact ⟨fun _ => ⟨⟨h₁, h₂, h₃, h₄, h₅, h₆, h₇⟩, nofun, h₁₀, h₁₁⟩, fun hn => absurd hx hn⟩
  | false =>
    obtain ⟨harr, _, _⟩ := h.idle hr
    have hnil : w.outstanding = [] := by
      rw [List.eq_nil_iff_forall_not_mem]
      intro o ho
      simpa [harr] using h.index_site o ho
    simp only [handle, hr, Bool.false_eq_true, ↓reduceIte]
    exact ⟨nofun, fun _ => ⟨hnil, by simp [harr], by simp [harr], nofun⟩⟩

theorem step_status {w : Worker} {e : Event} (h : Status w) (he : Enabled w e)
    (hs : Payloads w e) : Status (handle w e).1 := by
  cases e with
  | queueAdd payload =>
    have hi := queueAdd_invariant (h.1 he) hs.1 hs.2
    refine ⟨fun _ => hi, fun hn => absurd ?_ hn⟩
    simp only [handle, Worker.addToQueue]
    split <;> exact he
  | evaporate => exact evaporate_status (h.1 he) he
  | configUpdate cfg seed =>
    obtain ⟨⟨h₁, h₂, h₃, h₄, h₅, h₆, h₇⟩, h₉, h₁₀, h₁₁⟩ := h.1 he.1
    exact ⟨fun _ => ⟨⟨h₁, h₂, h₃, h₄, h₅, h₆, h₇⟩, h₉, h₁₀, h₁₁⟩, fun hn => absurd he.1 hn⟩
  | checkTimer now => exact checkTimer_status (h.1 he.1) he.1 he.2 now
  | complete k now res => exact complete_status (h.1 he.1) he.1 he.2 now res
  | startup =>
    obtain ⟨⟨h₁, h₂, h₃, h₄, h₅, h₆, h₇⟩, h₉, h₁₀, h₁₁⟩ := h.1 he.1
    exact ⟨fun _ => ⟨⟨h₁, h₂, h₃, h₄, h₅, h₆, h₇⟩, h₉, h₁₀, h₁₁⟩, fun hn => absurd he.1 hn⟩
  | totalsTick =>
    obtain ⟨⟨h₁, h₂, h₃, h₄, h₅, h₆, h₇⟩, h₉, h₁₀, h₁₁⟩ := h.1 he
    exact ⟨fun _ => ⟨⟨h₁, h₂, h₃, h₄, h₅, h₆, h₇⟩, h₉, h₁₀, h₁₁⟩, fun hn => absurd he hn⟩
  | statsTick now rss =>
    obtain ⟨⟨h₁, h₂, h₃, h₄, h₅, h₆, h₇⟩, h₉, h₁₀, h₁₁⟩ := h.1 he
    exact ⟨fun _ => ⟨⟨h₁, h₂, h₃, h₄, h₅, h₆, h₇⟩, h₉, h₁₀, h₁₁⟩, fun hn => absurd he hn⟩

theorem booted_status {w : Worker} (h : Booted w) : Status w := by
  obtain ⟨cfg, host, now, seed, _, rfl⟩ := h
  exact ⟨fun _ => boot_invariant cfg host now seed, fun hn => absurd rfl hn⟩

theorem reachable_status {w : Worker} (hr : Reachable machine Payloads w) : Status w := by
  refine reachable_invariant ?_ ?_ hr
  · intro w hb
    exact booted_status hb
  · intro w e _ hi he hs
    exact step_status hi he hs

def abstraction (w : Worker) : BoundedQueue.State Site :=
  ⟨w.config.numToProcess, w.added, w.started, w.arrCheck.drop w.pointer,
    w.outstanding.map Outstanding.site, w.finished⟩

def answer (w : Worker) : Event → List (BoundedQueue.Event Site)
  | .queueAdd payload => [.submit payload]
  | .checkTimer _ =>
    .replicate (min (w.pointer + w.config.numToProcess) w.arrCheck.length - w.pointer) .start
  | .complete k _ _ => .finish k :: if w.pointer < w.arrCheck.length then [.start] else []
  | .configUpdate cfg _ => [.resize cfg.numToProcess]
  | _ => []

theorem abstraction_storeStats (w : Worker) (status : SiteStatus) (res : Result) :
    abstraction (w.storeStats status res) = abstraction w := by
  unfold Worker.storeStats
  split <;> rfl

theorem abstraction_noted {w : Worker} (h : Core w) {k : ℕ} {o : Outstanding}
    (hk : w.outstanding[k]? = some o) (server : Site) :
    abstraction (noted w k o server) = BoundedQueue.next (abstraction w) (.finish k) := by
  have hlt := h.index_lt o (List.mem_of_getElem? hk)
  simp only [abstraction, noted, Worker.noteResult, BoundedQueue.next, List.getElem?_map, hk,
    List.drop_set_of_lt hlt, List.eraseIdx_map, Option.map_some, Option.toList_some]

theorem abstraction_startCheck {w : Worker} (hlt : w.pointer < w.arrCheck.length) (now : ℤ) :
    abstraction (w.startCheck now) = BoundedQueue.next (abstraction w) .start := by
  rw [startCheck_eq now (List.getElem?_eq_getElem hlt)]
  simp only [abstraction, BoundedQueue.next, List.drop_eq_getElem_cons hlt, List.map_append,
    List.map_cons, List.map_nil]

theorem abstraction_complete {w : Worker} (h : Invariant w) (hx : w.exit = none) {k : ℕ}
    (hlt : k < w.outstanding.length) (now : ℤ) (res : Result) :
    abstraction (handle w (.complete k now res)).1 =
      (BoundedQueue.machine Site).exec (abstraction w) (answer w (.complete k now res)) := by
  have hk := List.getElem?_eq_getElem hlt
  rw [handle_complete h.toCore hk]
  dsimp only
  rw [abstraction_storeStats]
  generalize hserver : w.applyResult now w.outstanding[k].since res w.outstanding[k].site = server
  have hc : Core (noted w k w.outstanding[k] server) :=
    core_finish h.toCore hk (hserver ▸ rfl) _
  have ha := abstraction_noted h.toCore hk server
  have hlen : (noted w k w.outstanding[k] server).arrCheck.length = w.arrCheck.length := by
    simp [noted, Worker.noteResult]
  have hp : (noted w k w.outstanding[k] server).pointer = w.pointer := rfl
  rcases continueQueue_cases hc hx now res.rss with ⟨hlt₁, he⟩ | ⟨hge, _, he⟩ |
    ⟨hge, _, _, he⟩ | ⟨hge, _, _, he⟩
  · rw [he, answer, if_pos (by omega), abstraction_startCheck hlt₁, ha]
    rfl
  · rw [he, answer, if_neg (by omega)]
    exact ha
  · rw [he, answer, if_neg (by omega)]
    exact ha
  · rw [he, answer, if_neg (by omega)]
    refine Eq.trans ?_ ha
    simp only [abstraction, List.drop_nil, List.drop_eq_nil_of_le hge]

theorem abstraction_checkTimer (w : Worker) (now : ℤ) (hp : w.pointer ≤ w.arrCheck.length) :
    abstraction (handle w (.checkTimer now)).1 =
      (BoundedQueue.machine Site).exec (abstraction w) (answer w (.checkTimer now)) := by
  simp only [handle, Worker.checkServers, answer]
  rw [startChecks_eq now _ (by dsimp only; omega), BoundedQueue.exec_starts _ _
    (by simp only [abstraction, List.length_drop]; omega)]
  simp only [abstraction, List.map_append, startedFrom_sites, List.drop_drop]

theorem abstraction_queueAdd {w : Worker} (h : Invariant w) (payload : List Site) :
    abstraction (handle w (.queueAdd payload)).1 =
      (BoundedQueue.machine Site).exec (abstraction w) (answer w (.queueAdd payload)) := by
  simp only [handle, answer, Machine.exec, BoundedQueue.machine, BoundedQueue.next]
  cases hr : w.running with
  | true =>
    simp only [Worker.addToQueue, ↓reduceIte, abstraction,
      List.drop_append_of_le_length (h.busy hr).2.1]
  | false =>
    simp only [Worker.addToQueue, Bool.false_eq_true, ↓reduceIte, abstraction, List.drop_zero,
      (h.idle hr).1, List.drop_nil, List.nil_append]

theorem answer_valid {C : BoundedQueue.State Site → BoundedQueue.Event Site → Prop} {w : Worker}
    {e : Event} (hst : Status w) (he : Enabled w e)
    (hsubmit : ∀ payload, C (abstraction w) (.submit payload))
    (hfinish : ∀ k, C (abstraction w) (.finish k))
    (hresize : ∀ cfg seed, e = .configUpdate cfg seed →
      C (abstraction w) (.resize cfg.numToProcess))
    (hstart : ∀ s : BoundedQueue.State Site, s.cap = w.config.numToProcess →
      (s.active.length < w.config.numToProcess ∨ s.active.length < w.outstanding.length) →
      C s .start) :
    (BoundedQueue.machine Site).Valid C (abstraction w) (answer w e) := by
  cases e with
  | queueAdd payload => exact ⟨⟨trivial, hsubmit payload⟩, trivial⟩
  | configUpdate cfg seed => exact ⟨⟨trivial, hresize cfg seed rfl⟩, trivial⟩
  | checkTimer now =>
    obtain ⟨hx, ht⟩ := he
    have h := hst.1 hx
    have hr := running_of_timer h ht
    have hnil : w.outstanding.length = 0 := by
      rcases (h.busy hr).2.2 with ⟨_, hp⟩ | ⟨ht₀, _⟩
      · cases ho : w.outstanding with
        | nil => rfl
        | cons o rest =>
          have := h.index_lt o (by simp [ho])
          omega
      · omega
    refine BoundedQueue.valid_starts _ _ ?_ ?_
    · simp only [abstraction, List.length_drop]
      omega
    · intro j hj
      rw [BoundedQueue.exec_starts _ _ (by simp only [abstraction, List.length_drop]; omega)]
      refine hstart _ rfl (Or.inl ?_)
      simp only [abstraction, List.length_append, List.length_map, hnil, List.length_take,
        List.length_drop]
      omega
  | complete k now res =>
    obtain ⟨hx, hlt⟩ := he
    have h := hst.1 hx
    have hk : k < (abstraction w).active.length := by simpa [abstraction] using hlt
    refine ⟨⟨hk, hfinish k⟩, ?_⟩
    split
    · rename_i hp
      refine ⟨⟨?_, hstart _ rfl (Or.inr ?_)⟩, trivial⟩
      · simpa [abstraction, BoundedQueue.machine, BoundedQueue.next, BoundedQueue.Enabled] using hp
      · simp only [abstraction, BoundedQueue.machine, BoundedQueue.next,
          List.length_eraseIdx, List.length_map, hlt, ↓reduceIte]
        omega
    · trivial
  | evaporate | startup | totalsTick | statsTick => trivial

theorem answer_commutes {w : Worker} {e : Event} (hst : Status w) (he : Enabled w e) :
    abstraction (machine.next w e) =
      (BoundedQueue.machine Site).exec (abstraction w) (answer w e) := by
  cases e with
  | queueAdd payload => exact abstraction_queueAdd (hst.1 he) payload
  | checkTimer now =>
    have h := hst.1 he.1
    apply abstraction_checkTimer w now
    exact (h.busy (running_of_timer h he.2)).2.1
  | complete k now res => exact abstraction_complete (hst.1 he.1) he.1 he.2 now res
  | configUpdate cfg seed => rfl
  | evaporate =>
    simp only [machine, handle]
    split <;> rfl
  | startup | totalsTick | statsTick => rfl

theorem abstraction_start {w : Worker} (h : machine.start w) :
    (BoundedQueue.machine Site).start (abstraction w) := by
  obtain ⟨cfg, host, now, seed, _, rfl⟩ := h
  exact ⟨cfg.numToProcess, rfl⟩

/-- A worker refines the queue. -/
def refinement : Simulation machine Payloads (BoundedQueue.machine Site) Unrestricted where
  abs := abstraction
  answer := answer
  start _ h := abstraction_start h
  valid _ _ hr _ he _ := answer_valid (reachable_status hr) he (fun _ => trivial)
    (fun _ => trivial) (fun _ _ _ => trivial) (fun _ _ _ => trivial)
  commutes _ _ hr he _ := answer_commutes (reachable_status hr) he

def brought : Event → List Site
  | .queueAdd payload => payload
  | _ => []

theorem handle_added {w : Worker} {e : Event} (hst : Status w) (he : Enabled w e) :
    (handle w e).1.added = w.added ++ brought e := by
  have h := congrArg BoundedQueue.State.submitted (answer_commutes hst he)
  rw [BoundedQueue.exec_submitted] at h
  refine h.trans (congrArg (w.added ++ ·) ?_)
  cases e with
  | queueAdd payload => simp [answer, brought, BoundedQueue.Event.jobs]
  | checkTimer => simp [answer, brought, BoundedQueue.Event.jobs]
  | complete k =>
    simp only [answer, brought]
    split <;> rfl
  | evaporate | configUpdate | startup | totalsTick | statsTick => rfl

theorem payloads_of_steady {w : Worker} (hr : Reachable machine Steady w) :
    Reachable machine Payloads w := reachable_mono (fun _ _ h => h.1) hr

theorem steady_answer_valid {w : Worker} {e : Event} (hr : Reachable machine Steady w)
    (hq : Reachable (BoundedQueue.machine Site) BoundedQueue.Capped (abstraction w))
    (he : Enabled w e) (hs : Steady w e) :
    (BoundedQueue.machine Site).Valid BoundedQueue.Capped (abstraction w) (answer w e) := by
  have hb := BoundedQueue.reachable_bounded hq
  simp only [abstraction, List.length_map] at hb
  refine answer_valid (reachable_status (payloads_of_steady hr)) he (fun _ => trivial)
    (fun _ => trivial) hs.2 ?_
  intro s hcap hlt
  simp only [BoundedQueue.Capped, hcap]
  omega

def cappedRefinement :
    Simulation machine Steady (BoundedQueue.machine Site) BoundedQueue.Capped where
  abs := abstraction
  answer := answer
  start _ h := abstraction_start h
  valid _ _ hr hq he hs := steady_answer_valid hr hq he hs
  commutes _ _ hr he _ := answer_commutes (reachable_status (payloads_of_steady hr)) he

theorem reachable_queue {w : Worker} (hr : Reachable machine Payloads w) :
    BoundedQueue.Invariant (abstraction w) :=
  BoundedQueue.reachable_queue (refinement.reachable hr)

theorem reachable_bounded {w : Worker} (hr : Reachable machine Steady w) :
    w.outstanding.length ≤ w.config.numToProcess := by
  simpa [cappedRefinement, abstraction] using
    BoundedQueue.reachable_bounded (cappedRefinement.reachable hr)

/-- Steps the worker takes by itself. -/
def Internal : Event → Prop
  | .checkTimer _ | .complete _ _ _ => True
  | _ => False

def pendingWork (w : Worker) : ℕ :=
  2 * (w.arrCheck.length - w.pointer) + w.outstanding.length + w.checkTimers

theorem checkTimer_progress {w : Worker} (h : Invariant w) (ht : 0 < w.checkTimers) (now : ℤ) :
    pendingWork (handle w (.checkTimer now)).1 < pendingWork w := by
  have hr := running_of_timer h ht
  obtain ⟨hne, hple, hphase⟩ := h.busy hr
  have hlen := List.length_pos_iff.mpr hne
  have hpos := w.config.numToProcess_pos
  simp only [handle, Worker.checkServers]
  rw [startChecks_eq now _ (by dsimp only; omega)]
  simp only [pendingWork, List.length_append, startedFrom, List.length_map, List.length_zipIdx,
    List.length_take, List.length_drop]
  omega

theorem complete_progress {w : Worker} (h : Invariant w) (hx : w.exit = none) {k : ℕ}
    (hlt : k < w.outstanding.length) (now : ℤ) (res : Result) :
    pendingWork (handle w (.complete k now res)).1 < pendingWork w := by
  have hk := List.getElem?_eq_getElem hlt
  rw [handle_complete h.toCore hk]
  dsimp only
  generalize hserver : w.applyResult now w.outstanding[k].since res w.outstanding[k].site = server
  have hc : Core (noted w k w.outstanding[k] server) :=
    core_finish h.toCore hk (hserver ▸ rfl) _
  have hstats : ∀ v : Worker, pendingWork (v.storeStats server.siteStatus res) = pendingWork v := by
    intro v
    unfold Worker.storeStats
    split <;> rfl
  have hlen : (noted w k w.outstanding[k] server).arrCheck.length = w.arrCheck.length := by
    simp [noted, Worker.noteResult]
  have hout : (noted w k w.outstanding[k] server).outstanding.length =
      w.outstanding.length - 1 := by
    simp [noted, Worker.noteResult, List.length_eraseIdx, hlt]
  have hless : pendingWork (noted w k w.outstanding[k] server) + 1 = pendingWork w := by
    have hp : (noted w k w.outstanding[k] server).pointer = w.pointer := rfl
    have ht : (noted w k w.outstanding[k] server).checkTimers = w.checkTimers := rfl
    simp only [pendingWork, hlen, hout, hp, ht]
    omega
  rw [hstats, ← hless]
  rcases continueQueue_cases hc hx now res.rss with ⟨hlt₁, he⟩ | ⟨_, _, he⟩ |
    ⟨_, _, _, he⟩ | ⟨_, _, _, he⟩ <;> rw [he]
  · rw [startCheck_eq now (List.getElem?_eq_getElem hlt₁)]
    simp only [pendingWork, List.length_append, List.length_singleton]
    omega
  · exact Nat.lt_succ_self _
  · exact Nat.lt_succ_self _
  · simp only [pendingWork, List.length_nil]
    omega

/-- What the worker guarantees to the master. -/
structure QueueContract (w : Worker) : Prop where
  counted : w.exit = none → w.activeChecks = w.outstanding.length
  bounded : w.exit = none → w.activeChecks ≤ w.config.numToProcess
  started_in_order : w.started <+: w.added
  finished_once : w.started.Perm (w.finished ++ w.outstanding.map Outstanding.site)
  index_site : ∀ o ∈ w.outstanding, w.arrCheck[o.index]? = some o.site
  no_lost_wakeup : w.exit = none → w.started ≠ w.added → 0 < w.checkTimers ∨ w.outstanding ≠ []
  progress : ∀ e, Internal e → Enabled w e → pendingWork (handle w e).1 < pendingWork w
  exit_drained : w.exit ≠ none → w.started = w.added ∧ w.added.Perm w.finished ∧
    w.outstanding = [] ∧ ∀ s ∈ w.arrCheck, s.processed = true

theorem idle_of_nothing_pending {w : Worker} (h : Invariant w) (ht : w.checkTimers = 0)
    (ho : w.outstanding = []) : w.arrCheck = [] := by
  cases hr : w.running with
  | false => exact (h.idle hr).1
  | true =>
    rcases (h.busy hr).2.2 with ⟨ht', _⟩ | ⟨_, ho'⟩
    · omega
    · exact absurd ho ho'

theorem worker_queue_contract {w : Worker} (hr : Reachable machine Steady w) :
    QueueContract w := by
  have hb := reachable_bounded hr
  have hst := reachable_status (payloads_of_steady hr)
  have hq := reachable_queue (payloads_of_steady hr)
  constructor
  · exact fun hx => (hst.1 hx).counted
  · intro hx
    rw [(hst.1 hx).counted]
    omega
  · exact BoundedQueue.started_prefix hq
  · exact hq.conserved
  · intro o ho
    by_cases hx : w.exit = none
    · exact (hst.1 hx).index_site o ho
    · rw [(hst.2 hx).no_outstanding] at ho
      contradiction
  · intro hx hne
    by_contra hnone
    simp only [not_or, Nat.not_lt, Nat.le_zero, ne_eq, not_not] at hnone
    have harr := idle_of_nothing_pending (hst.1 hx) hnone.1 hnone.2
    have hw : (abstraction w).waiting = [] := by simp [abstraction, harr]
    have ha : (abstraction w).active = [] := by simp [abstraction, hnone.2]
    exact hne (BoundedQueue.all_done hq hw ha).1
  · intro e hi he
    cases e with
    | checkTimer now => exact checkTimer_progress (hst.1 he.1) he.2 now
    | complete k now res => exact complete_progress (hst.1 he.1) he.1 he.2 now res
    | queueAdd | evaporate | configUpdate | startup | totalsTick | statsTick => exact hi.elim
  · intro hx
    obtain ⟨ho, hp, hall, _⟩ := hst.2 hx
    have hw : (abstraction w).waiting = [] := List.drop_eq_nil_of_le hp
    have ha : (abstraction w).active = [] := by simp [abstraction, ho]
    obtain ⟨h₁, h₂⟩ := BoundedQueue.all_done hq hw ha
    exact ⟨h₁, h₂, ho, hall⟩

/-- Three sites with two at a time, one of them finished. -/
theorem worker_queue_contract_three :
    let row : Row := ⟨1, "http://example.com", .running, none⟩
    let cfg := { sampleConfig with numToProcess := 2, numToProcess_pos := by decide }
    QueueContract (machine.exec (Worker.boot cfg "jetmon" 0 0)
      [.queueAdd [Site.ofRow row, Site.ofRow row], .queueAdd [Site.ofRow row], .checkTimer 50,
        .complete 1 90 ⟨1200, 200, 0, 0⟩]) := by
  have hadd : ∀ (w : Worker) payload, payload ≠ [] → (∀ s ∈ payload, s.processed = false) →
      Steady w (.queueAdd payload) := fun w payload hne hf => ⟨⟨hne, hf⟩, fun _ _ h => by cases h⟩
  have htimer : ∀ (w : Worker) now, Steady w (.checkTimer now) :=
    fun w now => ⟨trivial, fun _ _ h => by cases h⟩
  have hdone : ∀ (w : Worker) k now res, Steady w (.complete k now res) :=
    fun w k now res => ⟨trivial, fun _ _ h => by cases h⟩
  intro row cfg
  refine worker_queue_contract (exec_reachable (.start ⟨cfg, "jetmon", 0, 0, ?_, rfl⟩) ?_)
  · exact Or.inr (by decide)
  · refine ⟨⟨rfl, hadd _ _ ?_ ?_⟩, ⟨rfl, hadd _ _ ?_ ?_⟩, ⟨⟨rfl, ?_⟩, htimer _ _⟩,
      ⟨⟨rfl, ?_⟩, hdone _ _ _ _⟩, trivial⟩
    all_goals decide

end WorkerQueue

import Jetmon.MasterFrames

/-! The sites the master holds and what it writes to its workers: how a handler changes
the link of one worker, and that queued work never waits while a worker is free. -/
namespace MasterChannels

open SiteModel
open MasterState
open MasterDispatch
open MasterFrames

/-- `P` holds of the sites that are queued or sent, `Q` of those that wait for a retry. -/
structure Holds (P Q : Site → Prop) (m : Master) : Prop where
  queued : ∀ s ∈ m.arrObjects, P s
  waiting : ∀ s ∈ m.localRetries, Q s
  sent : ∀ pid, ∀ msg ∈ m.pipe pid, msg.Carries P

variable {P Q : Site → Prop} {m m' : Master}

theorem Holds.congr (h : Holds P Q m) (ha : m'.arrObjects = m.arrObjects)
    (hl : m'.localRetries = m.localRetries) (hp : m'.pipe = m.pipe) : Holds P Q m' :=
  ⟨ha ▸ h.queued, hl ▸ h.waiting, hp ▸ h.sent⟩

theorem Holds.of_workload (h : Holds P Q m) (hw : workload m' = workload m) : Holds P Q m' :=
  h.congr (congrArg Workload.arrObjects hw) (congrArg Workload.localRetries hw)
    (congrArg Workload.pipe hw)

theorem Holds.mono {P' Q' : Site → Prop} (h : Holds P Q m) (hP : ∀ s, P s → P' s)
    (hQ : ∀ s, Q s → Q' s) : Holds P' Q' m := by
  refine ⟨fun s hs => hP s (h.queued s hs), fun s hs => hQ s (h.waiting s hs), ?_⟩
  intro pid msg hm
  have hc := h.sent pid msg hm
  cases msg with
  | queueAdd payload => exact ⟨hc.1, fun s hs => hP s (hc.2 s hs)⟩
  | evaporate | configUpdate => trivial

theorem Holds.send (h : Holds P Q m) (pid : Pid) (msg : ToWorker) (hc : msg.Carries P) :
    Holds P Q (m.send pid msg) := by
  refine ⟨h.queued, h.waiting, ?_⟩
  intro q msg' hm
  simp only [Master.send] at hm
  split at hm
  · rcases List.mem_append.mp hm with hm | hm
    · exact h.sent q msg' hm
    · rw [List.mem_singleton.mp hm]
      exact hc
  · exact h.sent q msg' hm

theorem Holds.give (h : Holds P Q m) {n : ℕ} (hn : 0 < n) (hle : n ≤ m.arrObjects.length)
    (pid : Pid) : Holds P Q (give pid n m) := by
  have hrest : Holds P Q { m with arrObjects := m.arrObjects.drop n } :=
    ⟨fun s hs => h.queued s (List.mem_of_mem_drop hs), h.waiting, h.sent⟩
  refine hrest.send pid _ ⟨?_, fun s hs => h.queued s (List.mem_of_mem_take hs)⟩
  rw [← List.length_pos_iff, List.length_take]
  omega

theorem Holds.assign (h : Holds P Q m) (pid : Pid) (size : Option ℤ) :
    Holds P Q (m.assignWorkToWorker pid size) := by
  rw [assignWorkToWorker_eq]
  split
  · rename_i hg
    exact h.give (batchLength_pos hg.2.2 size) (Nat.min_le_left _ _) pid
  · exact h

theorem Holds.moves (h : Holds P Q m) (hm : Moves m m') : Holds P Q m' := by
  induction hm with
  | refl => exact h
  | tail _ hmove ih =>
    cases hmove with
    | evaporate => exact ih.send _ .evaporate trivial
    | give _ _ hn hle => exact ih.give hn hle _
    | park => exact ih.congr rfl rfl rfl
    | fetch => exact ih.of_workload (getMoreSites_workload _)
    | endRound => exact ih.of_workload (maybeEndRound_workload _)

theorem Holds.freeWorkersToWork (h : Holds P Q m) : Holds P Q m.freeWorkersToWork := by
  rcases freeWorkersToWork_cases m with ⟨_, he⟩ | ⟨_, _, hm⟩
  · rw [he]
    exact h
  · have hfree : Holds P Q { m with freeWorkers := [] } := h.congr rfl rfl rfl
    exact hfree.moves hm

theorem Holds.deleteWorker (h : Holds P Q m) (pid : Pid) : Holds P Q (m.deleteWorker pid) := by
  unfold Master.deleteWorker
  split <;> exact h.congr rfl rfl rfl

theorem Holds.resetChannel (h : Holds P Q m) (pid : Pid) : Holds P Q (m.resetChannel pid) := by
  refine ⟨h.queued, h.waiting, ?_⟩
  intro q msg hm
  simp only [Master.resetChannel] at hm
  split at hm
  · contradiction
  · exact h.sent q msg hm

theorem Holds.spawnWorker (h : Holds P Q m) (pid : Pid) : Holds P Q (m.spawnWorker pid) :=
  ((h.resetChannel pid).deleteWorker pid).congr rfl rfl rfl

theorem retryDue_congr (h : settings m' = settings m) (server : Site) :
    m'.retryDue server = m.retryDue server := by
  have hc : m'.config = m.config := congrArg Settings.config h
  have hn : m'.clock = m.clock := congrArg Settings.clock h
  simp only [Master.retryDue, hc, hn]

theorem Holds.retryLocally (h : Holds P Q m)
    (hdue : ∀ s, Q s → m.retryDue s = true → P s) : Holds P Q m.retryLocally := by
  have hloop : Holds P Q (retryLoop m m.localRetries).1 ∧
      settings (retryLoop m m.localRetries).1 = settings m := by
    refine retryLoop_invariant (I := fun m' => Holds P Q m' ∧ settings m' = settings m)
      ⟨⟨h.queued, by simp, h.sent⟩, rfl⟩ ?_
    rintro server hs m₁ m₂ ⟨h₁, hset⟩ hmove
    have hq := h.waiting server hs
    cases hmove with
    | keep =>
      refine ⟨⟨h₁.queued, ?_, h₁.sent⟩, hset⟩
      intro s hmem
      rcases List.mem_cons.mp hmem with rfl | hmem
      · exact hq
      · exact h₁.waiting s hmem
    | @hand i pid hd =>
      rw [retryDue_congr hset] at hd
      have hcarry : (ToWorker.queueAdd [server]).Carries P := by
        refine ⟨by simp, fun s hmem => ?_⟩
        rw [List.mem_singleton.mp hmem]
        exact hdue server hq hd
      have hfree : Holds P Q { m₁ with freeWorkers := m₁.freeWorkers.eraseIdx i } :=
        h₁.congr rfl rfl rfl
      exact ⟨hfree.send pid _ hcarry, hset⟩
    | requeue hd =>
      rw [retryDue_congr hset] at hd
      refine ⟨⟨?_, h₁.waiting, h₁.sent⟩, hset⟩
      intro s hmem
      rcases List.mem_append.mp hmem with hmem | hmem
      · exact h₁.queued s hmem
      · rw [List.mem_singleton.mp hmem]
        exact hdue server hq hd
  rcases retryLocally_cases m with ⟨_, he⟩ | ⟨_, he⟩ <;> rw [he]
  · exact hloop.1
  · split
    · exact hloop.1
    · exact hloop.1.congr rfl rfl rfl

/-- What enters: rows of the database, retries that are due, and rechecked sites. -/
theorem handle_holds {e : Event} (h : Holds P Q m) (hrow : ∀ row, P (Site.ofRow row))
    (hdue : ∀ s, Q s → m.retryDue s = true → P s)
    (hrecheck : ∀ pid server, e = .message pid (.recheck server) →
      (server.checks.length : ℤ) < m.config.numOfChecks → Q { server with processed := false }) :
    Holds P Q (handle m e) := by
  by_cases hd : Dispatches e
  · cases e with
    | reload cfg =>
      have hcfg : Holds P Q { m with config := cfg } := h.congr rfl rfl rfl
      exact reload_invariant hcfg fun _ hm pid _ => hm.send pid .configUpdate trivial
    | message pid msg =>
      cases msg with
      | stopWork =>
        have hhalt : Holds P Q (m.halt pid) := by
          rcases halt_cases pid m with ⟨_, _, he⟩ | ⟨_, he⟩ <;> rw [he]
          · exact h.congr rfl rfl rfl
          · exact h
        exact hhalt.of_workload (maybeEndRound_workload _)
      | sendWork => exact h.moves (sendWork_moves pid m)
      | recheck server =>
        simp only [handle, Master.workerMsgCallback]
        split
        · rename_i hlt
          unfold Master.addServerToLocalRetries
          split
          · exact h
          · refine ⟨h.queued, ?_, h.sent⟩
            intro s hs
            rcases List.mem_append.mp hs with hs | hs
            · exact h.waiting s hs
            · rw [List.mem_singleton.mp hs]
              exact hrecheck pid server rfl hlt
        · exact h.congr rfl rfl rfl
      | stats stats checkStats =>
        have hkeep : Holds P Q (m.keepStats pid stats checkStats) := h.congr rfl rfl rfl
        rcases stats_cases pid stats checkStats m with ⟨-, he⟩ | he <;> rw [he]
        · exact hkeep.assign ..
        · exact hkeep
      | totals | notifyStatusChange | notifyStillDown => exact hd.elim
    | workerExit pid code fresh =>
      apply workerExit_invariant ((h.resetChannel pid).deleteWorker pid)
      exact fun _ m' hm => hm.spawnWorker fresh
    | ensureWorkerCount fresh =>
      exact ensureWorkerCount_invariant h fun _ hm pid _ => hm.spawnWorker pid
    | queryDone k answer =>
      cases answer with
      | error => exact hd.elim
      | rows rows =>
        cases rows with
        | nil => exact hd.elim
        | cons row rest =>
          refine Holds.freeWorkersToWork ⟨?_, h.waiting, h.sent⟩
          intro s hs
          rcases List.mem_append.mp hs with hs | hs
          · exact h.queued s hs
          · obtain ⟨r, _, rfl⟩ := List.mem_map.mp hs
            exact hrow r
    | processQueuedRetries =>
      have hsweep : Holds P Q (Master.requestRetries m.sweepRetries.1 m.sweepRetries.2) :=
        h.congr rfl rfl rfl
      exact hsweep.retryLocally hdue
    | wait | roundTimer | restartTimer | updateStats | hostStatus => exact hd.elim
  · exact h.of_workload (handle_workload m hd)

def isWork : ToWorker → Bool
  | .queueAdd _ => true
  | .evaporate | .configUpdate => false

/-- The worker is remembered as free, or work or the end of its life is on its way. -/
def Cared (m : Master) (p : Pid) : Prop :=
  p ∈ m.freeWorkers ∨ ∃ msg ∈ m.pipe p, isWork msg = true ∨ msg = .evaporate

/-- A step of the master seen from the worker `p`, to which it writes `msgs`. -/
structure Link (p : Pid) (m m' : Master) (msgs : List ToWorker) : Prop where
  listed : m'.arrWorkers.count p = m.arrWorkers.count p
  halted : p ∈ m'.haltedWorkers ↔ p ∈ m.haltedWorkers
  pipe : m'.pipe p = m.pipe p ++ msgs
  handed : m'.handed p = m.handed p ++ msgs.flatMap ToWorker.sites
  cared : Known m p → p ∉ m.haltedWorkers → Cared m p → Cared m' p
  spared : p ∈ m.haltedWorkers → p ∉ m.freeWorkers →
    p ∉ m'.freeWorkers ∧ ∀ msg ∈ msgs, isWork msg = false
  absent : p ∉ m.arrWorkers → msgs = []

variable {p : Pid}

theorem Link.refl (p : Pid) (m : Master) : Link p m m [] :=
  ⟨rfl, Iff.rfl, (List.append_nil _).symm, (List.append_nil _).symm, fun _ _ h => h,
    fun _ h => ⟨h, nofun⟩, fun _ => rfl⟩

theorem Link.mem {msgs : List ToWorker} (h : Link p m m' msgs) :
    p ∈ m'.arrWorkers ↔ p ∈ m.arrWorkers := by
  rw [← List.count_pos_iff, h.listed, List.count_pos_iff]

theorem Link.known {msgs : List ToWorker} (h : Link p m m' msgs) : Known m' p ↔ Known m p :=
  and_congr_right fun _ => h.mem

theorem Link.trans {m₁ m₂ m₃ : Master} {as bs : List ToWorker} (h : Link p m₁ m₂ as)
    (h' : Link p m₂ m₃ bs) : Link p m₁ m₃ (as ++ bs) where
  listed := h'.listed.trans h.listed
  halted := h'.halted.trans h.halted
  pipe := by rw [h'.pipe, h.pipe, List.append_assoc]
  handed := by rw [h'.handed, h.handed, List.flatMap_append, List.append_assoc]
  cared := fun hk hn hc =>
    h'.cared (h.known.mpr hk) (fun hh => hn (h.halted.mp hh)) (h.cared hk hn hc)
  spared := by
    intro hh hf
    obtain ⟨hf', has⟩ := h.spared hh hf
    obtain ⟨hf'', hbs⟩ := h'.spared (h.halted.mpr hh) hf'
    refine ⟨hf'', fun msg hm => ?_⟩
    rcases List.mem_append.mp hm with hm | hm
    · exact has msg hm
    · exact hbs msg hm
  absent := by
    intro hp
    rw [h.absent hp, h'.absent (mt h.mem.mp hp), List.append_nil]

theorem Link.same (hk : m'.arrWorkers = m.arrWorkers) (hh : m'.haltedWorkers = m.haltedWorkers)
    (hp : m'.pipe p = m.pipe p) (hg : m'.handed p = m.handed p)
    (hf : m'.freeWorkers = m.freeWorkers) : Link p m m' [] where
  listed := by rw [hk]
  halted := by rw [hh]
  pipe := by rw [hp, List.append_nil]
  handed := by rw [hg, List.flatMap_nil, List.append_nil]
  cared := by
    intro _ _ hc
    unfold Cared at hc ⊢
    rwa [hf, hp]
  spared := fun _ h => ⟨hf ▸ h, nofun⟩
  absent := fun _ => rfl

theorem Link.of_workload (h : workload m' = workload m) : Link p m m' [] :=
  .same (congrArg Workload.arrWorkers h) (congrArg Workload.haltedWorkers h)
    (congrFun (congrArg Workload.pipe h) p) (congrFun (congrArg Workload.handed h) p)
    (congrArg Workload.freeWorkers h)

theorem send_link {q : Pid} (msg : ToWorker) (hq : q ∈ m.arrWorkers)
    (h : isWork msg = true → q ∉ m.haltedWorkers) :
    Link p m (m.send q msg) (if p = q then [msg] else []) := by
  by_cases hpq : p = q
  · subst hpq
    rw [if_pos rfl]
    refine ⟨rfl, Iff.rfl, by simp [Master.send], by simp [Master.send], ?_, ?_,
      fun hp => absurd hq hp⟩
    · intro _ _ hc
      rcases hc with hc | ⟨msg', hm, hw⟩
      · exact Or.inl hc
      · exact Or.inr ⟨msg', by simp [Master.send, hm], hw⟩
    · intro hh hf
      refine ⟨hf, fun msg' hm => ?_⟩
      rw [List.mem_singleton.mp hm]
      cases hw : isWork msg with
      | true => exact absurd hh (h hw)
      | false => rfl
  · rw [if_neg hpq]
    refine ⟨rfl, Iff.rfl, by simp [Master.send, hpq], by simp [Master.send, hpq], ?_,
      fun _ hf => ⟨hf, nofun⟩, fun _ => rfl⟩
    intro _ _ hc
    simpa [Cared, Master.send, hpq] using hc

theorem give_link {n : ℕ} {q : Pid} (hk : Known m q) (h : q ∉ m.haltedWorkers) :
    Link p m (give q n m) (if p = q then [.queueAdd (m.arrObjects.take n)] else []) := by
  have hrest : Link p m { m with arrObjects := m.arrObjects.drop n } [] :=
    .same rfl rfl rfl rfl rfl
  exact hrest.trans (send_link _ hk.2 fun _ => h)

theorem getMoreSites_link : Link p m m.getMoreSites [] := .of_workload (getMoreSites_workload m)

theorem maybeEndRound_link : Link p m m.maybeEndRound [] := .of_workload (maybeEndRound_workload m)

def Crowded (m : Master) : Prop := m.config.numWorkers < m.arrWorkers.length

/-- In one handler a worker gets either requests to leave or other requests. -/
def Uniform (msgs : List ToWorker) : Prop :=
  (∀ msg ∈ msgs, msg = .evaporate) ∨ ∀ msg ∈ msgs, msg ≠ .evaporate

theorem uniform_of_length_le_one {msgs : List ToWorker} (h : msgs.length ≤ 1) : Uniform msgs := by
  cases msgs with
  | nil => exact Or.inl nofun
  | cons msg rest =>
    have hrest : rest = [] := List.length_eq_zero_iff.mp (by simpa using h)
    subst hrest
    by_cases he : msg = .evaporate
    · exact Or.inl (by simpa using he)
    · exact Or.inr (by simpa using he)

/-- What the moves of one handler write: requests to leave when there are too many
workers, and work otherwise. -/
theorem moves_link (hm : Moves m m') : (Crowded m' ↔ Crowded m) ∧ ∃ msgs, Link p m m' msgs ∧
    (Crowded m → ∀ msg ∈ msgs, msg = .evaporate) ∧
    (¬Crowded m → ∀ msg ∈ msgs, msg ≠ .evaporate) := by
  induction hm with
  | refl => exact ⟨Iff.rfl, [], .refl p m, fun _ => nofun, fun _ => nofun⟩
  | @tail m₁ m₂ _ hmove ih =>
    obtain ⟨hcrowd, msgs, hlink, hover, hunder⟩ := ih
    have hstep : (Crowded m₂ ↔ Crowded m₁) ∧ ∃ new, Link p m₁ m₂ new ∧
        (Crowded m₁ → ∀ msg ∈ new, msg = .evaporate) ∧
        (¬Crowded m₁ → ∀ msg ∈ new, msg ≠ .evaporate) := by
      cases hmove with
      | @evaporate q hk ho =>
        refine ⟨Iff.rfl, _, send_link .evaporate hk.2 nofun, fun _ msg hm => ?_,
          fun hu => absurd ho hu⟩
        split at hm
        · exact List.mem_singleton.mp hm
        · contradiction
      | @give q n hk hh _ _ hle =>
        refine ⟨Iff.rfl, _, give_link hk hh, fun ho => absurd ho (by unfold Crowded; omega), ?_⟩
        intro _ msg hm
        split at hm
        · rw [List.mem_singleton.mp hm]
          nofun
        · contradiction
      | @park q _ hh _ =>
        refine ⟨Iff.rfl, [], ⟨rfl, Iff.rfl, (List.append_nil _).symm, (List.append_nil _).symm,
          ?_, ?_, fun _ => rfl⟩, fun _ => nofun, fun _ => nofun⟩
        · intro _ _ hc
          rcases hc with hc | hc
          · exact Or.inl (List.mem_append_left _ hc)
          · exact Or.inr hc
        · intro hp hf
          refine ⟨fun hmem => ?_, nofun⟩
          rcases List.mem_append.mp hmem with hmem | hmem
          · exact hf hmem
          · exact hh (List.mem_singleton.mp hmem ▸ hp)
      | fetch =>
        refine ⟨?_, [], getMoreSites_link, fun _ => nofun, fun _ => nofun⟩
        simp only [Master.getMoreSites]
        split <;> exact Iff.rfl
      | endRound =>
        refine ⟨?_, [], maybeEndRound_link, fun _ => nofun, fun _ => nofun⟩
        unfold Master.maybeEndRound
        split <;> exact Iff.rfl
    obtain ⟨hcrowd', new, hlink', hover', hunder'⟩ := hstep
    refine ⟨hcrowd'.trans hcrowd, msgs ++ new, hlink.trans hlink', fun ho => ?_, fun hu => ?_⟩
    · exact List.forall_mem_append.mpr ⟨hover ho, hover' (hcrowd.mpr ho)⟩
    · exact List.forall_mem_append.mpr ⟨hunder hu, hunder' (mt hcrowd.mp hu)⟩

theorem moves_uniform (hm : Moves m m') : ∃ msgs, Link p m m' msgs ∧ Uniform msgs := by
  obtain ⟨_, msgs, hlink, hover, hunder⟩ := moves_link (p := p) hm
  by_cases ho : Crowded m
  · exact ⟨msgs, hlink, Or.inl (hover ho)⟩
  · exact ⟨msgs, hlink, Or.inr (hunder ho)⟩

theorem sendWork_cares (hk : Known m p) (hh : p ∉ m.haltedWorkers) : Cared (m.sendWork p) p := by
  rcases sendWork_cases p m with ⟨_, he⟩ | ⟨_, ha, he⟩ | ⟨_, ha, he⟩ <;> rw [he]
  · rw [if_pos hk]
    exact Or.inr ⟨.evaporate, by simp [Master.send], Or.inr rfl⟩
  · have hpark : p ∈ (park p m).freeWorkers := by
      unfold park
      split
      · exact List.mem_append_right _ (List.mem_singleton_self p)
      · rename_i hno
        by_contra hf
        exact hno ⟨hh, hf⟩
    have hfetch : p ∈ (fetch (park p m)).freeWorkers := by
      unfold fetch Master.getMoreSites
      split
      · exact hpark
      · dsimp only
        split <;> exact hpark
    apply Or.inl
    unfold Master.maybeEndRound
    split <;> exact hfetch
  · rw [assignWorkToWorker_eq, if_pos ⟨hk, hh, ha⟩]
    exact Or.inr ⟨.queueAdd (m.arrObjects.take (batchLength none m)),
      by simp [give, Master.send], Or.inl rfl⟩

theorem freeLoop_cares (pids : List Pid) : ∀ {m : Master}, p ∈ pids → Known m p →
    p ∉ m.haltedWorkers → Cared (pids.foldl
      (fun m pid => if (m.getWorker pid).isSome then m.sendWork pid else m) m) p := by
  induction pids with
  | nil => intro m hp; contradiction
  | cons q rest ih =>
    intro m hp hk hh
    have hturn : ∃ msgs, Link p m (if (m.getWorker q).isSome then m.sendWork q else m) msgs := by
      split
      · exact (moves_uniform (sendWork_moves q m)).imp fun _ h => h.1
      · exact ⟨[], .refl p m⟩
    obtain ⟨msgs, hlink⟩ := hturn
    have hk' := hlink.known.mpr hk
    have hh' := fun h => hh (hlink.halted.mp h)
    rw [List.foldl_cons]
    rcases List.mem_cons.mp hp with rfl | hp
    · obtain ⟨msgs', hrest, _⟩ := moves_uniform (p := p) (freeLoop_moves rest
        (if (m.getWorker p).isSome then m.sendWork p else m))
      apply hrest.cared hk' hh'
      rw [if_pos ((getWorker_isSome m p).mpr hk)]
      exact sendWork_cares hk hh
    · exact ih hp hk' hh'

theorem freeWorkersToWork_link (m : Master) :
    ∃ msgs, Link p m m.freeWorkersToWork msgs ∧ Uniform msgs := by
  rcases freeWorkersToWork_cases m with ⟨_, he⟩ | ⟨_, he, hm⟩
  · rw [he]
    exact ⟨[], .refl p m, Or.inl nofun⟩
  · obtain ⟨msgs, hlink, hu⟩ := moves_uniform (p := p) hm
    refine ⟨msgs, ⟨hlink.listed, hlink.halted, hlink.pipe, hlink.handed, ?_,
      fun hh _ => hlink.spared hh nofun, hlink.absent⟩, hu⟩
    intro hk hh hc
    rcases hc with hc | hc
    · rw [he]
      exact freeLoop_cares m.freeWorkers hc hk hh
    · exact hlink.cared hk hh (Or.inr hc)

theorem resetChannel_link {q : Pid} (h : q ≠ p) : Link p m (m.resetChannel q) [] := by
  have hp : (m.resetChannel q).pipe p = m.pipe p := if_neg h.symm
  refine ⟨rfl, Iff.rfl, by rw [hp, List.append_nil], ?_, ?_, fun _ hf => ⟨hf, nofun⟩, fun _ => rfl⟩
  · rw [List.flatMap_nil, List.append_nil]
    exact if_neg h.symm
  · intro _ _ hc
    unfold Cared at hc ⊢
    rwa [hp]

theorem Link.without {q : Pid} (h : q ≠ p)
    (hlisted : m'.arrWorkers.count p = m.arrWorkers.count p)
    (hhalted : p ∈ m'.haltedWorkers ↔ p ∈ m.haltedWorkers) (hpipe : m'.pipe p = m.pipe p)
    (hhanded : m'.handed p = m.handed p) (hfree : m'.freeWorkers = m.freeWorkers.filter (· ≠ q)) :
    Link p m m' [] where
  listed := hlisted
  halted := hhalted
  pipe := hpipe.trans (List.append_nil _).symm
  handed := hhanded.trans (List.append_nil _).symm
  cared := by
    intro _ _ hc
    unfold Cared at hc ⊢
    rw [hfree, hpipe]
    refine hc.imp_left fun hin => ?_
    exact List.mem_filter.mpr ⟨hin, by simpa using h.symm⟩
  spared := by
    intro _ hf
    rw [hfree]
    exact ⟨fun hin => hf (List.mem_filter.mp hin).1, nofun⟩
  absent := fun _ => rfl

theorem deleteWorker_link {q : Pid} (h : q ≠ p) : Link p m (m.deleteWorker q) [] := by
  unfold Master.deleteWorker
  split
  · exact .refl p m
  · exact .without h (List.count_erase_of_ne h.symm) (by simp [h.symm]) rfl rfl rfl

theorem spawnWorker_link {q : Pid} (h : q ≠ p) : Link p m (m.spawnWorker q) [] := by
  have hd : Link p m ((m.resetChannel q).deleteWorker q) [] :=
    (resetChannel_link h).trans (deleteWorker_link h)
  refine ⟨?_, hd.halted, hd.pipe, hd.handed, hd.cared, hd.spared, fun _ => rfl⟩
  simp only [Master.spawnWorker, List.count_append, hd.listed]
  rw [List.count_singleton, if_neg (by simpa using h), Nat.add_zero]

theorem assignWorkToWorker_link (q : Pid) (size : Option ℤ) (m : Master) :
    ∃ msgs, Link p m (m.assignWorkToWorker q size) msgs ∧ Uniform msgs := by
  rw [assignWorkToWorker_eq]
  split
  · rename_i h
    refine ⟨_, give_link h.1 h.2.1, uniform_of_length_le_one ?_⟩
    split <;> simp
  · exact ⟨[], .refl p m, Or.inl nofun⟩

theorem retryMove_link {server : Site} (h : RetryMove server m m') :
    ∃ msgs, Link p m m' msgs ∧ ∀ msg ∈ msgs, msg ≠ .evaporate := by
  cases h with
  | keep => exact ⟨[], .same rfl rfl rfl rfl rfl, nofun⟩
  | requeue => exact ⟨[], .same rfl rfl rfl rfl rfl, nofun⟩
  | @hand i q _ hi hk =>
    have hmem := List.mem_of_getElem? hi
    by_cases hpq : p = q
    · subst hpq
      refine ⟨[.queueAdd [server]], ⟨rfl, Iff.rfl, by simp [Master.send], by simp [Master.send],
        ?_, fun _ hf => absurd hmem hf, fun hp => absurd hk.2 hp⟩, by simp⟩
      exact fun _ _ _ => Or.inr ⟨.queueAdd [server], by simp [Master.send], Or.inl rfl⟩
    · refine ⟨[], ⟨rfl, Iff.rfl, by simp [Master.send, hpq], by simp [Master.send, hpq], ?_, ?_,
        fun _ => rfl⟩, nofun⟩
      · intro _ _ hc
        rcases hc with hc | hc
        · obtain ⟨j, hj⟩ := List.mem_iff_getElem?.mp hc
          refine Or.inl (List.mem_eraseIdx_iff_getElem?.mpr ⟨j, ?_, hj⟩)
          rintro rfl
          rw [hi] at hj
          exact hpq (Option.some.inj hj).symm
        · apply Or.inr
          simpa [Master.send, hpq] using hc
      · exact fun _ hf => ⟨fun hm => hf (List.mem_of_mem_eraseIdx hm), nofun⟩

theorem retryLocally_link (m : Master) :
    ∃ msgs, Link p m m.retryLocally msgs ∧ Uniform msgs := by
  have hloop : ∃ msgs, Link p m (retryLoop m m.localRetries).1 msgs ∧
      ∀ msg ∈ msgs, msg ≠ .evaporate := by
    refine retryLoop_invariant (I := fun m' => ∃ msgs, Link p m m' msgs ∧
      ∀ msg ∈ msgs, msg ≠ .evaporate) ⟨[], .same rfl rfl rfl rfl rfl, nofun⟩ ?_
    rintro server _ m₁ m₂ ⟨msgs, hlink, hno⟩ hmove
    obtain ⟨new, hlink', hno'⟩ := retryMove_link (p := p) hmove
    refine ⟨msgs ++ new, hlink.trans hlink', fun msg hm => ?_⟩
    rcases List.mem_append.mp hm with hm | hm
    · exact hno msg hm
    · exact hno' msg hm
  obtain ⟨msgs, hlink, hno⟩ := hloop
  refine ⟨msgs, ?_, Or.inr hno⟩
  rcases retryLocally_cases m with ⟨_, he⟩ | ⟨ha, he⟩ <;> rw [he]
  · exact hlink
  · split
    · exact hlink
    · -- the free workers that are left are not known
      have hstranded := retryLoop_stranded m _ ha
      refine ⟨hlink.listed, hlink.halted, hlink.pipe, hlink.handed, ?_,
        fun hh hf => ⟨nofun, (hlink.spared hh hf).2⟩, hlink.absent⟩
      intro hk hh hc
      rcases hlink.cared hk hh hc with hf | hw
      · exact absurd (hlink.known.mpr hk) (hstranded p hf)
      · exact Or.inr hw

theorem stopWork_link {q : Pid} (h : q ≠ p) : Link p m (m.stopWork q) [] := by
  have hhalt : Link p m (m.halt q) [] := by
    rcases halt_cases q m with ⟨_, _, he⟩ | ⟨_, he⟩ <;> rw [he]
    · exact .without h rfl (by simp [h.symm]) rfl rfl rfl
    · exact .refl p m
  exact hhalt.trans maybeEndRound_link

theorem reload_link (cfg : Config) (m : Master) :
    ∃ msgs, Link p m (m.reload cfg) msgs ∧ Uniform msgs := by
  have hcfg : Link p m { m with config := cfg } [] := .same rfl rfl rfl rfl rfl
  have hloop : m.arrWorkers = (m.reload cfg).arrWorkers ∧
      ∃ msgs, Link p m (m.reload cfg) msgs ∧ ∀ msg ∈ msgs, msg ≠ .evaporate := by
    refine reload_invariant (I := fun m' => m.arrWorkers = m'.arrWorkers ∧
      ∃ msgs, Link p m m' msgs ∧ ∀ msg ∈ msgs, msg ≠ .evaporate) ⟨rfl, [], hcfg, nofun⟩ ?_
    rintro m' ⟨hlist, msgs, hlink, hno⟩ q hq
    refine ⟨hlist, _, hlink.trans (send_link .configUpdate (hlist ▸ hq) nofun), ?_⟩
    intro msg hm
    rcases List.mem_append.mp hm with hm | hm
    · exact hno msg hm
    · split at hm
      · rw [List.mem_singleton.mp hm]
        nofun
      · contradiction
  obtain ⟨-, msgs, hlink, hno⟩ := hloop
  exact ⟨msgs, hlink, Or.inr hno⟩

/-- The event neither creates, ends nor halts the worker. -/
def Bystander (p : Pid) : Event → Prop
  | .message q .stopWork => q ≠ p
  | .workerExit q code fresh => q ≠ p ∧ (respawns code = true → fresh ≠ p)
  | .ensureWorkerCount fresh => p ∉ fresh
  | _ => True

theorem ensureWorkerCount_link (fresh : List Pid) (m : Master) (hp : p ∉ fresh) :
    Link p m (m.ensureWorkerCount fresh) [] := by
  refine ensureWorkerCount_invariant (I := fun m' => Link p m m' []) (.refl p m) ?_
  intro m' h q hq
  have hne : q ≠ p := fun heq => hp (heq ▸ hq)
  exact h.trans (spawnWorker_link hne)

theorem workerExit_link {q : Pid} {code : ExitCode} {fresh : Pid} (h : q ≠ p)
    (hf : respawns code = true → fresh ≠ p) : Link p m (m.workerExit q code fresh) [] := by
  apply workerExit_invariant (I := fun m' => Link p m m' [])
  · exact (resetChannel_link h).trans (deleteWorker_link h)
  · exact fun hresp m' hl => hl.trans (spawnWorker_link (hf hresp))

theorem handle_link {e : Event} (m : Master) (h : Bystander p e) :
    ∃ msgs, Link p m (handle m e) msgs ∧ Uniform msgs := by
  have hquiet : ∀ {m'}, Link p m m' [] → ∃ msgs, Link p m m' msgs ∧ Uniform msgs :=
    fun hl => ⟨[], hl, Or.inl nofun⟩
  by_cases hd : Dispatches e
  · cases e with
    | reload cfg => exact reload_link cfg m
    | message q msg =>
      cases msg with
      | stopWork => exact hquiet (stopWork_link h)
      | sendWork => exact moves_uniform (sendWork_moves q m)
      | recheck server =>
        obtain ⟨_, _, _, he⟩ := recheck_eq q server m
        rw [he]
        exact hquiet (.same rfl rfl rfl rfl rfl)
      | stats stats checkStats =>
        have hkeep : Link p m (m.keepStats q stats checkStats) [] := .same rfl rfl rfl rfl rfl
        rcases stats_cases q stats checkStats m with ⟨-, he⟩ | he <;> rw [he]
        · obtain ⟨msgs, hl, hu⟩ := assignWorkToWorker_link (p := p) q
            (some (m.config.datasetSize - queueLeftToProcess stats))
              (m.keepStats q stats checkStats)
          exact ⟨msgs, hkeep.trans hl, hu⟩
        · exact hquiet hkeep
      | totals | notifyStatusChange | notifyStillDown => exact hd.elim
    | workerExit q code fresh => exact hquiet (workerExit_link h.1 h.2)
    | ensureWorkerCount fresh => exact hquiet (ensureWorkerCount_link fresh m h)
    | queryDone k answer =>
      cases answer with
      | error => exact hd.elim
      | rows rows =>
        cases rows with
        | nil => exact hd.elim
        | cons row rest =>
          let filled : Master := { m with
            queries := m.queries.eraseIdx k
            arrObjects := m.arrObjects ++ (row :: rest).map Site.ofRow
            gettingSites := false }
          have hfill : Link p m filled [] := .same rfl rfl rfl rfl rfl
          obtain ⟨msgs, hl, hu⟩ := freeWorkersToWork_link (p := p) filled
          exact ⟨msgs, hfill.trans hl, hu⟩
    | processQueuedRetries =>
      let swept := Master.requestRetries m.sweepRetries.1 m.sweepRetries.2
      have hsweep : Link p m swept [] := .same rfl rfl rfl rfl rfl
      obtain ⟨msgs, hl, hu⟩ := retryLocally_link (p := p) swept
      exact ⟨msgs, hsweep.trans hl, hu⟩
    | wait | roundTimer | restartTimer | updateStats | hostStatus => exact hd.elim
  · exact hquiet (.of_workload (handle_workload m hd))

instance (m : Master) : Decidable (Crowded m) := by
  unfold Crowded
  infer_instance

/-- What the master assigns to this worker is sent. -/
def Takes (m : Master) (p : Pid) : Prop := Known m p ∧ p ∉ m.haltedWorkers

instance (m : Master) (p : Pid) : Decidable (Takes m p) := by
  unfold Takes
  infer_instance

/-- The number of workers that n sites go to, DATASET_SIZE to each but the last. -/
def shares (n datasetSize : ℕ) : ℕ := (n + datasetSize - 1) / datasetSize

/-- The workers the event may send a queue-add to. -/
def offered (m : Master) : Event → List Pid
  | .message pid .sendWork =>
    if ¬Crowded m ∧ Takes m pid ∧ 0 < m.arrObjects.length then [pid] else []
  | .message pid (.stats stats _) =>
    if Takes m pid ∧ 0 < m.arrObjects.length ∧
        queueLeftToProcess stats < m.config.numToProcess then [pid] else []
  | .queryDone _ (.rows (row :: rows)) =>
    if ¬Crowded m then
      (m.freeWorkers.filter fun pid => Takes m pid).take
        (shares (m.arrObjects.length + (row :: rows).length) m.config.datasetSize)
    else []
  | .processQueuedRetries =>
    (m.freeWorkers.filter fun pid => Known m pid).take (m.localRetries.countP m.retryDue)
  | _ => []

def work (m : Master) (p : Pid) : List ToWorker := (m.pipe p).filter isWork

theorem work_congr (h : m'.pipe p = m.pipe p) : work m' p = work m p := by
  rw [work, h, work]

theorem work_of_workload (h : workload m' = workload m) : work m' p = work m p :=
  work_congr (congrFun (congrArg Workload.pipe h) p)

theorem send_work (q : Pid) {msg : ToWorker} (h : q ≠ p ∨ isWork msg = false) :
    work (m.send q msg) p = work m p := by
  by_cases hq : q = p
  · have hmsg : isWork msg = false := h.resolve_left (not_not.mpr hq)
    simp [work, Master.send, hq, hmsg]
  · exact work_congr (if_neg (Ne.symm hq))

theorem assignWorkToWorker_work {q : Pid} {size : Option ℤ}
    (h : q ≠ p ∨ ¬Takes m q ∨ m.arrObjects = []) :
    work (m.assignWorkToWorker q size) p = work m p := by
  rw [assignWorkToWorker_eq]
  split
  · rename_i hg
    apply send_work
    rcases h with h | h | h
    · exact Or.inl h
    · exact absurd ⟨hg.1, hg.2.1⟩ h
    · exact absurd h hg.2.2
  · rfl

theorem sendWork_work {q : Pid} (h : q ≠ p ∨ Crowded m ∨ ¬Takes m q ∨ m.arrObjects = []) :
    work (m.sendWork q) p = work m p := by
  rcases sendWork_cases q m with ⟨_, he⟩ | ⟨_, _, he⟩ | ⟨hle, ha, he⟩ <;> rw [he]
  · split
    · exact send_work q (Or.inr rfl)
    · rfl
  · apply work_congr
    unfold Master.maybeEndRound fetch park Master.getMoreSites
    grind
  · apply assignWorkToWorker_work
    rcases h with h | h | h
    · exact Or.inl h
    · exact absurd h (by unfold Crowded; omega)
    · exact Or.inr h

theorem sendWork_crowded {q : Pid} : Crowded (m.sendWork q) ↔ Crowded m :=
  (moves_link (p := q) (sendWork_moves q m)).1

theorem shares_zero {d : ℕ} (hd : 0 < d) : shares 0 d = 0 :=
  Nat.div_eq_of_lt (by omega)

theorem shares_succ {n d : ℕ} (hd : 0 < d) (hn : 0 < n) :
    shares n d = shares (n - min n d) d + 1 := by
  obtain hle | hlt := Nat.le_total d n
  · have hsum : n + d - 1 = n - d + d - 1 + d := by omega
    rw [Nat.min_eq_right hle, shares, hsum, Nat.add_div_right _ hd]
    rfl
  · rw [Nat.min_eq_left hlt, Nat.sub_self, shares_zero hd]
    apply Nat.div_eq_of_lt_le <;> omega

structure Turn (q : Pid) (m m' : Master) : Prop where
  takes : ∀ r, Takes m' r ↔ Takes m r
  config : m'.config = m.config
  queue : m'.arrObjects.length = if Takes m q then
    m.arrObjects.length - min m.arrObjects.length m.config.datasetSize else m.arrObjects.length

theorem sendWork_turn (q : Pid) (h : ¬Crowded m) : Turn q m (m.sendWork q) := by
  rcases sendWork_cases q m with ⟨hover, _⟩ | ⟨_, ha, he⟩ | ⟨_, ha, he⟩
  · exact absurd hover h
  · have hfetched : ∀ m' : Master, m'.arrObjects = [] → (fetch m').maybeEndRound.arrObjects = [] ∧
        (fetch m').maybeEndRound.arrWorkers = m'.arrWorkers ∧
        (fetch m').maybeEndRound.haltedWorkers = m'.haltedWorkers ∧
        (fetch m').maybeEndRound.config = m'.config := by
      intro m' ha'
      unfold Master.maybeEndRound fetch Master.getMoreSites
      grind
    have hpark : (park q m).arrObjects = [] ∧ (park q m).arrWorkers = m.arrWorkers ∧
        (park q m).haltedWorkers = m.haltedWorkers ∧ (park q m).config = m.config := by
      unfold park
      split <;> exact ⟨ha, rfl, rfl, rfl⟩
    obtain ⟨hobjects, hworkers, hhalted, hconfig⟩ := hfetched _ hpark.1
    rw [he]
    constructor
    · intro r
      rw [Takes, Takes, Known, Known, hworkers, hhalted, hpark.2.1, hpark.2.2.1]
    · exact hconfig.trans hpark.2.2.2
    · rw [hobjects, ha]
      split <;> simp
  · rw [he, assignWorkToWorker_eq]
    by_cases ht : Takes m q
    · rw [if_pos ⟨ht.1, ht.2, ha⟩]
      refine ⟨fun r => Iff.rfl, rfl, ?_⟩
      rw [if_pos ht]
      exact List.length_drop
    · rw [if_neg fun hall => ht ⟨hall.1, hall.2.1⟩]
      exact ⟨fun r => Iff.rfl, rfl, (if_neg ht).symm⟩

/-- By induction over the old free workers, of whom each takes its share. -/
theorem freeLoop_work (pids : List Pid) : ∀ {m : Master}, ¬Crowded m →
    p ∉ (pids.filter fun q => Takes m q).take (shares m.arrObjects.length m.config.datasetSize) →
      work (pids.foldl (fun m q => if (m.getWorker q).isSome then m.sendWork q else m) m) p =
        work m p := by
  induction pids with
  | nil => exact fun _ _ => rfl
  | cons q pids ih =>
    intro m hcrowd hp
    rw [List.foldl_cons]
    split
    · obtain ⟨htakes, hconfig, hqueue⟩ := sendWork_turn q hcrowd
      have hsame : (pids.filter fun r => Takes (m.sendWork q) r) =
          pids.filter fun r => Takes m r := by
        simp only [htakes]
      have hnext := ih (m := m.sendWork q) (fun hc => hcrowd (sendWork_crowded.mp hc))
      rw [hsame, hconfig, hqueue] at hnext
      by_cases ht : Takes m q
      · rw [List.filter_cons, if_pos (decide_eq_true ht)] at hp
        rw [if_pos ht] at hnext
        obtain hzero | hpos := Nat.eq_zero_or_pos m.arrObjects.length
        · rw [hzero, Nat.zero_sub, shares_zero m.config.datasetSize_pos] at hnext
          rw [hnext List.not_mem_nil]
          exact sendWork_work (.inr (.inr (.inr (List.length_eq_zero_iff.mp hzero))))
        · rw [shares_succ m.config.datasetSize_pos hpos, List.take_succ_cons,
            List.mem_cons, not_or] at hp
          exact (hnext hp.2).trans (sendWork_work (.inl (Ne.symm hp.1)))
      · rw [List.filter_cons, if_neg (by simpa using ht)] at hp
        rw [if_neg ht] at hnext
        exact (hnext hp).trans (sendWork_work (.inr (.inr (.inl ht))))
    · rename_i hunknown
      apply ih hcrowd
      rwa [List.filter_cons_of_neg] at hp
      intro ht
      exact hunknown ((getWorker_isSome m q).mpr (of_decide_eq_true ht).1)

theorem freeWorkersToWork_work
    (h : Crowded m ∨ p ∉ (m.freeWorkers.filter fun q => Takes m q).take
      (shares m.arrObjects.length m.config.datasetSize)) :
    work m.freeWorkersToWork p = work m p := by
  rcases freeWorkersToWork_cases m with ⟨_, he⟩ | ⟨_, he, _⟩ <;> rw [he]
  by_cases hcrowd : Crowded m
  · have hstart : Crowded { m with freeWorkers := [] } ∧
        work { m with freeWorkers := [] } p = work m p := ⟨hcrowd, rfl⟩
    refine (freeLoop_invariant (I := fun m' => Crowded m' ∧ work m' p = work m p)
      m.freeWorkers hstart ?_).2
    rintro m' ⟨hc, hw⟩ q _ _
    exact ⟨sendWork_crowded.mpr hc, (sendWork_work (.inr (.inl hc))).trans hw⟩
  · exact freeLoop_work (m := { m with freeWorkers := [] }) m.freeWorkers hcrowd
      (h.resolve_left hcrowd)

structure Handed (p : Pid) (due : ℕ) (m m' : Master) : Prop where
  settings : settings m' = settings m
  workers : m'.arrWorkers = m.arrWorkers
  next : ∃ i ≤ due, m'.freeWorkers.filter (fun q => Known m q) =
      (m.freeWorkers.filter fun q => Known m q).drop i ∧
    (p ∉ (m.freeWorkers.filter fun q => Known m q).take i → work m' p = work m p)

theorem retryLoop_handed (p : Pid) (m : Master) (servers : List Site) :
    Handed p (servers.countP m.retryDue) m (retryLoop m servers).1 := by
  induction servers with
  | nil => exact ⟨rfl, rfl, 0, le_rfl, rfl, fun _ => rfl⟩
  | cons server rest ih =>
    obtain ⟨hset, hworkers, i, hi, hfree, hwork⟩ := ih
    have hturn : retryLoop m (server :: rest) = Master.retryStep server (retryLoop m rest) := rfl
    have hknown : ∀ q, Known (retryLoop m rest).1 q ↔ Known m q := by
      intro q
      rw [Known, Known, hworkers]
    rw [hturn, List.countP_cons, ← retryDue_congr hset]
    rcases retryStep_cases server (retryLoop m rest).1 (retryLoop m rest).2 with ⟨_, he⟩ |
      ⟨hdue, j, q, hj, _, hfirst, he⟩ | ⟨_, _, he⟩ <;> rw [he]
    · exact ⟨hset, hworkers, i, Nat.le_add_right_of_le hi, hfree, hwork⟩
    · simp only [hknown] at hfirst
      rw [hfree] at hfirst
      have hlt : i < (m.freeWorkers.filter fun r => Known m r).length := by
        by_contra hge
        rw [List.drop_eq_nil_of_le (Nat.not_lt.mp hge)] at hfirst
        contradiction
      rw [List.drop_eq_getElem_cons hlt, List.cons.injEq] at hfirst
      refine ⟨hset, hworkers, i + 1, ?_, hfirst.2.symm, fun hp => ?_⟩
      · rw [if_pos hdue]
        exact Nat.succ_le_succ hi
      · rw [List.take_succ_eq_append_getElem hlt, List.mem_append, not_or] at hp
        have hq : q ≠ p := by
          rintro rfl
          exact hp.2 (List.mem_singleton.mpr hfirst.1.symm)
        exact (send_work q (Or.inl hq)).trans (hwork hp.1)
    · exact ⟨hset, hworkers, i, Nat.le_add_right_of_le hi, hfree, hwork⟩

theorem retryLocally_work (h : p ∉ (m.freeWorkers.filter fun q => Known m q).take
    (m.localRetries.countP m.retryDue)) : work m.retryLocally p = work m p := by
  obtain ⟨_, _, i, hi, _, hwork⟩ := retryLoop_handed p m m.localRetries
  have hloop : work (retryLoop m m.localRetries).1 p = work m p :=
    hwork fun hp => h (List.take_subset_take_left _ hi hp)
  rcases retryLocally_cases m with ⟨_, he⟩ | ⟨_, he⟩ <;> rw [he]
  · exact hloop
  · split <;> exact hloop

theorem Link.work (h : Link p m m' []) : work m' p = work m p :=
  work_congr (by rw [h.pipe, List.append_nil])

theorem reload_work (cfg : Config) (m : Master) : work (m.reload cfg) p = work m p :=
  reload_invariant (I := fun m' => work m' p = work m p) rfl
    fun _ h q _ => (send_work q (Or.inr rfl)).trans h

/-- Only the offered workers are sent work. -/
theorem handle_work {e : Event} (h : Bystander p e) (ho : p ∉ offered m e) :
    work (handle m e) p = work m p := by
  by_cases hd : Dispatches e
  · cases e with
    | reload cfg => exact reload_work cfg m
    | message q msg =>
      cases msg with
      | stopWork => exact (stopWork_link h).work
      | sendWork =>
        apply sendWork_work
        simp only [offered, List.length_pos_iff] at ho
        grind
      | recheck server =>
        obtain ⟨_, _, _, he⟩ := recheck_eq q server m
        rw [he]
        rfl
      | stats stats checkStats =>
        have hkeep : work (m.keepStats q stats checkStats) p = work m p := rfl
        rcases stats_cases q stats checkStats m with ⟨hlow, he⟩ | he <;> rw [he]
        · rw [assignWorkToWorker_work, hkeep]
          simp only [offered, List.length_pos_iff] at ho
          change q ≠ p ∨ ¬Takes m q ∨ m.arrObjects = []
          grind
        · rfl
      | totals | notifyStatusChange | notifyStillDown => exact hd.elim
    | workerExit q code fresh => exact (workerExit_link h.1 h.2).work
    | ensureWorkerCount fresh => exact (ensureWorkerCount_link fresh m h).work
    | queryDone k answer =>
      cases answer with
      | error => exact hd.elim
      | rows rows =>
        cases rows with
        | nil => exact hd.elim
        | cons row rest =>
          apply freeWorkersToWork_work
          by_cases hcrowd : Crowded m
          · exact .inl hcrowd
          · have hlength : (m.arrObjects ++ (row :: rest).map Site.ofRow).length =
                m.arrObjects.length + (row :: rest).length := by
              rw [List.length_append, List.length_map]
            rw [offered, if_pos hcrowd, ← hlength] at ho
            exact .inr ho
    | processQueuedRetries =>
      exact retryLocally_work (m := Master.requestRetries m.sweepRetries.1 m.sweepRetries.2) ho
    | wait | roundTimer | restartTimer | updateStats | hostStatus => exact hd.elim
  · exact work_of_workload (handle_workload m hd)

theorem stopWork_self (p : Pid) (m : Master) :
    (m.stopWork p).arrWorkers = m.arrWorkers ∧ (m.stopWork p).pipe = m.pipe ∧
      (m.stopWork p).handed = m.handed ∧
      (p ∈ (m.stopWork p).haltedWorkers ↔ p ∈ m.haltedWorkers ∨ Known m p) ∧
      ((p ∈ m.haltedWorkers → p ∉ m.freeWorkers) →
        p ∈ (m.stopWork p).haltedWorkers → p ∉ (m.stopWork p).freeWorkers) := by
  have hend := maybeEndRound_workload (m.halt p)
  have ha : (m.stopWork p).arrWorkers = (m.halt p).arrWorkers := congrArg Workload.arrWorkers hend
  have hp : (m.stopWork p).pipe = (m.halt p).pipe := congrArg Workload.pipe hend
  have hg : (m.stopWork p).handed = (m.halt p).handed := congrArg Workload.handed hend
  have hh : (m.stopWork p).haltedWorkers = (m.halt p).haltedWorkers :=
    congrArg Workload.haltedWorkers hend
  have hf : (m.stopWork p).freeWorkers = (m.halt p).freeWorkers :=
    congrArg Workload.freeWorkers hend
  rw [ha, hp, hg, hh, hf]
  rcases halt_cases p m with ⟨hk, _, he⟩ | ⟨hout, he⟩ <;> rw [he]
  · exact ⟨rfl, rfl, rfl, by simp [hk], fun _ _ => by simp⟩
  · exact ⟨rfl, rfl, rfl, ⟨Or.inl, fun h => h.elim id hout⟩, fun h => h⟩

structure Newborn (p : Pid) (m : Master) : Prop where
  listed : m.arrWorkers.count p = 1
  halted : p ∉ m.haltedWorkers
  pipe : m.pipe p = []
  handed : m.handed p = []

theorem Newborn.link (h : Newborn p m) (hl : Link p m m' []) : Newborn p m' :=
  ⟨hl.listed.trans h.listed, fun hh => h.halted (hl.halted.mp hh),
    by rw [hl.pipe, h.pipe]; rfl, by rw [hl.handed, h.handed]; rfl⟩

theorem deleteWorker_cleared (hp : p ≠ 0) : (m.resetChannel p).deleteWorker p =
    { m.resetChannel p with
      arrWorkers := m.arrWorkers.erase p
      workerStats := fun q => if q = p ∧ p ∈ m.arrWorkers then none else m.workerStats q
      freeWorkers := m.freeWorkers.filter (· ≠ p)
      haltedWorkers := m.haltedWorkers.filter (· ≠ p) } :=
  if_neg hp

theorem spawnWorker_newborn (hp : p ≠ 0) (h : p ∉ m.arrWorkers) : Newborn p (m.spawnWorker p) := by
  have hcount : (m.arrWorkers.erase p).count p = 0 := by
    rw [List.count_erase_self, List.count_eq_zero_of_not_mem h]
  rw [Master.spawnWorker, deleteWorker_cleared hp]
  refine ⟨?_, by simp, if_pos rfl, if_pos rfl⟩
  rw [List.count_append, hcount, List.count_singleton_self]

theorem ensureWorkerCount_newborn (hp : p ≠ 0) (fresh : List Pid) : ∀ m : Master, fresh.Nodup →
    p ∈ fresh → p ∉ m.arrWorkers → Newborn p (m.ensureWorkerCount fresh) := by
  induction fresh with
  | nil => intro m _ h; contradiction
  | cons q rest ih =>
    intro m hn hmem hlist
    obtain ⟨hq, hn⟩ := List.nodup_cons.mp hn
    by_cases hqp : q = p
    · subst hqp
      exact (spawnWorker_newborn hp hlist).link (ensureWorkerCount_link rest _ hq)
    · have hmem' := List.mem_of_ne_of_mem (Ne.symm hqp) hmem
      exact ih _ hn hmem' (mt (spawnWorker_link hqp).mem.mp hlist)

structure Gone (p : Pid) (m : Master) : Prop where
  listed : p ∉ m.arrWorkers
  pipe : m.pipe p = []
  handed : m.handed p = []

theorem Gone.link {msgs : List ToWorker} (h : Gone p m) (hl : Link p m m' msgs) : Gone p m' := by
  have hnone := hl.absent h.listed
  subst hnone
  exact ⟨mt hl.mem.mp h.listed, by rw [hl.pipe, h.pipe]; rfl, by rw [hl.handed, h.handed]; rfl⟩

theorem workerExit_gone {code : ExitCode} {fresh : Pid} (hp : p ≠ 0)
    (h : m.arrWorkers.count p = 1) (hf : respawns code = true → fresh ≠ p) :
    Gone p (m.workerExit p code fresh) := by
  have hgone : Gone p ((m.resetChannel p).deleteWorker p) := by
    rw [deleteWorker_cleared hp]
    refine ⟨?_, if_pos rfl, if_pos rfl⟩
    rw [← List.count_eq_zero, List.count_erase_self, h]
  exact workerExit_invariant hgone fun hresp _ hg => hg.link (spawnWorker_link (hf hresp))

def Settled (m : Master) : Prop := m.arrObjects = [] ∨ m.freeWorkers = []

theorem Settled.give (h : Settled m) (q : Pid) (n : ℕ) : Settled (give q n m) := by
  rcases h with h | h
  · exact Or.inl (by simp [MasterDispatch.give, Master.send, h])
  · exact Or.inr h

theorem Settled.assign (h : Settled m) (q : Pid) (size : Option ℤ) :
    Settled (m.assignWorkToWorker q size) := by
  rw [assignWorkToWorker_eq]
  split
  · exact h.give q _
  · exact h

theorem Settled.of_workload (h : Settled m) (hw : workload m' = workload m) : Settled m' := by
  have ha : m'.arrObjects = m.arrObjects := congrArg Workload.arrObjects hw
  have hf : m'.freeWorkers = m.freeWorkers := congrArg Workload.freeWorkers hw
  rwa [Settled, ha, hf]

theorem Settled.moves (h : Settled m) (hm : Moves m m') : Settled m' := by
  induction hm with
  | refl => exact h
  | tail _ hmove ih =>
    cases hmove with
    | evaporate => exact ih
    | give => exact ih.give _ _
    | park ha => exact Or.inl ha
    | fetch => exact ih.of_workload (getMoreSites_workload _)
    | endRound => exact ih.of_workload (maybeEndRound_workload _)

theorem freeWorkersToWork_settled (m : Master) : Settled m.freeWorkersToWork := by
  rcases freeWorkersToWork_cases m with ⟨ha, he⟩ | ⟨_, _, hm⟩
  · rw [he]
    exact Or.inl ha
  · exact Settled.moves (Or.inr rfl) hm

theorem Settled.deleteWorker (h : Settled m) (q : Pid) : Settled (m.deleteWorker q) := by
  unfold Master.deleteWorker
  split
  · exact h
  · rcases h with h | h
    · exact Or.inl h
    · exact Or.inr (by simp [h])

theorem Settled.spawnWorker (h : Settled m) (q : Pid) : Settled (m.spawnWorker q) := by
  have hreset : Settled (m.resetChannel q) := h
  exact hreset.deleteWorker q

theorem Settled.retryLocally (h : Settled m) : Settled m.retryLocally := by
  have hloop : ∀ servers : List Site, Settled (retryLoop m servers).1 ∨
      (retryLoop m servers).2 = true := by
    intro servers
    induction servers with
    | nil => exact Or.inl h
    | cons server rest ih =>
      have hturn : retryLoop m (server :: rest) = Master.retryStep server (retryLoop m rest) := rfl
      rw [hturn]
      rcases retryStep_cases server (retryLoop m rest).1 (retryLoop m rest).2 with ⟨_, he⟩ |
        ⟨_, i, q, hi, hk, -, he⟩ | ⟨_, _, he⟩ <;> rw [he]
      · exact ih
      · rcases ih with (ha | hf) | hadded
        · exact Or.inl (Or.inl ha)
        · rw [hf] at hi
          simp at hi
        · exact Or.inr hadded
      · exact Or.inr rfl
  rcases retryLocally_cases m with ⟨ha, he⟩ | ⟨_, he⟩ <;> rw [he]
  · rcases hloop m.localRetries with h | h
    · exact h
    · rw [ha] at h
      contradiction
  · split
    · exact Or.inl ‹_›
    · exact Or.inr rfl

theorem handle_settled {e : Event} (h : Settled m) : Settled (handle m e) := by
  by_cases hd : Dispatches e
  · cases e with
    | reload cfg =>
      have hcfg : Settled { m with config := cfg } := h
      exact reload_invariant hcfg fun _ hm _ _ => hm
    | message q msg =>
      cases msg with
      | stopWork =>
        have hhalt : Settled (m.halt q) := by
          rcases halt_cases q m with ⟨_, _, he⟩ | ⟨_, he⟩ <;> rw [he]
          · exact h.imp_right fun hf => by rw [hf]; rfl
          · exact h
        exact hhalt.of_workload (maybeEndRound_workload _)
      | sendWork => exact h.moves (sendWork_moves q m)
      | recheck server =>
        obtain ⟨_, _, _, he⟩ := recheck_eq q server m
        rw [he]
        exact h
      | stats stats checkStats =>
        have hkeep : Settled (m.keepStats q stats checkStats) := h
        rcases stats_cases q stats checkStats m with ⟨-, he⟩ | he <;> rw [he]
        · exact hkeep.assign ..
        · exact hkeep
      | totals | notifyStatusChange | notifyStillDown => exact hd.elim
    | workerExit q code fresh =>
      have hreset : Settled (m.resetChannel q) := h
      exact workerExit_invariant (hreset.deleteWorker q) fun _ _ hm => hm.spawnWorker fresh
    | ensureWorkerCount fresh =>
      exact ensureWorkerCount_invariant h fun _ hm q _ => hm.spawnWorker q
    | queryDone k answer =>
      cases answer with
      | error => exact hd.elim
      | rows rows =>
        cases rows with
        | nil => exact hd.elim
        | cons row rest => exact freeWorkersToWork_settled _
    | processQueuedRetries =>
      have hsweep : Settled (Master.requestRetries m.sweepRetries.1 m.sweepRetries.2) := h
      exact hsweep.retryLocally
    | wait | roundTimer | restartTimer | updateStats | hostStatus => exact hd.elim
  · exact h.of_workload (handle_workload m hd)

end MasterChannels

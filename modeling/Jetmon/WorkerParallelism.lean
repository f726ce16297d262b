import Jetmon.WorkerQueue

/-! How many checks a worker runs at once. checkServers seeds them once for a queue, and
processResultsCallback replaces each finished check by one other; addToQueue starts none. -/
namespace WorkerParallelism

open SiteModel
open TransitionSystem
open WorkerState
open WorkerQueue

/-- The worker runs NUM_TO_PROCESS checks, or all that are left of its queue. -/
def Parallel (w : Worker) : Prop :=
  w.exit = none → w.running = true → w.checkTimers = 0 →
    w.activeChecks = min w.config.numToProcess w.waitingFor

instance (w : Worker) : Decidable (Parallel w) := by
  unfold Parallel
  infer_instance

/-- The run condition: sites that are added to a queue at work find NUM_TO_PROCESS checks
running. -/
def AddedToFull (w : Worker) : Event → Prop
  | .queueAdd _ => w.running = true → w.checkTimers = 0 → w.activeChecks = w.config.numToProcess
  | _ => True

instance (w : Worker) (e : Event) : Decidable (AddedToFull w e) :=
  match e with
  | .queueAdd _ => inferInstanceAs (Decidable (w.running = true → w.checkTimers = 0 →
      w.activeChecks = w.config.numToProcess))
  | .evaporate | .configUpdate _ _ | .checkTimer _ | .complete _ _ _ | .startup | .totalsTick
  | .statsTick _ _ => isTrue trivial

theorem countP_eq_indices {α : Type*} (p : α → Bool) (xs : List α) :
    xs.countP p = ((List.range xs.length).filter fun i => (xs[i]?).any p).length := by
  induction xs using List.reverseRecOn with
  | nil => rfl
  | append_singleton xs x ih =>
    have hfront : (List.range xs.length).filter (fun i => ((xs ++ [x])[i]?).any p) =
        (List.range xs.length).filter fun i => (xs[i]?).any p := by
      refine List.filter_congr fun i hi => ?_
      rw [List.getElem?_append_left (List.mem_range.mp hi)]
    rw [List.countP_append, ih, List.length_append, List.length_singleton, List.range_succ,
      List.filter_append, List.length_append, hfront]
    cases hp : p x <;> simp [hp]

theorem waitingFor_eq {w : Worker} (h : Core w) (hp : w.pointer ≤ w.arrCheck.length) :
    w.waitingFor = w.outstanding.length + (w.arrCheck.length - w.pointer) := by
  rw [Worker.waitingFor, countP_eq_indices]
  have hperm : ((List.range w.arrCheck.length).filter fun i =>
      (w.arrCheck[i]?).any fun server => !server.processed).Perm
      (w.outstanding.map Outstanding.index ++
        List.range' w.pointer (w.arrCheck.length - w.pointer)) := by
    refine (List.perm_ext_iff_of_nodup (List.nodup_range.filter _) ?_).mpr fun i => ?_
    · apply h.index_nodup.append List.nodup_range'
      intro i hrun hwait
      obtain ⟨o, ho, rfl⟩ := List.mem_map.mp hrun
      have hlt := h.index_lt o ho
      have hge := (List.mem_range'_1.mp hwait).1
      omega
    · rw [List.mem_filter, List.mem_range, List.mem_append, List.mem_map, List.mem_range'_1]
      constructor
      · rintro ⟨hlt, hopen⟩
        rw [List.getElem?_eq_getElem hlt, Option.any_some, Bool.not_eq_true'] at hopen
        have hget := List.getElem?_eq_getElem hlt
        by_cases hi : i < w.pointer
        · exact Or.inl (h.awaited i _ hget hi hopen)
        · exact Or.inr ⟨by omega, by omega⟩
      · rintro (⟨o, ho, rfl⟩ | ⟨hge, hlt⟩)
        · have hlt := h.index_lt o ho
          refine ⟨by omega, ?_⟩
          rw [h.index_site o ho]
          simp [h.unfinished o ho]
        · have hlt : i < w.arrCheck.length := by omega
          refine ⟨hlt, ?_⟩
          have hopen := h.unstarted i _ (List.getElem?_eq_getElem hlt) hge
          rw [List.getElem?_eq_getElem hlt, Option.any_some, hopen]
          rfl
  rw [hperm.length_eq, List.length_append, List.length_map, List.length_range']

theorem outstanding_nil_of_idle {w : Worker} (h : Invariant w) (hr : w.running = false) :
    w.outstanding = [] := by
  rw [List.eq_nil_iff_forall_not_mem]
  intro o ho
  rw [(running_of_outstanding h ho).1] at hr
  contradiction

theorem parallel_iff {w : Worker} (h : w.exit = none → Invariant w) :
    Parallel w ↔ (w.exit = none → w.checkTimers = 0 → BoundedQueue.Saturated (abstraction w)) := by
  refine forall_congr' fun hx => ?_
  have hinv := h hx
  cases hr : w.running with
  | false =>
    refine iff_of_true nofun fun _ => ?_
    simp [BoundedQueue.Saturated, abstraction, outstanding_nil_of_idle hinv hr, (hinv.idle hr).1]
  | true =>
    have hcount := waitingFor_eq hinv.toCore (hinv.busy hr).2.1
    simp only [forall_const, hcount, hinv.counted, BoundedQueue.Saturated, abstraction,
      List.length_map, List.length_drop]
    refine forall_congr' fun _ => ?_
    omega

theorem complete_saturated {w : Worker} (hst : Status w) (hx : w.exit = none) {k : ℕ}
    (hk : k < w.outstanding.length) (h : BoundedQueue.Saturated (abstraction w)) (now : ℤ)
    (res : Result) : BoundedQueue.Saturated (abstraction (handle w (.complete k now res)).1) := by
  have hcomm : abstraction (handle w (.complete k now res)).1 = _ :=
    answer_commutes hst (e := .complete k now res) ⟨hx, hk⟩
  have hwait : (0 < (abstraction w).waiting.length) = (w.pointer < w.arrCheck.length) := by
    simp [abstraction]
  have hfinish := BoundedQueue.saturated_finish h (k := k) (by simpa [abstraction] using hk)
  rw [hcomm, answer]
  simp only [hwait] at hfinish
  exact hfinish

theorem checkTimer_saturated {w : Worker} (hst : Status w) {now : ℤ}
    (he : Enabled w (.checkTimer now)) :
    BoundedQueue.Saturated (abstraction (handle w (.checkTimer now)).1) := by
  have hinv := hst.1 he.1
  have htimer := he.2
  have hr : w.running = true := by
    cases hr : w.running with
    | true => rfl
    | false =>
      have hidle := (hinv.idle hr).2.2
      omega
  obtain ⟨-, -, hphase⟩ := hinv.busy hr
  have hpointer : w.pointer = 0 := by
    rcases hphase with ⟨-, hp⟩ | ⟨ht, -⟩
    · exact hp
    · omega
  have hnil : w.outstanding = [] := by
    rw [List.eq_nil_iff_forall_not_mem]
    intro o ho
    have hlt := hinv.index_lt o ho
    omega
  have hcomm : abstraction (handle w (.checkTimer now)).1 = _ := answer_commutes hst he
  rw [hcomm, answer]
  apply BoundedQueue.saturated_starts
  · simp [abstraction, hnil]
  · simp only [abstraction, hpointer, List.drop_zero]
    omega

theorem queueAdd_cases {w : Worker} (hinv : Invariant w) (payload : List Site) :
    (w.running = true ∧ w.checkTimers = 0) ∨
      (handle w (.queueAdd payload)).1.checkTimers ≠ 0 := by
  simp only [handle, Worker.addToQueue]
  cases hr : w.running with
  | true =>
    rcases (hinv.busy hr).2.2 with ⟨ht, -⟩ | ⟨ht, -⟩
    · right
      simp [ht]
    · exact Or.inl ⟨rfl, ht⟩
  | false =>
    right
    simp

theorem queueAdd_saturated_iff {w : Worker} (hst : Status w) (hx : w.exit = none)
    (h : BoundedQueue.Saturated (abstraction w)) {payload : List Site} (hne : payload ≠ []) :
    BoundedQueue.Saturated (abstraction (handle w (.queueAdd payload)).1) ↔
      w.activeChecks = w.config.numToProcess := by
  have hcomm : abstraction (handle w (.queueAdd payload)).1 = _ :=
    answer_commutes hst (e := .queueAdd payload) hx
  have hsubmit := BoundedQueue.saturated_submit h hne
  rw [hcomm, (hst.1 hx).counted]
  apply hsubmit.trans
  simp only [abstraction, List.length_map]
  omega

theorem step_parallel {w : Worker} {e : Event} (hst : Status w) (h : Parallel w) (he : Enabled w e)
    (hs : Steady w e) (hc : AddedToFull w e) : Parallel (handle w e).1 := by
  have hst' := step_status hst he hs.1
  rw [parallel_iff hst.1] at h
  rw [parallel_iff hst'.1]
  intro _ ht'
  cases e with
  | queueAdd payload =>
    have hinv := hst.1 he
    rcases queueAdd_cases hinv payload with ⟨hr, ht⟩ | ht
    · exact (queueAdd_saturated_iff hst he (h he ht) hs.1.1).mpr (hc hr ht)
    · exact absurd ht' ht
  | complete k now res =>
    have hout := List.getElem_mem he.2
    have ht := (running_of_outstanding (hst.1 he.1) hout).2
    exact complete_saturated hst he.1 he.2 (h he.1 ht) now res
  | checkTimer now => exact checkTimer_saturated hst he
  | configUpdate cfg seed =>
    have hcap : cfg.numToProcess = w.config.numToProcess := hs.2 cfg seed rfl
    have hsat := h he.1 ht'
    simpa [BoundedQueue.Saturated, abstraction, handle, Worker.reloadConfig, hcap] using hsat
  | evaporate =>
    have hkept : abstraction (handle w .evaporate).1 = abstraction w ∧
        (handle w .evaporate).1.checkTimers = w.checkTimers := by
      simp only [handle]
      split <;> exact ⟨rfl, rfl⟩
    rw [hkept.1]
    exact h he (hkept.2.symm.trans ht')
  | startup => exact h he.1 ht'
  | totalsTick | statsTick => exact h he ht'

theorem parallel_broken {w : Worker} {e : Event} (hst : Status w) (h : Parallel w)
    (he : Enabled w e) (hs : Steady w e) (hc : ¬AddedToFull w e) : ¬Parallel (handle w e).1 := by
  have hst' := step_status hst he hs.1
  cases e with
  | queueAdd payload =>
    simp only [AddedToFull, Classical.not_imp] at hc
    obtain ⟨hr, ht, hfew⟩ := hc
    rw [parallel_iff hst.1] at h
    rw [parallel_iff hst'.1]
    intro hafter
    have hkept : (handle w (.queueAdd payload)).1 =
        { w with
          askedForWork := false
          arrCheck := w.arrCheck ++ payload
          added := w.added ++ payload } := by
      simp [handle, Worker.addToQueue, hr]
    have hx' : (handle w (.queueAdd payload)).1.exit = none := by rw [hkept]; exact he
    have ht' : (handle w (.queueAdd payload)).1.checkTimers = 0 := by rw [hkept]; exact ht
    exact hfew ((queueAdd_saturated_iff hst he (h he ht) hs.1.1).mp (hafter hx' ht'))
  | complete | checkTimer | configUpdate | evaporate | startup | totalsTick | statsTick =>
    exact absurd trivial hc

/-- The worker keeps its configured parallelism in all states of a run exactly when no sites
are added to a queue at work that runs fewer checks than NUM_TO_PROCESS. -/
theorem parallelism_kept_iff {w : Worker} (hb : Booted w) {es : List Event}
    (hv : machine.Valid Steady w es) :
    machine.Always Parallel w es ↔ machine.Valid AddedToFull w es := by
  have hboot : Parallel w := by
    obtain ⟨cfg, host, now, seed, -, rfl⟩ := hb
    intro _ hr
    contradiction
  refine always_iff_valid (I := fun w => Status w ∧ Parallel w) (fun w h => h.2) ?_ ?_
    ⟨booted_status hb, hboot⟩ hv
  · intro w e ⟨hst, h⟩ he hs hc
    exact ⟨step_status hst he hs.1, step_parallel hst h he hs hc⟩
  · intro w e ⟨hst, h⟩ he hs hc
    exact parallel_broken hst h he hs hc

def twoAtOnce : Config := { sampleConfig with numToProcess := 2, numToProcess_pos := Nat.two_pos }

def site : Site := Site.ofRow ⟨1, "http://example.com", .running, none⟩

def tail : List Event :=
  [.queueAdd [site, site], .checkTimer 50, .complete 0 90 ⟨1200, 200, 0, 0⟩]

theorem booted_two : Booted (Worker.boot twoAtOnce "jetmon" 0 0) :=
  ⟨twoAtOnce, "jetmon", 0, 0, Or.inr (by decide), rfl⟩

theorem steady_sites (w : Worker) (n : ℕ) : Steady w (.queueAdd (List.replicate (n + 1) site)) := by
  refine ⟨⟨by simp, ?_⟩, fun _ _ h => by cases h⟩
  intro s hs
  rw [List.eq_of_mem_replicate hs]
  rfl

theorem tail_steady : machine.Valid Steady (Worker.boot twoAtOnce "jetmon" 0 0) tail := by
  have htimer : ∀ w : Worker, Steady w (.checkTimer 50) :=
    fun w => ⟨trivial, fun _ _ h => by cases h⟩
  have hdone : ∀ w : Worker, Steady w (.complete 0 90 ⟨1200, 200, 0, 0⟩) :=
    fun w => ⟨trivial, fun _ _ h => by cases h⟩
  refine ⟨⟨rfl, steady_sites _ 1⟩, ⟨⟨rfl, ?_⟩, htimer _⟩, ⟨⟨rfl, ?_⟩, hdone _⟩, trivial⟩
  all_goals decide

theorem parallelism_kept_iff_two :
    machine.Always Parallel (Worker.boot twoAtOnce "jetmon" 0 0) tail ↔
      machine.Valid AddedToFull (Worker.boot twoAtOnce "jetmon" 0 0) tail :=
  parallelism_kept_iff booted_two tail_steady

/-- The added site waits for the last check although two may run. -/
theorem added_site_waits : ¬∀ w, Reachable machine Steady w → Parallel w := by
  intro h
  have hr : Reachable machine Steady (machine.exec (Worker.boot twoAtOnce "jetmon" 0 0) tail) :=
    exec_reachable (.start booted_two) tail_steady
  have hadd : Reachable machine Steady (machine.next
      (machine.exec (Worker.boot twoAtOnce "jetmon" 0 0) tail)
      (.queueAdd (List.replicate 1 site))) :=
    .step hr rfl (steady_sites _ 0)
  exact absurd (h _ hadd) (by decide)

end WorkerParallelism

import Jetmon.MasterFrames

/-! The loop that fetches sites. It is kept going by callbacks: an outstanding batch
query, the end-of-round timer, or the restart that updateStats schedules. A query error
ends the loop, and the watchdog starts a second one beside the first. -/
namespace FetchLoop

open SiteModel
open TransitionSystem
open MasterState
open MasterDispatch
open MasterFrames

/-- The continuations of getMoreSites the runtime still owes. -/
def pending (m : Master) : ℕ :=
  m.queries.length + m.roundTimers.length + m.restartTimers.length

structure Started (m m' : Master) : Prop where
  getting : m'.gettingSites = true
  one_more : m'.queries.length + m'.roundTimers.length =
    m.queries.length + m.roundTimers.length + 1
  restarts : m'.restartTimers = m.restartTimers

theorem Started.pending {m m' : Master} (h : Started m m') : pending m' = pending m + 1 := by
  have h₁ := h.one_more
  have h₂ := congrArg List.length h.restarts
  unfold FetchLoop.pending
  omega

theorem pending_congr {m m' : Master} (h : fetching m' = fetching m) : pending m' = pending m :=
  congrArg (fun f : Fetching => f.queries.length + f.roundTimers.length + f.restartTimers.length) h

theorem getting_congr {m m' : Master} (h : fetching m' = fetching m) :
    m'.gettingSites = m.gettingSites := congrArg Fetching.gettingSites h

theorem Started.congr_left {m m' m'' : Master} (h : Started m' m'')
    (he : fetching m' = fetching m) : Started m m'' where
  getting := h.getting
  one_more := by
    have hq : m'.queries = m.queries := congrArg Fetching.queries he
    have hr : m'.roundTimers = m.roundTimers := congrArg Fetching.roundTimers he
    rw [h.one_more, hq, hr]
  restarts := h.restarts.trans (congrArg Fetching.restartTimers he)

theorem Started.congr_right {m m' m'' : Master} (h : Started m m')
    (he : fetching m'' = fetching m') : Started m m'' where
  getting := (getting_congr he).trans h.getting
  one_more := by
    have hq : m''.queries = m'.queries := congrArg Fetching.queries he
    have hr : m''.roundTimers = m'.roundTimers := congrArg Fetching.roundTimers he
    rw [hq, hr, h.one_more]
  restarts := (congrArg Fetching.restartTimers he).trans h.restarts

theorem getMoreSites_started (m : Master) : Started m m.getMoreSites := by
  simp only [Master.getMoreSites]
  split
  · exact ⟨rfl, by simp only [List.length_append, List.length_singleton]; omega, rfl⟩
  · exact ⟨rfl, by simp only [List.length_append, List.length_singleton]; omega, rfl⟩

theorem moves_fetching {m m' : Master} (h : Moves m m') :
    fetching m' = fetching m ∨ (m.gettingSites = false ∧ Started m m') := by
  induction h with
  | refl => exact Or.inl rfl
  | @tail m₁ m₂ _ hmove ih =>
    have hstep : fetching m₂ = fetching m₁ ∨ (m₁.gettingSites = false ∧ Started m₁ m₂) := by
      cases hmove with
      | evaporate | give | park => exact Or.inl rfl
      | fetch _ hg => exact Or.inr ⟨hg, getMoreSites_started m₁⟩
      | endRound => exact Or.inl (maybeEndRound_workOnly m₁).fetching
    rcases hstep with he | ⟨hg, hs⟩
    · rcases ih with he' | ⟨hg', hs'⟩
      · exact Or.inl (he.trans he')
      · exact Or.inr ⟨hg', hs'.congr_right he⟩
    · rcases ih with he | ⟨_, hs'⟩
      · exact Or.inr ⟨(getting_congr he).symm.trans hg, hs.congr_left he⟩
      · have hg' := hs'.getting
        rw [hg] at hg'
        contradiction

theorem freeWorkersToWork_fetching (m : Master) :
    fetching m.freeWorkersToWork = fetching m ∨
      (m.gettingSites = false ∧ Started m m.freeWorkersToWork) := by
  rcases freeWorkersToWork_cases m with ⟨_, he⟩ | ⟨_, _, hm⟩
  · rw [he]
    exact Or.inl rfl
  · rcases moves_fetching hm with he | ⟨hg, hs⟩
    · exact Or.inl he
    · exact Or.inr ⟨hg, hs.congr_left rfl⟩

def StartsLoop (m : Master) : Prop :=
  m.arrWorkers.length ≤ m.config.numWorkers ∧ m.arrObjects = [] ∧ m.gettingSites = false

instance (m : Master) : Decidable (StartsLoop m) := by
  unfold StartsLoop
  infer_instance

theorem sendWork_fetching (pid : Pid) (m : Master) :
    (StartsLoop m ∧ Started m (m.sendWork pid)) ∨
    (¬StartsLoop m ∧ fetching (m.sendWork pid) = fetching m) := by
  have hpark : fetching (park pid m) = fetching m := by
    unfold park
    split <;> rfl
  rcases sendWork_cases pid m with ⟨hover, he⟩ | ⟨hle, ha, he⟩ | ⟨hle, ha, he⟩ <;> rw [he]
  · refine Or.inr ⟨fun hs => absurd hs.1 (by omega), ?_⟩
    split <;> rfl
  · have hend := (maybeEndRound_workOnly (fetch (park pid m))).fetching
    cases hg : m.gettingSites with
    | true =>
      refine Or.inr ⟨fun hs => by simp [hs.2.2] at hg, hend.trans ?_⟩
      rw [fetch, if_pos ((getting_congr hpark).trans hg), hpark]
    | false =>
      refine Or.inl ⟨⟨hle, ha, hg⟩, Started.congr_right ?_ hend⟩
      rw [fetch, getting_congr hpark, hg, if_neg (by decide)]
      exact (getMoreSites_started _).congr_left hpark
  · exact Or.inr ⟨fun hs => ha hs.2.1, (assignWorkToWorker_workOnly ..).fetching⟩

def answered (m : Master) (k : ℕ) : Master := { m with queries := m.queries.eraseIdx k }

theorem answered_pending {m : Master} {k : ℕ} (hk : k < m.queries.length) :
    pending (answered m k) + 1 = pending m := by
  simp only [pending, answered, List.length_eraseIdx, hk, ↓reduceIte]
  omega

/-- An answer with rows ends the fetch, and a waiting worker may start it again at once. -/
theorem batchCallback_fetching (answer : QueryAnswer) (m : Master) :
    (answer = .error ∧ (m.batchCallback answer).gettingSites = m.gettingSites ∧
      pending (m.batchCallback answer) = pending m) ∨
    (answer ≠ .error ∧ Started m (m.batchCallback answer)) ∨
    (answer ≠ .error ∧ (m.batchCallback answer).gettingSites = false ∧
      (m.batchCallback answer).queries = m.queries ∧
      (m.batchCallback answer).roundTimers = m.roundTimers ∧
      (m.batchCallback answer).restartTimers = m.restartTimers) := by
  cases answer with
  | error => exact Or.inl ⟨rfl, rfl, rfl⟩
  | rows rows =>
    right
    cases rows with
    | nil => exact Or.inl ⟨nofun, getMoreSites_started m⟩
    | cons row rest =>
      rcases freeWorkersToWork_fetching { m with
        arrObjects := m.arrObjects ++ (row :: rest).map Site.ofRow
        gettingSites := false } with he | ⟨_, hs⟩
      · exact Or.inr ⟨nofun, getting_congr he, congrArg Fetching.queries he,
          congrArg Fetching.roundTimers he, congrArg Fetching.restartTimers he⟩
      · exact Or.inl ⟨nofun, hs.getting, hs.one_more, hs.restarts⟩

theorem updateStats_fetching (m : Master) :
    m.updateStats.gettingSites = m.gettingSites ∧ m.updateStats.queries = m.queries ∧
      m.updateStats.roundTimers = m.roundTimers ∧ m.updateStats.restartTimers.length =
        if m.overdue then m.restartTimers.length + 1 else m.restartTimers.length := by
  simp only [Master.updateStats, Master.clearCounters, Master.watchdog]
  cases m.overdue with
  | true => exact ⟨rfl, rfl, rfl, by simp⟩
  | false => exact ⟨rfl, rfl, rfl, rfl⟩

theorem roundTimer_started {m : Master} {k : ℕ} (hk : k < m.roundTimers.length) :
    (handle m (.roundTimer k)).gettingSites = true ∧
      pending (handle m (.roundTimer k)) = pending m := by
  have hs := getMoreSites_started
    (Master.resetVariables { m with roundTimers := m.roundTimers.eraseIdx k })
  refine ⟨hs.getting, hs.pending.trans ?_⟩
  simp only [pending, Master.resetVariables, List.length_eraseIdx, hk, ↓reduceIte]
  omega

theorem restartTimer_started {m : Master} {k : ℕ} (hk : k < m.restartTimers.length) :
    (handle m (.restartTimer k)).gettingSites = true ∧
      pending (handle m (.restartTimer k)) = pending m := by
  have hs := getMoreSites_started { m with restartTimers := m.restartTimers.eraseIdx k }
  refine ⟨hs.getting, hs.pending.trans ?_⟩
  simp only [pending, List.length_eraseIdx, hk, ↓reduceIte]
  omega

theorem due_lt {m : Master} {timers : List ℤ} {k : ℕ} (h : Due m timers k) :
    k < timers.length := by
  obtain ⟨due, hd, _⟩ := h
  exact (List.getElem?_eq_some_iff.mp (Option.mem_def.mp hd)).1

def FetchAlive (m : Master) : Prop := m.gettingSites = true → 0 < pending m

/-- No query fails while it is the only thing that keeps a fetch going. -/
def FailureCovered (m : Master) : Event → Prop
  | .queryDone _ .error => m.gettingSites = true → 1 < pending m
  | _ => True

theorem step_alive {m : Master} {e : Event} (h : FetchAlive m) (he : Enabled m e)
    (hc : FailureCovered m e) : FetchAlive (handle m e) := by
  by_cases hf : Fetches e
  · cases e with
    | message pid msg =>
      cases msg with
      | sendWork =>
        rcases sendWork_fetching pid m with ⟨_, hs⟩ | ⟨_, heq⟩
        · intro _
          exact hs.pending ▸ Nat.succ_pos _
        · intro hg
          exact (pending_congr heq).symm ▸ h ((getting_congr heq).symm.trans hg)
      | totals | recheck | notifyStatusChange | notifyStillDown | stopWork | stats => exact hf.elim
    | queryDone k answer =>
      have hless := answered_pending he
      rcases batchCallback_fetching answer (answered m k) with ⟨rfl, hg, hp⟩ | ⟨_, hs⟩ |
        ⟨_, hg, _⟩
      · intro hget
        have hcov : 1 < pending m := hc (hg.symm.trans hget)
        have hp' : pending (handle m (.queryDone k .error)) = pending (answered m k) := hp
        omega
      · intro _
        exact hs.pending ▸ Nat.succ_pos _
      · intro hget
        exact absurd (hg.symm.trans hget) (by decide)
    | roundTimer k =>
      intro _
      rw [(roundTimer_started (due_lt he)).2]
      have := due_lt he
      unfold pending
      omega
    | restartTimer k =>
      intro _
      rw [(restartTimer_started (due_lt he)).2]
      have := due_lt he
      unfold pending
      omega
    | updateStats =>
      obtain ⟨hg, hq, hr, ht⟩ := updateStats_fetching m
      intro hget
      have hlive := h (hg.symm.trans hget)
      simp only [pending, handle, hq, hr, ht] at hlive ⊢
      split <;> omega
    | wait | reload | workerExit | ensureWorkerCount | processQueuedRetries | hostStatus =>
      exact hf.elim
  · have heq := handle_fetching m hf
    intro hg
    exact (pending_congr heq).symm ▸ h ((getting_congr heq).symm.trans hg)

/-- A run keeps every fetch alive exactly when no query failure is the end of one. -/
theorem fetch_alive_iff {m : Master} {es : List Event} (h₀ : machine.start m)
    (hv : machine.Valid Unrestricted m es) :
    machine.Always FetchAlive m es ↔ machine.Valid FailureCovered m es := by
  refine always_iff_valid (I := FetchAlive) (fun _ h => h)
    (fun _ _ h he _ => step_alive h he) ?_ ?_ hv
  · intro m e _ he _ hc
    cases e with
    | queryDone k answer =>
      cases answer with
      | rows => exact absurd trivial hc
      | error =>
        intro halive
        simp only [FailureCovered, Classical.not_imp, Nat.not_lt] at hc
        have hless := answered_pending he
        have hpos : 0 < pending (answered m k) := halive hc.1
        omega
    | wait | reload | message | workerExit | ensureWorkerCount | roundTimer | restartTimer
    | updateStats | processQueuedRetries | hostStatus => exact absurd trivial hc
  · obtain ⟨cfg, now, rfl⟩ := h₀
    exact nofun

/-- A worker asks, the database has nothing, and the next query is on its way. -/
theorem fetch_alive_iff_empty_batch :
    let m := Master.boot { sampleConfig with numWorkers := 1 } 0
    let es : List Event :=
      [.ensureWorkerCount [1], .message 1 .sendWork, .queryDone 0 (.rows [])]
    machine.Always FetchAlive m es ↔ machine.Valid FailureCovered m es :=
  fetch_alive_iff ⟨_, _, rfl⟩ (by decide)

structure Wedged (m : Master) : Prop where
  getting : m.gettingSites = true
  nothing : pending m = 0
  debug_off : m.config.debug = false

def DebugStaysOff (_ : Master) : Event → Prop
  | .reload cfg => cfg.debug = false
  | _ => True

theorem step_wedged {m : Master} {e : Event} (h : Wedged m) (he : Enabled m e)
    (hc : DebugStaysOff m e) : Wedged (handle m e) := by
  have hnothing := h.nothing
  unfold pending at hnothing
  have hdebug : (handle m e).config.debug = false := by
    have hs := congrArg Settings.config (handle_settings m e)
    cases e with
    | reload cfg => exact (congrArg Config.debug hs).trans hc
    | wait | message | workerExit | ensureWorkerCount | queryDone | roundTimer | restartTimer
    | updateStats | processQueuedRetries | hostStatus =>
      exact (congrArg Config.debug hs).trans h.debug_off
  have hsame : fetching (handle m e) = fetching m := by
    by_cases hf : Fetches e
    · cases e with
      | message pid msg =>
        cases msg with
        | sendWork =>
          rcases sendWork_fetching pid m with ⟨hs, _⟩ | ⟨_, heq⟩
          · exact absurd (h.getting.symm.trans hs.2.2) (by decide)
          · exact heq
        | totals | recheck | notifyStatusChange | notifyStillDown | stopWork | stats =>
          exact hf.elim
      | queryDone k answer =>
        have hk : k < m.queries.length := he
        omega
      | roundTimer k =>
        have := due_lt he
        omega
      | restartTimer k =>
        have := due_lt he
        omega
      | updateStats =>
        have hover : m.overdue = false := by simp [Master.overdue, h.debug_off]
        simp [handle, Master.updateStats, Master.watchdog, hover, fetching, Master.clearCounters]
      | wait | reload | workerExit | ensureWorkerCount | processQueuedRetries | hostStatus =>
        exact hf.elim
    · exact handle_fetching m hf
  exact ⟨(getting_congr hsame).trans h.getting, (pending_congr hsame).trans h.nothing, hdebug⟩

/-- No site is fetched from then on. -/
theorem wedged_for_good {m : Master} {es : List Event} (h : Wedged m)
    (hv : machine.Valid DebugStaysOff m es) : Wedged (machine.exec m es) := by
  induction es generalizing m with
  | nil => exact h
  | cons e es ih => exact ih (step_wedged h hv.1.1 hv.1.2) hv.2

/-- One worker, DEBUG off: the first query fails. -/
theorem fetch_loop_wedges :
    ¬ ∀ m, Reachable machine Unrestricted m → FetchAlive m := by
  intro h
  have hr : Reachable machine Unrestricted (machine.exec
      (Master.boot { sampleConfig with numWorkers := 1, debug := false } 0)
      [.ensureWorkerCount [1], .message 1 .sendWork, .queryDone 0 .error]) :=
    exec_reachable (.start ⟨_, _, rfl⟩) (by decide)
  exact absurd (h _ hr rfl) (by decide)

/-- At most one continuation is pending, so at most one batch query is in flight. -/
def OneChain (m : Master) : Prop := pending m ≤ 1

/-- The watchdog fires only when nothing is pending, and until its restart is due no
worker starts the loop again. -/
def Exclusive (m : Master) : Event → Prop
  | .updateStats => m.overdue = true → pending m = 0
  | .message _ .sendWork => StartsLoop m → m.restartTimers = []
  | _ => True

structure Chain (m : Master) : Prop where
  one : pending m ≤ 1
  idle : m.gettingSites = false → m.queries = [] ∧ m.roundTimers = []

theorem chain_congr {m m' : Master} (h : Chain m) (he : fetching m' = fetching m) : Chain m' := by
  refine ⟨(pending_congr he).symm ▸ h.one, fun hg => ?_⟩
  have hidle := h.idle ((getting_congr he).symm.trans hg)
  exact ⟨(congrArg Fetching.queries he).trans hidle.1,
    (congrArg Fetching.roundTimers he).trans hidle.2⟩

theorem chain_of_getting {m : Master} (h : pending m ≤ 1) (hg : m.gettingSites = true) :
    Chain m := by
  refine ⟨h, fun hf => ?_⟩
  rw [hg] at hf
  contradiction

theorem step_chain {m : Master} {e : Event} (h : Chain m) (he : Enabled m e)
    (hc : Exclusive m e) : Chain (handle m e) := by
  have hone := h.one
  by_cases hf : Fetches e
  · cases e with
    | message pid msg =>
      cases msg with
      | sendWork =>
        rcases sendWork_fetching pid m with ⟨hstart, hs⟩ | ⟨_, heq⟩
        · obtain ⟨hq, hr⟩ := h.idle hstart.2.2
          have ht := hc hstart
          have hp := hs.pending
          refine chain_of_getting (Nat.le_of_eq (hp.trans ?_)) hs.getting
          simp [pending, hq, hr, ht]
        · exact chain_congr h heq
      | totals | recheck | notifyStatusChange | notifyStillDown | stopWork | stats => exact hf.elim
    | queryDone k answer =>
      have hless := answered_pending he
      have hzero : pending (answered m k) = 0 := by omega
      rcases batchCallback_fetching answer (answered m k) with ⟨rfl, hg, hp⟩ | ⟨_, hs⟩ |
        ⟨_, hg, hq, hr, ht⟩
      · have hgetting : m.gettingSites = true := by
          by_contra hf
          have hk : k < m.queries.length := he
          simp [(h.idle (by simpa using hf)).1] at hk
        exact chain_of_getting (by rw [handle]; exact hp.trans hzero ▸ Nat.zero_le 1)
          (hg.trans hgetting)
      · exact chain_of_getting
          (by rw [handle]; exact Nat.le_of_eq (hs.pending.trans (by rw [hzero])))
          hs.getting
      · simp only [pending, Nat.add_eq_zero_iff, List.length_eq_zero_iff] at hzero
        refine ⟨?_, fun _ => ⟨hq.trans hzero.1.1, hr.trans hzero.1.2⟩⟩
        rw [handle]
        change pending (Master.batchCallback answer (answered m k)) ≤ 1
        simp [pending, hq, hr, ht, hzero]
    | roundTimer k =>
      obtain ⟨hg, hp⟩ := roundTimer_started (due_lt he)
      exact chain_of_getting (hp.symm ▸ hone) hg
    | restartTimer k =>
      obtain ⟨hg, hp⟩ := restartTimer_started (due_lt he)
      exact chain_of_getting (hp.symm ▸ hone) hg
    | updateStats =>
      obtain ⟨hg, hq, hr, ht⟩ := updateStats_fetching m
      refine ⟨?_, fun hget => ?_⟩
      · simp only [pending, handle, hq, hr, ht]
        split
        · have hzero := hc ‹_›
          unfold pending at hzero
          omega
        · exact hone
      · obtain ⟨hq', hr'⟩ := h.idle (hg.symm.trans hget)
        exact ⟨hq.trans hq', hr.trans hr'⟩
    | wait | reload | workerExit | ensureWorkerCount | processQueuedRetries | hostStatus =>
      exact hf.elim
  · exact chain_congr h (handle_fetching m hf)

/-- A run has a single fetch chain exactly when the watchdog keeps out of the way. -/
theorem one_chain_iff {m : Master} {es : List Event} (h₀ : machine.start m)
    (hv : machine.Valid Unrestricted m es) :
    machine.Always OneChain m es ↔ machine.Valid Exclusive m es := by
  refine always_iff_valid (I := Chain) (fun _ h => h.one)
    (fun _ _ h he _ => step_chain h he) ?_ ?_ hv
  · intro m e h he _ hc hone
    cases e with
    | updateStats =>
      simp only [Exclusive, Classical.not_imp] at hc
      obtain ⟨_, hq, hr, ht⟩ := updateStats_fetching m
      rw [if_pos hc.1] at ht
      have hone' : pending m.updateStats ≤ 1 := hone
      have hne := hc.2
      simp only [pending, hq, hr, ht] at hone' hne
      omega
    | message pid msg =>
      cases msg with
      | sendWork =>
        simp only [Exclusive, Classical.not_imp] at hc
        rcases sendWork_fetching pid m with ⟨_, hs⟩ | ⟨hn, _⟩
        · have hp : pending (m.sendWork pid) = pending m + 1 := hs.pending
          have hone' : pending (m.sendWork pid) ≤ 1 := hone
          have hlen := List.length_pos_iff.mpr hc.2
          unfold pending at hp hone'
          omega
        · exact hn hc.1
      | totals | recheck | notifyStatusChange | notifyStillDown | stopWork | stats =>
        exact hc trivial
    | wait | reload | workerExit | ensureWorkerCount | queryDone | roundTimer | restartTimer
    | processQueuedRetries | hostStatus => exact hc trivial
  · obtain ⟨cfg, now, rfl⟩ := h₀
    exact ⟨Nat.zero_le 1, fun _ => ⟨rfl, rfl⟩⟩

/-- The database answers at once, and the round is not overdue. -/
theorem one_chain_iff_in_time :
    let m := Master.boot { sampleConfig with numWorkers := 1 } 0
    let es : List Event :=
      [.ensureWorkerCount [1], .message 1 .sendWork, .queryDone 0 (.rows []), .wait 5000,
        .updateStats]
    machine.Always OneChain m es ↔ machine.Valid Exclusive m es :=
  one_chain_iff ⟨_, _, rfl⟩ (by decide)

/-- DEBUG is on, as shipped, and the first query takes more than the round and twenty
seconds. -/
theorem one_chain_fails_when_overdue :
    ¬ ∀ m, Reachable machine Unrestricted m → OneChain m := by
  intro h
  have hr : Reachable machine Unrestricted (machine.exec
      (Master.boot { sampleConfig with numWorkers := 1 } 0)
      [.ensureWorkerCount [1], .message 1 .sendWork, .wait 321000, .updateStats]) :=
    exec_reachable (.start ⟨_, _, rfl⟩) (by decide)
  exact absurd (h _ hr) (by unfold OneChain; decide)

end FetchLoop

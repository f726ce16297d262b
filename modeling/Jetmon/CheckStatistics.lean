import Jetmon.Aggregation
import Jetmon.MasterFrames
import Jetmon.WorkerState

/-! The table of check statistics. A worker adds its results to checkStats one by one and
sends it once a second; the master merges what it gets. -/
namespace CheckStatistics

open SiteModel
open TransitionSystem
open MasterState
open MasterDispatch
open Aggregation

structure Sample where
  status : SiteStatus
  rtt : ℤ
  httpCode : ℤ
  errorCode : ℤ
  deriving DecidableEq, Repr

def rounded (samples : List Sample) : List ℤ := samples.map fun r => roundRtt r.rtt

def httpCount (samples : List Sample) (code : ℤ) : ℕ := samples.countP fun r => r.httpCode = code

/-- An error code of zero is no error. -/
def errorCount (samples : List Sample) (code : ℤ) : ℕ :=
  if code = 0 then 0 else samples.countP fun r => r.errorCode = code

def rowOf (samples : List Sample) : Option StatusStats :=
  if samples = [] then none
  else some ⟨httpCount samples, errorCount samples, ⟨samples.length, (rounded samples).sum,
    (rounded samples).max?.getD 0, (rounded samples).min?.getD 0⟩⟩

/-- The table computed from the collection. -/
def tableOf (samples : List Sample) : CheckStats :=
  fun key => rowOf (samples.filter fun r => r.status.statsKey = key)

theorem max?_append {xs ys : List ℤ} (hx : xs ≠ []) (hy : ys ≠ []) :
    (xs ++ ys).max?.getD 0 = max (xs.max?.getD 0) (ys.max?.getD 0) := by
  obtain ⟨a, ha⟩ := Option.isSome_iff_exists.mp (List.isSome_max?_iff.mpr hx)
  obtain ⟨b, hb⟩ := Option.isSome_iff_exists.mp (List.isSome_max?_iff.mpr hy)
  have hall : (xs ++ ys).max? = some (max a b) := by
    rw [List.max?_eq_some_iff] at ha hb ⊢
    refine ⟨?_, fun c hc => ?_⟩
    · rcases max_choice a b with h | h <;> rw [h]
      · exact List.mem_append_left _ ha.1
      · exact List.mem_append_right _ hb.1
    · rcases List.mem_append.mp hc with hc | hc
      · exact le_max_of_le_left (ha.2 c hc)
      · exact le_max_of_le_right (hb.2 c hc)
  rw [hall, ha, hb]
  rfl

theorem min?_append {xs ys : List ℤ} (hx : xs ≠ []) (hy : ys ≠ []) :
    (xs ++ ys).min?.getD 0 = min (xs.min?.getD 0) (ys.min?.getD 0) := by
  obtain ⟨a, ha⟩ := Option.isSome_iff_exists.mp (List.isSome_min?_iff.mpr hx)
  obtain ⟨b, hb⟩ := Option.isSome_iff_exists.mp (List.isSome_min?_iff.mpr hy)
  have hall : (xs ++ ys).min? = some (min a b) := by
    rw [List.min?_eq_some_iff] at ha hb ⊢
    refine ⟨?_, fun c hc => ?_⟩
    · rcases min_choice a b with h | h <;> rw [h]
      · exact List.mem_append_left _ ha.1
      · exact List.mem_append_right _ hb.1
    · rcases List.mem_append.mp hc with hc | hc
      · exact min_le_of_left_le (ha.2 c hc)
      · exact min_le_of_right_le (hb.2 c hc)
  rw [hall, ha, hb]
  rfl

theorem addCounts_eq (mine theirs : ℤ → ℕ) (code : ℤ) :
    addCounts mine theirs code = mine code + theirs code := by
  unfold addCounts
  split
  · omega
  · split <;> omega

theorem httpCount_append (xs ys : List Sample) (code : ℤ) :
    httpCount (xs ++ ys) code = httpCount xs code + httpCount ys code := List.countP_append

theorem errorCount_append (xs ys : List Sample) (code : ℤ) :
    errorCount (xs ++ ys) code = errorCount xs code + errorCount ys code := by
  unfold errorCount
  split
  · rfl
  · exact List.countP_append

theorem mergeStatus_rowOf {xs ys : List Sample} (hx : xs ≠ []) (hy : ys ≠ [])
    {mine theirs : StatusStats}
    (hmine : rowOf xs = some mine) (htheirs : rowOf ys = some theirs) :
    rowOf (xs ++ ys) = some (mergeStatus mine theirs) := by
  have hrounded : ∀ {zs : List Sample}, zs ≠ [] → rounded zs ≠ [] :=
    fun h => mt List.map_eq_nil_iff.mp h
  have happend : rounded (xs ++ ys) = rounded xs ++ rounded ys := List.map_append
  rw [rowOf, if_neg hx, Option.some_inj] at hmine
  rw [rowOf, if_neg hy, Option.some_inj] at htheirs
  rw [rowOf, if_neg (List.append_ne_nil_of_left_ne_nil hx ys), Option.some_inj, ← hmine, ← htheirs,
    mergeStatus, StatusStats.mk.injEq]
  refine ⟨?_, ?_, ?_⟩
  · funext code
    rw [addCounts_eq, httpCount_append]
  · funext code
    rw [addCounts_eq, errorCount_append]
  · rw [happend, max?_append (hrounded hx) (hrounded hy), min?_append (hrounded hx) (hrounded hy),
      List.sum_append, List.length_append]

theorem max?_perm {xs ys : List ℤ} (h : xs.Perm ys) : xs.max? = ys.max? := by
  cases hy : ys.max? with
  | none =>
    rw [List.max?_eq_none_iff] at hy ⊢
    exact List.perm_nil.mp (hy ▸ h)
  | some a =>
    rw [List.max?_eq_some_iff] at hy ⊢
    exact ⟨h.mem_iff.mpr hy.1, fun b hb => hy.2 b (h.mem_iff.mp hb)⟩

theorem min?_perm {xs ys : List ℤ} (h : xs.Perm ys) : xs.min? = ys.min? := by
  cases hy : ys.min? with
  | none =>
    rw [List.min?_eq_none_iff] at hy ⊢
    exact List.perm_nil.mp (hy ▸ h)
  | some a =>
    rw [List.min?_eq_some_iff] at hy ⊢
    exact ⟨h.mem_iff.mpr hy.1, fun b hb => hy.2 b (h.mem_iff.mp hb)⟩

theorem rowOf_perm {xs ys : List Sample} (h : xs.Perm ys) : rowOf xs = rowOf ys := by
  have hround : (rounded xs).Perm (rounded ys) := h.map _
  have hnil : xs = [] ↔ ys = [] := by
    rw [← List.length_eq_zero_iff, ← List.length_eq_zero_iff, h.length_eq]
  have hhttp : httpCount xs = httpCount ys := funext fun code => h.countP_eq _
  have herror : errorCount xs = errorCount ys := by
    funext code
    rw [errorCount, errorCount, h.countP_eq]
  unfold rowOf
  by_cases hx : xs = []
  · rw [if_pos hx, if_pos (hnil.mp hx)]
  · rw [if_neg hx, if_neg (mt hnil.mpr hx), hround.sum_eq, max?_perm hround, min?_perm hround,
      h.length_eq, hhttp, herror]

theorem rowOf_eq_none {samples : List Sample} : rowOf samples = none ↔ samples = [] := by
  unfold rowOf
  split <;> simp [*]

theorem tableOf_append (xs ys : List Sample) :
    tableOf (xs ++ ys) = mergeStats (tableOf xs) (tableOf ys) := by
  funext key
  simp only [tableOf, mergeStats, List.filter_append]
  generalize xs.filter (fun r => r.status.statsKey = key) = xs
  generalize ys.filter (fun r => r.status.statsKey = key) = ys
  cases hys : rowOf ys with
  | none =>
    rw [rowOf_eq_none] at hys
    rw [hys, List.append_nil]
  | some theirs =>
    cases hxs : rowOf xs with
    | none =>
      rw [rowOf_eq_none] at hxs
      rw [hxs, List.nil_append]
      exact hys
    | some mine =>
      have hne : ∀ {zs : List Sample} {row}, rowOf zs = some row → zs ≠ [] := by
        rintro _ _ hrow rfl
        cases hrow
      exact mergeStatus_rowOf (hne hxs) (hne hys) hxs hys

def statistics : Aggregate Sample CheckStats where
  of := tableOf
  merge := mergeStats
  append := tableOf_append
  perm h := by
    funext key
    exact rowOf_perm (h.filter _)

/-- processResultsCallback for one more result. -/
def record (stats : CheckStats) (r : Sample) : CheckStats :=
  recordStats stats r.status r.rtt r.httpCode r.errorCode

theorem bump_eq (f : ℤ → ℕ) (code c : ℤ) : bump f code c = f c + if code = c then 1 else 0 := by
  unfold bump
  by_cases h : c = code
  · rw [if_pos h, if_pos h.symm]
  · rw [if_neg h, if_neg (Ne.symm h), add_zero]

theorem httpCount_singleton (r : Sample) (code : ℤ) :
    httpCount [r] code = if r.httpCode = code then 1 else 0 := by
  simp [httpCount, List.countP_cons]

theorem errorCount_singleton (r : Sample) (code : ℤ) :
    errorCount [r] code = if r.errorCode ≠ 0 ∧ r.errorCode = code then 1 else 0 := by
  unfold errorCount
  by_cases hzero : code = 0
  · rw [if_pos hzero, if_neg (by rintro ⟨hne, rfl⟩; exact hne hzero)]
  · by_cases hcode : r.errorCode = code
    · simp [hcode, hzero]
    · simp [hcode]

theorem errorCode_eq (f : ℤ → ℕ) (r : Sample) (c : ℤ) :
    (if r.errorCode ≠ 0 then bump f r.errorCode else f) c = f c + errorCount [r] c := by
  rw [errorCount_singleton]
  by_cases hzero : r.errorCode = 0
  · rw [if_neg (not_not.mpr hzero), if_neg (fun h => h.1 hzero), add_zero]
  · rw [if_pos hzero, bump_eq]
    by_cases hcode : r.errorCode = c
    · rw [if_pos hcode, if_pos ⟨hzero, hcode⟩]
    · rw [if_neg hcode, if_neg (fun h => hcode h.2)]

theorem rowOf_singleton (r : Sample) : rowOf [r] = some ⟨httpCount [r], errorCount [r],
    ⟨1, roundRtt r.rtt, roundRtt r.rtt, roundRtt r.rtt⟩⟩ := by
  simp [rowOf, rounded]

theorem record_eq (stats : CheckStats) (r : Sample) :
    record stats r = mergeStats stats (tableOf [r]) := by
  funext key
  by_cases hkey : key = r.status.statsKey
  · subst hkey
    have hrow : tableOf [r] r.status.statsKey = some ⟨httpCount [r], errorCount [r],
        ⟨1, roundRtt r.rtt, roundRtt r.rtt, roundRtt r.rtt⟩⟩ := by
      rw [← rowOf_singleton, tableOf, List.filter_cons_of_pos (by simp), List.filter_nil]
    simp only [record, recordStats, mergeStats, hrow, ↓reduceIte]
    cases stats r.status.statsKey with
    | none =>
      apply congrArg some
      rw [StatusStats.mk.injEq]
      refine ⟨funext fun c => ?_, funext fun c => ?_, rfl⟩
      · rw [bump_eq, httpCount_singleton, zero_add]
      · rw [errorCode_eq (fun _ => 0), zero_add]
    | some old =>
      apply congrArg some
      rw [mergeStatus, StatusStats.mk.injEq]
      refine ⟨funext fun c => ?_, funext fun c => ?_, rfl⟩
      · rw [bump_eq, ← httpCount_singleton, addCounts_eq]
      · rw [errorCode_eq, addCounts_eq]
  · have hrow : tableOf [r] key = none := by
      rw [tableOf, List.filter_cons_of_neg (by simpa using Ne.symm hkey), List.filter_nil,
        rowOf_eq_none]
    simp only [record, recordStats, mergeStats, hrow, if_neg hkey]

def accumulate (batch : List Sample) : CheckStats := batch.foldl record emptyStats

theorem accumulate_eq (batch : List Sample) : accumulate batch = tableOf batch :=
  statistics.foldl_insert record_eq batch []

def statsOf : ToMaster → Option CheckStats
  | .stats _ checkStats => some checkStats
  | _ => none

def received : MasterState.Event → Option CheckStats
  | .message _ msg => statsOf msg
  | _ => none

theorem getMoreSites_checkStats (m : Master) : m.getMoreSites.checkStats = m.checkStats := by
  simp only [Master.getMoreSites]
  split <;> rfl

theorem maybeEndRound_checkStats (m : Master) : m.maybeEndRound.checkStats = m.checkStats := by
  obtain ⟨_, _, he⟩ := maybeEndRound_eq m
  rw [he]

theorem moves_checkStats {m m' : Master} (h : Moves m m') : m'.checkStats = m.checkStats := by
  induction h with
  | refl => rfl
  | @tail m₁ m₂ _ hmove ih =>
    rw [← ih]
    cases hmove with
    | evaporate | give | park => rfl
    | fetch => exact getMoreSites_checkStats m₁
    | endRound => exact maybeEndRound_checkStats m₁

theorem freeWorkersToWork_checkStats (m : Master) :
    m.freeWorkersToWork.checkStats = m.checkStats := by
  rcases freeWorkersToWork_cases m with ⟨-, he⟩ | ⟨-, -, hm⟩
  · rw [he]
  · have hmoves := moves_checkStats hm
    exact hmoves

theorem retryLocally_checkStats (m : Master) : m.retryLocally.checkStats = m.checkStats := by
  have hloop : (retryLoop m m.localRetries).1.checkStats = m.checkStats := by
    refine retryLoop_invariant (I := fun m' => m'.checkStats = m.checkStats) rfl ?_
    intro server _ m₁ m₂ h hmove
    cases hmove <;> exact h
  rcases retryLocally_cases m with ⟨-, he⟩ | ⟨-, he⟩ <;> rw [he]
  · exact hloop
  · split <;> exact hloop

theorem deleteWorker_checkStats (pid : Pid) (m : Master) :
    (m.deleteWorker pid).checkStats = m.checkStats := by
  unfold Master.deleteWorker
  split <;> rfl

theorem spawnWorker_checkStats (pid : Pid) (m : Master) :
    (m.spawnWorker pid).checkStats = m.checkStats :=
  deleteWorker_checkStats pid (m.resetChannel pid)

theorem workerExit_checkStats (pid : Pid) (code : ExitCode) (fresh : Pid) (m : Master) :
    (m.workerExit pid code fresh).checkStats = m.checkStats :=
  workerExit_invariant (I := fun m' => m'.checkStats = m.checkStats)
    (deleteWorker_checkStats pid (m.resetChannel pid))
    fun _ _ h => (spawnWorker_checkStats fresh _).trans h

theorem ensureWorkerCount_checkStats (fresh : List Pid) (m : Master) :
    (m.ensureWorkerCount fresh).checkStats = m.checkStats :=
  ensureWorkerCount_invariant (I := fun m' => m'.checkStats = m.checkStats) rfl
    fun _ h pid _ => (spawnWorker_checkStats pid _).trans h

theorem reload_checkStats (cfg : Config) (m : Master) :
    (m.reload cfg).checkStats = m.checkStats :=
  reload_invariant (I := fun m' => m'.checkStats = m.checkStats) rfl fun _ h _ _ => h

theorem batchCallback_checkStats (answer : QueryAnswer) (m : Master) :
    (m.batchCallback answer).checkStats = m.checkStats := by
  cases answer with
  | error => rfl
  | rows rows =>
    cases rows with
    | nil => exact getMoreSites_checkStats m
    | cons row rest => exact freeWorkersToWork_checkStats _

theorem checkHostStatus_checkStats (data : Reply) (m : Master) :
    (m.checkHostStatus data).checkStats = m.checkStats := by
  simp only [Master.checkHostStatus]
  split
  · rfl
  · split <;> rfl

theorem stopWork_checkStats (pid : Pid) (m : Master) :
    (m.stopWork pid).checkStats = m.checkStats := by
  rw [Master.stopWork, maybeEndRound_checkStats]
  rcases halt_cases pid m with ⟨-, -, he⟩ | ⟨-, he⟩ <;> rw [he]

theorem stats_checkStats (pid : Pid) (stats : WorkerStats) (checkStats : CheckStats) (m : Master) :
    (MasterState.handle m (.message pid (.stats stats checkStats))).checkStats =
      mergeStats m.checkStats checkStats := by
  rcases stats_cases pid stats checkStats m with ⟨-, he⟩ | he <;> rw [he]
  · rw [assignWorkToWorker_eq]
    split <;> rfl
  · rfl

/-- Between two calls of updateStats the table changes by the tables that are received. -/
theorem handle_checkStats (m : Master) {e : MasterState.Event} (h : e ≠ .updateStats) :
    (handle m e).checkStats = ((received e).toList.foldl mergeStats m.checkStats) := by
  cases e with
  | message pid msg =>
    cases msg with
    | stats stats checkStats => exact stats_checkStats pid stats checkStats m
    | totals | notifyStatusChange | notifyStillDown => rfl
    | stopWork => exact stopWork_checkStats pid m
    | sendWork => exact moves_checkStats (sendWork_moves pid m)
    | recheck server =>
      obtain ⟨_, _, _, he⟩ := recheck_eq pid server m
      rw [he]
      rfl
  | wait => rfl
  | reload cfg => exact reload_checkStats cfg m
  | workerExit pid code fresh => exact workerExit_checkStats pid code fresh m
  | ensureWorkerCount fresh => exact ensureWorkerCount_checkStats fresh m
  | queryDone k answer => exact batchCallback_checkStats answer _
  | roundTimer k => exact getMoreSites_checkStats _
  | restartTimer k => exact getMoreSites_checkStats _
  | updateStats => exact absurd rfl h
  | processQueuedRetries => exact retryLocally_checkStats _
  | hostStatus data => exact checkHostStatus_checkStats data m

theorem exec_checkStats {es : List MasterState.Event} (h : .updateStats ∉ es) : ∀ m : Master,
    (MasterState.machine.exec m es).checkStats =
      (es.filterMap received).foldl mergeStats m.checkStats := by
  induction es with
  | nil => exact fun _ => rfl
  | cons e rest ih =>
    intro m
    have hne : e ≠ .updateStats := fun heq => h (heq ▸ List.mem_cons_self ..)
    rw [Machine.exec, ih (fun hmem => h (List.mem_cons_of_mem _ hmem))]
    have hstep : (MasterState.machine.next m e).checkStats = _ := handle_checkStats m hne
    rw [hstep, List.filterMap_cons]
    cases received e <;> rfl

/-- The table that updateStats will find, for results that any number of workers cut into any
number of messages, received in any order among any other events. -/
theorem statistics_exact {m : Master} (hm : m.checkStats = emptyStats)
    {es : List MasterState.Event} (hes : .updateStats ∉ es) {workers : List (List (List Sample))}
    (hreceived : (es.filterMap received).Perm (workers.flatten.map accumulate))
    {samples : List Sample} (hsamples : samples.Perm workers.flatten.flatten) :
    (MasterState.machine.exec m es).checkStats = tableOf samples := by
  have htables : workers.flatten.map accumulate = workers.flatten.map statistics.of :=
    List.map_congr_left fun batch _ => accumulate_eq batch
  rw [exec_checkStats hes, hm]
  exact statistics.foldl_merge_perm (htables ▸ hreceived) hsamples

def sampleResults : List (List (List Sample)) :=
  [[[⟨.running, 1200, 200, 0⟩], [⟨.down, 0, 0, 6⟩, ⟨.running, 2600, 301, 0⟩]],
    [[⟨.running, 900, 200, 0⟩]]]

def statsMessage (pid : Pid) (batch : List Sample) : MasterState.Event :=
  .message pid (.stats ⟨0, 0, 0, 0, 0, 0⟩ (accumulate batch))

theorem statistics_exact_three_messages :
    (MasterState.machine.exec (Master.boot sampleConfig 0).updateStats
      [statsMessage 7 [⟨.down, 0, 0, 6⟩, ⟨.running, 2600, 301, 0⟩], .wait 1000,
        statsMessage 8 [⟨.running, 900, 200, 0⟩],
        statsMessage 7 [⟨.running, 1200, 200, 0⟩]]).checkStats =
      tableOf sampleResults.flatten.flatten := by
  refine statistics_exact rfl (by simp [statsMessage]) ?_ (List.Perm.refl _)
  exact List.perm_append_singleton _ [_, _]

open WorkerState

/-- The result that the event adds to the worker's table: an exiting worker adds none. -/
def recorded (w : Worker) : WorkerState.Event → Option Sample
  | .complete k now res => do
    let o ← w.outstanding[k]?
    let old ← w.arrCheck[o.index]?
    if (WorkerState.handle w (.complete k now res)).1.exit = none then
      some ⟨(w.applyResult now o.since res old).siteStatus, res.rtt, res.httpCode, res.errorCode⟩
    else none
  | _ => none

def reported (w : Worker) : List WorkerState.Event → List CheckStats
  | [] => []
  | e :: es =>
    (WorkerState.handle w e).2.filterMap statsOf ++ reported (WorkerState.handle w e).1 es

/-- The results of a run, cut where the stats timer fires; those after the last message are
left out. `pending` are the results since the last message. -/
def batches (w : Worker) (pending : List Sample) : List WorkerState.Event → List (List Sample)
  | [] => []
  | .statsTick now rss :: es =>
    pending :: batches (WorkerState.handle w (.statsTick now rss)).1 [] es
  | e :: es => batches (WorkerState.handle w e).1 (pending ++ (recorded w e).toList) es

theorem startCheck_checkStats (now : ℤ) (w : Worker) :
    (w.startCheck now).checkStats = w.checkStats := by
  unfold Worker.startCheck
  split <;> rfl

theorem startChecks_checkStats (now : ℤ) (n : ℕ) : ∀ w : Worker,
    (w.startChecks now n).checkStats = w.checkStats := by
  induction n with
  | zero => exact fun _ => rfl
  | succ n ih => exact fun w => (ih _).trans (startCheck_checkStats now w)

theorem addToQueue_checkStats (payload : List Site) (w : Worker) :
    (w.addToQueue payload).checkStats = w.checkStats := by
  unfold Worker.addToQueue
  split <;> rfl

theorem endOfQueue_stats (rss : ℤ) (w : Worker) : (w.endOfQueue rss).1.checkStats = w.checkStats ∧
    (w.endOfQueue rss).2.filterMap statsOf = [] := by
  have hstop : (w.stopDecision rss).1.checkStats = w.checkStats ∧
      (w.stopDecision rss).2.filterMap statsOf = [] := by
    unfold Worker.stopDecision
    split <;> exact ⟨rfl, rfl⟩
  have hsettle : ∀ w : Worker, w.settle.checkStats = w.checkStats := by
    intro w
    unfold Worker.settle
    split
    · split <;> rfl
    · rfl
  have hask : ∀ w : Worker, w.askForWork.1.checkStats = w.checkStats ∧
      w.askForWork.2.filterMap statsOf = [] := by
    intro w
    unfold Worker.askForWork
    split <;> exact ⟨rfl, rfl⟩
  unfold Worker.endOfQueue
  constructor
  · exact ((hask _).1.trans (hsettle _)).trans hstop.1
  · rw [List.filterMap_append, hstop.2, (hask _).2, List.append_nil]

theorem continueQueue_stats (now rss : ℤ) (w : Worker) :
    (w.continueQueue now rss).1.checkStats = w.checkStats ∧
      (w.continueQueue now rss).2.filterMap statsOf = [] := by
  unfold Worker.continueQueue
  split
  · exact ⟨startCheck_checkStats now w, rfl⟩
  · exact endOfQueue_stats rss w

theorem statusMessages_stats (server : Site) : (statusMessages server).filterMap statsOf = [] := by
  unfold statusMessages
  split
  · split <;> rfl
  · rfl

theorem storeStats_checkStats (status : SiteStatus) (res : Result) {w : Worker} {stats : CheckStats}
    (hw : w.checkStats = stats) : (w.storeStats status res).checkStats =
      (if (w.storeStats status res).exit = none then
        some (Sample.mk status res.rtt res.httpCode res.errorCode) else none).toList.foldl record
          stats := by
  subst hw
  cases hx : w.exit with
  | none => simp [Worker.storeStats, hx, record]
  | some code => simp [Worker.storeStats, hx]

theorem complete_stats (w : Worker) (k : ℕ) (now : ℤ) (res : Result) :
    (WorkerState.handle w (.complete k now res)).1.checkStats =
        (recorded w (.complete k now res)).toList.foldl record w.checkStats ∧
      (WorkerState.handle w (.complete k now res)).2.filterMap statsOf = [] := by
  cases ho : w.outstanding[k]? with
  | none =>
    have hnone : recorded w (.complete k now res) = none := by simp [recorded, ho]
    rw [hnone]
    simp only [WorkerState.handle, ho]
    exact ⟨rfl, rfl⟩
  | some o =>
    cases hold : w.arrCheck[o.index]? with
    | none =>
      have hnone : recorded w (.complete k now res) = none := by simp [recorded, ho, hold]
      rw [hnone]
      simp only [WorkerState.handle, ho, Worker.processResultsCallback, hold]
      exact ⟨rfl, rfl⟩
    | some old =>
      have hrecorded : recorded w (.complete k now res) =
          if (WorkerState.handle w (.complete k now res)).1.exit = none then
            some ⟨(w.applyResult now o.since res old).siteStatus, res.rtt, res.httpCode,
              res.errorCode⟩
          else none := by simp [recorded, ho, hold]
      rw [hrecorded]
      simp only [WorkerState.handle, ho, Worker.processResultsCallback, hold]
      obtain ⟨hstats, hmsgs⟩ := continueQueue_stats now res.rss
        (Worker.noteResult o.index (w.applyResult now o.since res old)
          { w with outstanding := w.outstanding.eraseIdx k, finished := w.finished ++ [o.site] })
      constructor
      · exact storeStats_checkStats _ res hstats
      · rw [List.filterMap_append, statusMessages_stats, List.nil_append]
        exact hmsgs

theorem handle_stats (w : Worker) {e : WorkerState.Event} (h : ∀ now rss, e ≠ .statsTick now rss) :
    (WorkerState.handle w e).1.checkStats = (recorded w e).toList.foldl record w.checkStats ∧
      (WorkerState.handle w e).2.filterMap statsOf = [] := by
  cases e with
  | complete k now res => exact complete_stats w k now res
  | statsTick now rss => exact absurd rfl (h now rss)
  | queueAdd payload => exact ⟨addToQueue_checkStats payload _, rfl⟩
  | evaporate =>
    simp only [WorkerState.handle]
    split <;> exact ⟨rfl, rfl⟩
  | configUpdate cfg seed => exact ⟨rfl, rfl⟩
  | checkTimer now => exact ⟨startChecks_checkStats now _ _, rfl⟩
  | startup => exact ⟨rfl, rfl⟩
  | totalsTick =>
    refine ⟨rfl, ?_⟩
    simp only [WorkerState.handle, Worker.sendStats]
    split <;> rfl

theorem reported_eq (es : List WorkerState.Event) : ∀ (w : Worker) (pending : List Sample),
    w.checkStats = accumulate pending → reported w es = (batches w pending es).map accumulate := by
  induction es with
  | nil => exact fun _ _ _ => rfl
  | cons e rest ih =>
    intro w pending hw
    have hquiet : (∀ now rss, e ≠ .statsTick now rss) → reported w (e :: rest) =
        (batches (WorkerState.handle w e).1 (pending ++ (recorded w e).toList) rest).map
          accumulate := by
      intro hne
      obtain ⟨hstats, hmsgs⟩ := handle_stats w hne
      rw [reported, hmsgs, List.nil_append]
      apply ih _ _
      rw [hstats, hw, accumulate, accumulate, List.foldl_append]
    cases e with
    | statsTick now rss =>
      have hmsgs : (WorkerState.handle w (.statsTick now rss)).2.filterMap statsOf =
          [w.checkStats] := rfl
      rw [reported, hmsgs, ih _ [] rfl, batches, List.map_cons, hw]
      rfl
    | queueAdd | evaporate | configUpdate | checkTimer | complete | startup | totalsTick =>
      exact hquiet nofun

/-- The same, for the runs of any number of workers. -/
theorem runs_exact {m : Master} (hm : m.checkStats = emptyStats) {es : List MasterState.Event}
    (hes : .updateStats ∉ es) {runs : List (Worker × List WorkerState.Event)}
    (hruns : ∀ run ∈ runs, run.1.checkStats = emptyStats)
    (hreceived : (es.filterMap received).Perm (runs.flatMap fun run => reported run.1 run.2)) :
    (MasterState.machine.exec m es).checkStats =
      tableOf (runs.flatMap fun run => batches run.1 [] run.2).flatten := by
  have hsent : (runs.flatMap fun run => reported run.1 run.2) =
      (runs.flatMap fun run => batches run.1 [] run.2).map statistics.of := by
    rw [List.map_flatMap]
    refine List.flatMap_congr fun run hrun => ?_
    rw [reported_eq run.2 run.1 [] (hruns run hrun)]
    exact List.map_congr_left fun batch _ => accumulate_eq batch
  rw [exec_checkStats hes, hm]
  exact statistics.foldl_merge_perm (hsent ▸ hreceived) (List.Perm.refl _)

end CheckStatistics

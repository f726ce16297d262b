import Jetmon.MasterDispatch

/-! The state of the master in parts: its settings, the fetch loop, the escalations to the
verifliers, the work and who does it, and counters. Here is which handler leaves which part
alone. -/
namespace MasterFrames

open SiteModel
open DatabaseCursor
open MasterState
open MasterDispatch

structure Settings where
  config : Config
  clock : ℤ
  peerOfflineLimit : ℕ

structure Fetching where
  startTime : ℤ
  gettingSites : Bool
  endOfRound : Bool
  cursor : Cursor
  queries : List Query
  roundTimers : List ℤ
  restartTimers : List ℤ

structure Escalations where
  queuedRetries : List RetryEntry
  nextSerial : ℕ
  requests : List Request
  credits : List Credit
  posted : List Post

structure Workload where
  arrObjects : List Site
  localRetries : List Site
  arrWorkers : List Pid
  freeWorkers : List Pid
  haltedWorkers : List Pid
  pipe : Pid → List ToWorker
  handed : Pid → List Site

def settings (m : Master) : Settings := ⟨m.config, m.clock, m.peerOfflineLimit⟩

def fetching (m : Master) : Fetching :=
  ⟨m.startTime, m.gettingSites, m.endOfRound, m.cursor, m.queries, m.roundTimers, m.restartTimers⟩

def escalations (m : Master) : Escalations :=
  ⟨m.queuedRetries, m.nextSerial, m.requests, m.credits, m.posted⟩

def workload (m : Master) : Workload :=
  ⟨m.arrObjects, m.localRetries, m.arrWorkers, m.freeWorkers, m.haltedWorkers, m.pipe, m.handed⟩

/-- Only the workload and the counters differ. -/
structure WorkOnly (m m' : Master) : Prop where
  settings : settings m' = settings m
  fetching : fetching m' = fetching m
  escalations : escalations m' = escalations m

theorem WorkOnly.refl (m : Master) : WorkOnly m m := ⟨rfl, rfl, rfl⟩

theorem WorkOnly.trans {m₁ m₂ m₃ : Master} (h : WorkOnly m₁ m₂) (h' : WorkOnly m₂ m₃) :
    WorkOnly m₁ m₃ :=
  ⟨h'.settings.trans h.settings, h'.fetching.trans h.fetching,
    h'.escalations.trans h.escalations⟩

theorem send_workOnly (pid : Pid) (msg : ToWorker) (m : Master) : WorkOnly m (m.send pid msg) :=
  ⟨rfl, rfl, rfl⟩

theorem maybeEndRound_workOnly (m : Master) : WorkOnly m m.maybeEndRound := by
  obtain ⟨_, _, he⟩ := maybeEndRound_eq m
  rw [he]
  exact ⟨rfl, rfl, rfl⟩

theorem deleteWorker_workOnly (pid : Pid) (m : Master) : WorkOnly m (m.deleteWorker pid) := by
  unfold Master.deleteWorker
  split <;> exact ⟨rfl, rfl, rfl⟩

theorem forget_workOnly (pid : Pid) (m : Master) :
    WorkOnly m ((m.resetChannel pid).deleteWorker pid) := by
  have hreset : WorkOnly m (m.resetChannel pid) := ⟨rfl, rfl, rfl⟩
  exact hreset.trans (deleteWorker_workOnly pid _)

theorem spawnWorker_workOnly (pid : Pid) (m : Master) : WorkOnly m (m.spawnWorker pid) :=
  (forget_workOnly pid m).trans ⟨rfl, rfl, rfl⟩

theorem workerExit_workOnly (pid : Pid) (code : ExitCode) (fresh : Pid) (m : Master) :
    WorkOnly m (m.workerExit pid code fresh) :=
  workerExit_invariant (forget_workOnly pid m) fun _ _ h => h.trans (spawnWorker_workOnly fresh _)

theorem ensureWorkerCount_workOnly (fresh : List Pid) (m : Master) :
    WorkOnly m (m.ensureWorkerCount fresh) :=
  ensureWorkerCount_invariant (.refl m) fun _ h pid _ => h.trans (spawnWorker_workOnly pid _)

theorem assignWorkToWorker_workOnly (pid : Pid) (size : Option ℤ) (m : Master) :
    WorkOnly m (m.assignWorkToWorker pid size) := by
  rw [assignWorkToWorker_eq]
  split <;> exact ⟨rfl, rfl, rfl⟩

theorem topUp_workOnly (pid : Pid) (stats : WorkerStats) (m : Master) :
    WorkOnly m (m.topUp pid stats) := by
  unfold Master.topUp
  split
  · exact assignWorkToWorker_workOnly ..
  · exact .refl m

theorem retryLocally_workOnly (m : Master) : WorkOnly m m.retryLocally := by
  have hloop : WorkOnly m (retryLoop m m.localRetries).1 := by
    refine retryLoop_invariant (I := WorkOnly m) ⟨rfl, rfl, rfl⟩ ?_
    intro server _ m₁ m₂ h hmove
    cases hmove <;> exact h.trans ⟨rfl, rfl, rfl⟩
  rcases retryLocally_cases m with ⟨_, he⟩ | ⟨_, he⟩ <;> rw [he]
  · exact hloop
  · split
    · exact hloop
    · exact hloop.trans ⟨rfl, rfl, rfl⟩

/-- The requests a worker makes, rather than the results it reports. -/
def Housekeeping : ToMaster → Prop
  | .totals _ | .stopWork | .stats _ _ => True
  | _ => False

theorem housekeeping_workOnly (pid : Pid) (msg : ToMaster) (h : Housekeeping msg) (m : Master) :
    WorkOnly m (m.workerMsgCallback pid msg) := by
  cases msg with
  | totals => exact ⟨rfl, rfl, rfl⟩
  | stopWork =>
    have hhalt : WorkOnly m (m.halt pid) := by
      rcases halt_cases pid m with ⟨_, _, he⟩ | ⟨_, he⟩ <;> rw [he]
      · exact ⟨rfl, rfl, rfl⟩
      · exact .refl m
    exact hhalt.trans (maybeEndRound_workOnly _)
  | stats stats checkStats =>
    have hkeep : WorkOnly m (m.keepStats pid stats checkStats) := ⟨rfl, rfl, rfl⟩
    exact hkeep.trans (topUp_workOnly pid stats _)
  | recheck | notifyStatusChange | notifyStillDown | sendWork => exact h.elim

theorem addServerToLocalRetries_workOnly (server : Site) (m : Master) :
    WorkOnly m (m.addServerToLocalRetries server) := by
  unfold Master.addServerToLocalRetries
  split <;> exact ⟨rfl, rfl, rfl⟩

theorem getMoreSites_same (m : Master) :
    settings m.getMoreSites = settings m ∧ escalations m.getMoreSites = escalations m := by
  simp only [Master.getMoreSites]
  split <;> exact ⟨rfl, rfl⟩

theorem moves_same {m m' : Master} (h : Moves m m') :
    settings m' = settings m ∧ escalations m' = escalations m := by
  induction h with
  | refl => exact ⟨rfl, rfl⟩
  | @tail m₁ m₂ _ hmove ih =>
    rw [← ih.1, ← ih.2]
    cases hmove with
    | evaporate | give | park => exact ⟨rfl, rfl⟩
    | fetch => exact getMoreSites_same m₁
    | endRound =>
      exact ⟨(maybeEndRound_workOnly m₁).settings, (maybeEndRound_workOnly m₁).escalations⟩

theorem freeWorkersToWork_same (m : Master) :
    settings m.freeWorkersToWork = settings m ∧
      escalations m.freeWorkersToWork = escalations m := by
  rcases freeWorkersToWork_cases m with ⟨_, he⟩ | ⟨_, _, hm⟩
  · rw [he]
    exact ⟨rfl, rfl⟩
  · have h := moves_same hm
    exact h

theorem batchCallback_same (answer : QueryAnswer) (m : Master) :
    settings (m.batchCallback answer) = settings m ∧
      escalations (m.batchCallback answer) = escalations m := by
  cases answer with
  | error => exact ⟨rfl, rfl⟩
  | rows rows =>
    cases rows with
    | nil => exact getMoreSites_same m
    | cons row rest => exact freeWorkersToWork_same _

theorem updateStats_same (m : Master) :
    settings m.updateStats = settings m ∧ escalations m.updateStats = escalations m := by
  have hwatch : settings m.watchdog = settings m ∧ escalations m.watchdog = escalations m := by
    unfold Master.watchdog
    split <;> exact ⟨rfl, rfl⟩
  exact hwatch

theorem checkHostStatus_same (data : Reply) (m : Master) :
    settings (m.checkHostStatus data) = settings m ∧
      fetching (m.checkHostStatus data) = fetching m := by
  unfold Master.checkHostStatus
  split
  · exact ⟨rfl, rfl⟩
  · dsimp only
    split <;> exact ⟨rfl, rfl⟩

theorem processQueuedRetries_same (m : Master) :
    settings m.processQueuedRetries = settings m ∧
      fetching m.processQueuedRetries = fetching m := by
  have h := retryLocally_workOnly (Master.requestRetries m.sweepRetries.1 m.sweepRetries.2)
  exact ⟨h.settings, h.fetching⟩

theorem recheck_same (pid : Pid) (server : Site) (m : Master) :
    settings (m.workerMsgCallback pid (.recheck server)) = settings m ∧
      fetching (m.workerMsgCallback pid (.recheck server)) = fetching m := by
  obtain ⟨_, _, _, he⟩ := recheck_eq pid server m
  have he : m.workerMsgCallback pid (.recheck server) = _ := he
  rw [he]
  exact ⟨rfl, rfl⟩

theorem reload_same (cfg : Config) (m : Master) :
    fetching (m.reload cfg) = fetching m ∧ escalations (m.reload cfg) = escalations m ∧
      settings (m.reload cfg) = ⟨cfg, m.clock, m.peerOfflineLimit⟩ := by
  have h : WorkOnly { m with config := cfg } (m.reload cfg) :=
    reload_invariant (I := WorkOnly _) (.refl _)
      fun _ h pid _ => h.trans (send_workOnly pid .configUpdate _)
  exact ⟨h.fetching, h.escalations, h.settings⟩

theorem maybeEndRound_workload (m : Master) : workload m.maybeEndRound = workload m := by
  obtain ⟨_, _, he⟩ := maybeEndRound_eq m
  rw [he]
  rfl

theorem getMoreSites_workload (m : Master) : workload m.getMoreSites = workload m := by
  simp only [Master.getMoreSites]
  split <;> rfl

theorem moves_lists {m m' : Master} (h : Moves m m') :
    m'.arrWorkers = m.arrWorkers ∧ m'.localRetries = m.localRetries := by
  induction h with
  | refl => exact ⟨rfl, rfl⟩
  | @tail m₁ m₂ _ hmove ih =>
    rw [← ih.1, ← ih.2]
    cases hmove with
    | evaporate | give | park => exact ⟨rfl, rfl⟩
    | fetch =>
      have hsame := getMoreSites_workload m₁
      exact ⟨congrArg Workload.arrWorkers hsame, congrArg Workload.localRetries hsame⟩
    | endRound =>
      have hsame := maybeEndRound_workload m₁
      exact ⟨congrArg Workload.arrWorkers hsame, congrArg Workload.localRetries hsame⟩

theorem checkHostStatus_workload (data : Reply) (m : Master) :
    workload (m.checkHostStatus data) = workload m := by
  simp only [Master.checkHostStatus]
  split
  · rfl
  · split <;> rfl

theorem updateStats_workload (m : Master) : workload m.updateStats = workload m := by
  have hwatch : workload m.watchdog = workload m := by
    simp only [Master.watchdog]
    split <;> rfl
  exact hwatch

def Fetches : Event → Prop
  | .message _ .sendWork | .queryDone _ _ | .roundTimer _ | .restartTimer _ | .updateStats => True
  | _ => False

def Escalates : Event → Prop
  | .message _ (.recheck _) | .message _ (.notifyStatusChange _)
  | .message _ (.notifyStillDown _) | .processQueuedRetries | .hostStatus _ => True
  | _ => False

def Dispatches : Event → Prop
  | .reload _ | .workerExit _ _ _ | .ensureWorkerCount _ | .queryDone _ (.rows (_ :: _))
  | .processQueuedRetries => True
  | .message _ .stopWork | .message _ .sendWork | .message _ (.recheck _)
  | .message _ (.stats _ _) => True
  | _ => False

theorem handle_workload (m : Master) {e : Event} (h : ¬Dispatches e) :
    workload (handle m e) = workload m := by
  cases e with
  | wait => rfl
  | message pid msg =>
    cases msg with
    | totals | notifyStatusChange | notifyStillDown => rfl
    | stopWork | sendWork | recheck | stats => exact absurd trivial h
  | queryDone k answer =>
    cases answer with
    | error => rfl
    | rows rows =>
      cases rows with
      | nil => exact getMoreSites_workload _
      | cons => exact absurd trivial h
  | roundTimer => exact getMoreSites_workload _
  | restartTimer => exact getMoreSites_workload _
  | updateStats => exact updateStats_workload m
  | hostStatus data => exact checkHostStatus_workload data m
  | reload | workerExit | ensureWorkerCount | processQueuedRetries => exact absurd trivial h

theorem handle_fetching (m : Master) {e : Event} (h : ¬Fetches e) :
    fetching (handle m e) = fetching m := by
  cases e with
  | wait now => rfl
  | reload cfg => exact (reload_same cfg m).1
  | message pid msg =>
    have hwork := housekeeping_workOnly pid msg
    cases msg with
    | sendWork => exact absurd trivial h
    | totals | stopWork | stats => exact (hwork trivial m).fetching
    | notifyStatusChange | notifyStillDown => rfl
    | recheck server => exact (recheck_same pid server m).2
  | workerExit pid code fresh => exact (workerExit_workOnly pid code fresh m).fetching
  | ensureWorkerCount fresh => exact (ensureWorkerCount_workOnly fresh m).fetching
  | processQueuedRetries => exact (processQueuedRetries_same m).2
  | hostStatus data => exact (checkHostStatus_same data m).2
  | queryDone | roundTimer | restartTimer | updateStats => exact absurd trivial h

theorem handle_escalations (m : Master) {e : Event} (h : ¬Escalates e) :
    escalations (handle m e) = escalations m := by
  cases e with
  | wait now => rfl
  | reload cfg => exact (reload_same cfg m).2.1
  | message pid msg =>
    have hwork := housekeeping_workOnly pid msg
    cases msg with
    | sendWork => exact (moves_same (sendWork_moves pid m)).2
    | totals | stopWork | stats => exact (hwork trivial m).escalations
    | notifyStatusChange | notifyStillDown | recheck => exact absurd trivial h
  | workerExit pid code fresh => exact (workerExit_workOnly pid code fresh m).escalations
  | ensureWorkerCount fresh => exact (ensureWorkerCount_workOnly fresh m).escalations
  | queryDone k answer => exact (batchCallback_same answer _).2
  | roundTimer k => exact (getMoreSites_same _).2
  | restartTimer k => exact (getMoreSites_same _).2
  | updateStats => exact (updateStats_same m).2
  | processQueuedRetries | hostStatus => exact absurd trivial h

/-- Only time and SIGHUP change the settings. -/
theorem handle_settings (m : Master) (e : Event) : settings (handle m e) =
    match e with
    | .wait now => ⟨m.config, now, m.peerOfflineLimit⟩
    | .reload cfg => ⟨cfg, m.clock, m.peerOfflineLimit⟩
    | _ => settings m := by
  cases e with
  | wait now => rfl
  | reload cfg => exact (reload_same cfg m).2.2
  | message pid msg =>
    have hwork := housekeeping_workOnly pid msg
    cases msg with
    | sendWork => exact (moves_same (sendWork_moves pid m)).1
    | totals | stopWork | stats => exact (hwork trivial m).settings
    | notifyStatusChange | notifyStillDown => rfl
    | recheck server => exact (recheck_same pid server m).1
  | workerExit pid code fresh => exact (workerExit_workOnly pid code fresh m).settings
  | ensureWorkerCount fresh => exact (ensureWorkerCount_workOnly fresh m).settings
  | queryDone k answer => exact (batchCallback_same answer _).1
  | roundTimer k => exact (getMoreSites_same _).1
  | restartTimer k => exact (getMoreSites_same _).1
  | updateStats => exact (updateStats_same m).1
  | processQueuedRetries => exact (processQueuedRetries_same m).1
  | hostStatus data => exact (checkHostStatus_same data m).1

theorem peerOfflineLimit_const (m : Master) (e : Event) :
    (handle m e).peerOfflineLimit = m.peerOfflineLimit := by
  have h := congrArg Settings.peerOfflineLimit (handle_settings m e)
  cases e <;> exact h

end MasterFrames

import Jetmon.SiteModel
import Jetmon.TransitionSystem
import Jetmon.DatabaseCursor

/-! The master process, lib/jetmon.js. A handler runs to completion at one reading of
`clock`. `queries`, `roundTimers` and `restartTimers` are the callbacks the runtime still
owes the fetch loop, and `pipe` is what has been written to each worker and not yet read.
`nextSerial`, `requests`, `credits`, `posted` and `handed` are histories that no branch
reads. Log files and statsd are left out. -/
namespace MasterState

open SiteModel
open TransitionSystem
open DatabaseCursor

/-- An element of queuedRetries. `serial` numbers the entries and `server` is the object
it was built from. -/
structure RetryEntry where
  blogId : ℕ
  monitorUrl : String
  statusId : SiteStatus
  siteStatus : Option SiteStatus
  lastCheck : Option ℤ
  lastStatusChange : ℤ
  checks : List CheckResult
  offlineConfirms : ℕ
  requestsSent : Bool
  requestsOutstanding : ℤ
  lastActivity : ℤ
  serial : ℕ
  server : Site
  deriving DecidableEq, Repr

abbrev Key := ℕ × String

def siteKey (server : Site) : Key := (server.blogId, server.monitorUrl)

def entryKey (e : RetryEntry) : Key := (e.blogId, e.monitorUrl)

/-- One check in a message of the status server. `peer` is the position in VERIFIERS of
the veriflier that sent it, and `answers` the entry it was asked about. -/
structure Reply where
  veriflierHost : String
  blogId : ℕ
  monitorUrl : String
  status : ℤ
  rtt : ℤ
  code : ℤ
  errorCode : ℤ
  peer : ℕ
  answers : ℕ
  deriving DecidableEq, Repr

structure Request where
  peer : ℕ
  veriflier : Veriflier
  serial : ℕ
  blogId : ℕ
  monitorUrl : String
  deriving DecidableEq, Repr

/-- A reply that was counted, and the entry it was counted for. -/
structure Credit where
  serial : ℕ
  reply : Reply
  deriving DecidableEq, Repr

inductive Post where
  | siteDown (retryServer : RetryEntry)
  | statusChange (server : Site)
  deriving DecidableEq, Repr

inductive QueryAnswer where
  | rows (rows : List Row)
  | error

structure Master where
  config : Config
  clock : ℤ
  peerOfflineLimit : ℕ
  gCountSuccess : ℕ
  gCountError : ℕ
  gCountOffline : ℕ
  startTime : ℤ
  sitesCount : ℕ
  arrObjects : List Site
  localRetries : List Site
  freeWorkers : List Pid
  haltedWorkers : List Pid
  arrWorkers : List Pid
  workerStats : Pid → Option WorkerStats
  checkStats : CheckStats
  gettingSites : Bool
  inRound : Bool
  endOfRound : Bool
  roundSitesCount : ℕ
  queuedRetries : List RetryEntry
  cursor : Cursor
  queries : List Query
  roundTimers : List ℤ
  restartTimers : List ℤ
  pipe : Pid → List ToWorker
  nextSerial : ℕ
  requests : List Request
  credits : List Credit
  posted : List Post
  handed : Pid → List Site

/-- The initial values of the module; `|| 3` turns a zero limit into 3. -/
def Master.boot (cfg : Config) (now : ℤ) : Master where
  config := cfg
  clock := now
  peerOfflineLimit := if cfg.peerOfflineLimit = 0 then 3 else cfg.peerOfflineLimit
  gCountSuccess := 0
  gCountError := 0
  gCountOffline := 0
  startTime := now
  sitesCount := 0
  arrObjects := []
  localRetries := []
  freeWorkers := []
  haltedWorkers := []
  arrWorkers := []
  workerStats := fun _ => none
  checkStats := emptyStats
  gettingSites := false
  inRound := false
  endOfRound := false
  roundSitesCount := 0
  queuedRetries := []
  cursor := Cursor.initial cfg
  queries := []
  roundTimers := []
  restartTimers := []
  pipe := fun _ => []
  nextSerial := 0
  requests := []
  credits := []
  posted := []
  handed := fun _ => []

def Master.send (pid : Pid) (msg : ToWorker) (m : Master) : Master :=
  { m with
    pipe := fun p => if p = pid then m.pipe p ++ [msg] else m.pipe p
    handed := fun p => if p = pid then m.handed p ++ msg.sites else m.handed p }

def Master.getWorker (pid : Pid) (m : Master) : Option Pid :=
  if pid = 0 then none else m.arrWorkers.find? fun worker => worker == pid

def Master.deleteWorker (pid : Pid) (m : Master) : Master :=
  if pid = 0 then m
  else
    { m with
      arrWorkers := m.arrWorkers.erase pid
      workerStats := fun p => if p = pid ∧ pid ∈ m.arrWorkers then none else m.workerStats p
      freeWorkers := m.freeWorkers.filter (· ≠ pid)
      haltedWorkers := m.haltedWorkers.filter (· ≠ pid) }

/-- The channel of a process that begins or ends is empty, and so is its history. -/
def Master.resetChannel (pid : Pid) (m : Master) : Master :=
  { m with
    pipe := fun p => if p = pid then [] else m.pipe p
    handed := fun p => if p = pid then [] else m.handed p }

/-- The operating system chose `pid` for the new process. -/
def Master.spawnWorker (pid : Pid) (m : Master) : Master :=
  let m := (m.resetChannel pid).deleteWorker pid
  { m with arrWorkers := m.arrWorkers ++ [pid] }

def respawns : ExitCode → Bool
  | .suicideSignal | .interrupted => false
  | .maxRamUsage | .maxChecks | .other => true

/-- The 'exit' handler; `fresh` is the pid of the replacement, if there is one. -/
def Master.workerExit (pid : Pid) (code : ExitCode) (fresh : Pid) (m : Master) : Master :=
  let m := (m.resetChannel pid).deleteWorker pid
  if respawns code then m.spawnWorker fresh else m

def Master.ensureWorkerCount (fresh : List Pid) (m : Master) : Master :=
  fresh.foldl (fun m pid => m.spawnWorker pid) m

def Master.resetVariables (m : Master) : Master :=
  { m with startTime := m.clock, endOfRound := false }

def Master.getRoundDuration (m : Master) : ℤ :=
  if m.config.useVariableCheckIntervals then 60 else m.config.minTimeBetweenRoundsSec

def Master.timeToNextLoop (m : Master) : ℤ :=
  m.getRoundDuration * seconds - (m.clock - m.startTime)

def Master.getMoreSites (m : Master) : Master :=
  let m := { m with gettingSites := true, inRound := true }
  if m.endOfRound then { m with roundTimers := m.roundTimers ++ [m.clock + m.timeToNextLoop] }
  else
    let (query, cursor, wrapped) := getNextBatch m.config m.cursor
    { m with endOfRound := wrapped, cursor := cursor, queries := m.queries ++ [query] }

def Master.maybeEndRound (m : Master) : Master :=
  if m.inRound = true ∧ m.arrObjects.length = 0 ∧ m.arrWorkers.length = m.freeWorkers.length then
    { m with inRound := false, roundSitesCount := 0 }
  else m

/-- The size get_work_dataset goes by; `none` is the default argument null. -/
def Master.datasetLimit (size : Option ℤ) (m : Master) : ℕ :=
  match size with
  | none => m.config.datasetSize
  | some n => if n < 1 ∨ m.config.datasetSize < n then m.config.datasetSize else n.toNat

def Master.getWorkDataset (size : Option ℤ) (m : Master) : List Site × Master :=
  if m.arrObjects.length < 1 then ([], m)
  else
    let n := min m.arrObjects.length (m.datasetLimit size)
    (m.arrObjects.take n, { m with arrObjects := m.arrObjects.drop n })

def Master.assignWorkToWorker (pid : Pid) (size : Option ℤ) (m : Master) : Master :=
  match m.getWorker pid with
  | none => m
  | some worker =>
    if pid ∈ m.haltedWorkers then m
    else
      let (dataset, m) := m.getWorkDataset size
      if dataset.length = 0 then m else m.send worker (.queueAdd dataset)

def Master.sendWork (pid : Pid) (m : Master) : Master :=
  if m.config.numWorkers < m.arrWorkers.length then
    match m.getWorker pid with
    | none => m
    | some worker => m.send worker .evaporate
  else if m.arrObjects.length = 0 then
    let m := if pid ∉ m.haltedWorkers ∧ pid ∉ m.freeWorkers then
      { m with freeWorkers := m.freeWorkers ++ [pid] } else m
    let m := if m.gettingSites then m else Master.getMoreSites { m with gettingSites := true }
    m.maybeEndRound
  else m.assignWorkToWorker pid none

def Master.freeWorkersToWork (m : Master) : Master :=
  if m.arrObjects.length = 0 then m
  else
    m.freeWorkers.foldl
      (fun m pid => if (m.getWorker pid).isSome then m.sendWork pid else m)
      { m with freeWorkers := [] }

/-- The callbacks of execQuery, getNextBatch and getMoreSites for one answer of the
database. -/
def Master.batchCallback (answer : QueryAnswer) (m : Master) : Master :=
  match answer with
  | .error => { m with cursor := m.cursor.restore m.config }
  | .rows [] => m.getMoreSites
  | .rows rows =>
    Master.freeWorkersToWork
      { m with arrObjects := m.arrObjects ++ rows.map Site.ofRow, gettingSites := false }

def Master.addServerToLocalRetries (server : Site) (m : Master) : Master :=
  if m.localRetries.any fun s => s.blogId == server.blogId && s.monitorUrl == server.monitorUrl
  then m
  else { m with localRetries := m.localRetries ++ [{ server with processed := false }] }

def Master.hostCheckRequest (server : Site) (m : Master) : Master :=
  let checkServer : RetryEntry :=
    { blogId := server.blogId
      monitorUrl := server.monitorUrl
      statusId := server.siteStatus
      siteStatus := none
      lastCheck := server.lastCheck
      lastStatusChange := server.lastStatusChange
      checks := server.checks
      offlineConfirms := 0
      requestsSent := false
      requestsOutstanding := 0
      lastActivity := m.clock
      serial := m.nextSerial
      server := server }
  { m with queuedRetries := m.queuedRetries ++ [checkServer], nextSerial := m.nextSerial + 1 }

def Master.halt (pid : Pid) (m : Master) : Master :=
  if pid ∉ m.haltedWorkers ∧ (m.getWorker pid).isSome then
    { m with
      haltedWorkers := m.haltedWorkers ++ [pid]
      freeWorkers := m.freeWorkers.filter (· ≠ pid) }
  else m

def Master.stopWork (pid : Pid) (m : Master) : Master := (m.halt pid).maybeEndRound

def Master.addTotals (t : WorkTotals) (m : Master) : Master :=
  { m with
    gCountSuccess := m.gCountSuccess + t.running
    gCountError := m.gCountError + t.down
    gCountOffline := m.gCountOffline + t.confirmedDown
    sitesCount := m.sitesCount + t.sum
    roundSitesCount := m.roundSitesCount + t.sum }

def queueLeftToProcess (stats : WorkerStats) : ℤ := max 0 ((stats.queueLength : ℤ) - stats.pointer)

def Master.keepStats (pid : Pid) (stats : WorkerStats) (checkStats : CheckStats) (m : Master) :
    Master :=
  { m with
    checkStats := mergeStats m.checkStats checkStats
    workerStats := fun p => if p = pid then some stats else m.workerStats p }

def Master.topUp (pid : Pid) (stats : WorkerStats) (m : Master) : Master :=
  if queueLeftToProcess stats < m.config.numToProcess then
    m.assignWorkToWorker pid (some (m.config.datasetSize - queueLeftToProcess stats))
  else m

def Master.notify (server : Site) (m : Master) : Master :=
  { m with posted := m.posted ++ [.statusChange server] }

def Master.workerMsgCallback (pid : Pid) (msg : ToMaster) (m : Master) : Master :=
  match msg with
  | .totals workTotals => m.addTotals workTotals
  | .notifyStillDown server => m.notify { server with siteStatus := .confirmedDown }
  | .notifyStatusChange server => m.notify server
  | .stopWork => m.stopWork pid
  | .sendWork => m.sendWork pid
  | .recheck server =>
    if (server.checks.length : ℤ) < m.config.numOfChecks then m.addServerToLocalRetries server
    else m.hostCheckRequest server
  | .stats stats checkStats => (m.keepStats pid stats checkStats).topUp pid stats

def RetryEntry.concerns (e : RetryEntry) (data : Reply) : Bool :=
  e.blogId == data.blogId && e.monitorUrl == data.monitorUrl

def Reply.offline (data : Reply) : Bool := data.status == hostOffline

def RetryEntry.count (now : ℤ) (data : Reply) (e : RetryEntry) : RetryEntry :=
  { e with
    requestsOutstanding := e.requestsOutstanding - 1
    lastActivity := now
    checks := e.checks ++ [⟨.veriflierCheck, data.veriflierHost, data.status, data.rtt, data.code,
      data.errorCode⟩]
    offlineConfirms := if data.offline then e.offlineConfirms + 1 else e.offlineConfirms }

/-- checkHostStatus credits the first entry of queuedRetries for the reply's site. A
host_status_array message is several of these calls in a row. -/
def Master.checkHostStatus (data : Reply) (m : Master) : Master :=
  match m.queuedRetries.dropWhile fun e => !e.concerns data with
  | [] => m
  | e :: rest =>
    let skipped := m.queuedRetries.takeWhile fun e => !e.concerns data
    let counted := e.count m.clock data
    let credits := m.credits ++ [⟨e.serial, data⟩]
    if data.offline = true ∧ m.peerOfflineLimit ≤ counted.offlineConfirms then
      let retryServer := { counted with siteStatus := some .down }
      { m with
        queuedRetries := skipped ++ retryServer :: rest
        credits := credits
        posted := m.posted ++ [.siteDown retryServer] }
    else { m with queuedRetries := skipped ++ counted :: rest, credits := credits }

def Master.timedOut (m : Master) (e : RetryEntry) : Bool :=
  decide (e.requestsOutstanding ≤ 0) ||
    decide (e.lastActivity + m.config.timeoutForRequestsSec * seconds < m.clock)

def Master.markSent (m : Master) (e : RetryEntry) : RetryEntry :=
  { e with requestsSent := true, requestsOutstanding := m.config.verifiers.length }

/-- The first loop of processQueuedRetries: the entries to send, and what stays queued.
The loop runs from the end, so `sendRetries` is in reverse. -/
def Master.sweepRetries (m : Master) : List RetryEntry × Master :=
  let unsent := m.queuedRetries.filter fun e => !e.requestsSent
  let kept := m.queuedRetries.filterMap fun e =>
    if e.requestsSent then (if m.timedOut e then none else some e) else some (m.markSent e)
  (unsent.reverse.map m.markSent, { m with queuedRetries := kept })

def requestsFor (verifiers : List Veriflier) (batch : List RetryEntry) : List Request :=
  verifiers.zipIdx.flatMap fun v => batch.map fun e => ⟨v.2, v.1, e.serial, e.blogId, e.monitorUrl⟩

/-- The batches of the second loop, each cut from the end of what is left. -/
def sendBatches (batchSize : ℕ) : ℕ → List RetryEntry → List (List RetryEntry)
  | 0, _ => []
  | n + 1, sendRetries =>
    if sendRetries.length = 0 then []
    else
      let sending := min batchSize sendRetries.length
      sendRetries.drop (sendRetries.length - sending) ::
        sendBatches batchSize n (sendRetries.take (sendRetries.length - sending))

def Master.requestRetries (sendRetries : List RetryEntry) (m : Master) : Master :=
  let batchSize := if m.config.veriflierBatchSize = 0 then 200 else m.config.veriflierBatchSize
  let batches := sendBatches batchSize sendRetries.length sendRetries
  { m with requests := m.requests ++ batches.flatMap (requestsFor m.config.verifiers) }

def Master.retryDue (m : Master) (server : Site) : Bool :=
  match server.lastCheck with
  | none => true
  | some t => decide (t + m.config.timeBetweenChecksSec * seconds ≤ m.clock)

/-- A due site goes to the first free worker that still exists, else to the queue. The
flag is addedWork. -/
def Master.dispatchRetry (server : Site) (m : Master) : Master × Bool :=
  match m.freeWorkers.findIdx? fun pid => (m.getWorker pid).isSome with
  | some i =>
    match m.freeWorkers[i]? with
    | some pid =>
      (Master.send pid (.queueAdd [server]) { m with freeWorkers := m.freeWorkers.eraseIdx i },
        false)
    | none => (m, false)
  | none => ({ m with arrObjects := m.arrObjects ++ [server] }, true)

/-- One turn of the third loop; the sites that stay are put back in front. -/
def Master.retryStep (server : Site) (acc : Master × Bool) : Master × Bool :=
  if acc.1.retryDue server then
    let (m, added) := acc.1.dispatchRetry server
    (m, acc.2 || added)
  else ({ acc.1 with localRetries := server :: acc.1.localRetries }, acc.2)

def Master.retryLocally (m : Master) : Master :=
  let (m', addedWork) :=
    m.localRetries.foldr Master.retryStep ({ m with localRetries := [] }, false)
  if addedWork then m'.freeWorkersToWork else m'

def Master.processQueuedRetries (m : Master) : Master :=
  let (sendRetries, m) := m.sweepRetries
  (m.requestRetries sendRetries).retryLocally

def Master.overdue (m : Master) : Bool := m.config.debug && decide (m.timeToNextLoop < -20000)

def Master.watchdog (m : Master) : Master :=
  if m.overdue then
    { m.resetVariables with restartTimers := m.restartTimers ++ [m.clock + 100] }
  else m

def Master.clearCounters (m : Master) : Master :=
  { m with
    gCountSuccess := 0
    gCountError := 0
    gCountOffline := 0
    sitesCount := 0
    checkStats := emptyStats }

def Master.updateStats (m : Master) : Master := m.watchdog.clearCounters

def Master.reload (cfg : Config) (m : Master) : Master :=
  m.arrWorkers.foldl (fun m pid => m.send pid .configUpdate) { m with config := cfg }

/-- What can happen to the master. A timer or a query is named by its position. -/
inductive Event where
  | wait (now : ℤ)
  | reload (cfg : Config)
  | message (pid : Pid) (msg : ToMaster)
  | workerExit (pid : Pid) (code : ExitCode) (fresh : Pid)
  | ensureWorkerCount (fresh : List Pid)
  | queryDone (k : ℕ) (answer : QueryAnswer)
  | roundTimer (k : ℕ)
  | restartTimer (k : ℕ)
  | updateStats
  | processQueuedRetries
  | hostStatus (data : Reply)

def Event.spawned : Event → List Pid
  | .workerExit _ code fresh => if respawns code then [fresh] else []
  | .ensureWorkerCount fresh => fresh
  | _ => []

def Due (m : Master) (timers : List ℤ) (k : ℕ) : Prop := ∃ due ∈ timers[k]?, due ≤ m.clock

instance (m : Master) (timers : List ℤ) (k : ℕ) : Decidable (Due m timers k) := by
  unfold Due
  infer_instance

def Enabled (m : Master) : Event → Prop
  | .wait now => m.clock ≤ now
  | .ensureWorkerCount fresh => fresh.length = (m.config.numWorkers - m.arrWorkers.length).toNat
  | .queryDone k _ => k < m.queries.length
  | .roundTimer k => Due m m.roundTimers k
  | .restartTimer k => Due m m.restartTimers k
  | .reload _ | .message _ _ | .workerExit _ _ _ | .updateStats | .processQueuedRetries
  | .hostStatus _ => True

instance (m : Master) (e : Event) : Decidable (Enabled m e) := by
  unfold Enabled
  split <;> infer_instance

def handle (m : Master) : Event → Master
  | .wait now => { m with clock := now }
  | .reload cfg => m.reload cfg
  | .message pid msg => m.workerMsgCallback pid msg
  | .workerExit pid code fresh => m.workerExit pid code fresh
  | .ensureWorkerCount fresh => m.ensureWorkerCount fresh
  | .queryDone k answer => Master.batchCallback answer { m with queries := m.queries.eraseIdx k }
  | .roundTimer k =>
    Master.getMoreSites (Master.resetVariables { m with roundTimers := m.roundTimers.eraseIdx k })
  | .restartTimer k => Master.getMoreSites { m with restartTimers := m.restartTimers.eraseIdx k }
  | .updateStats => m.updateStats
  | .processQueuedRetries => m.processQueuedRetries
  | .hostStatus data => m.checkHostStatus data

def machine : Machine Master Event := ⟨fun m => ∃ cfg now, m = Master.boot cfg now, Enabled, handle⟩

instance (m : Master) (e : Event) : Decidable (machine.enabled m e) :=
  inferInstanceAs (Decidable (Enabled m e))

end MasterState

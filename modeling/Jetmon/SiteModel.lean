import Mathlib.Data.List.Basic
import Mathlib.Data.Int.Notation

/-! Data shared by the master (lib/jetmon.js) and its workers (lib/httpcheck.js):
the configuration, a monitored site, its check results and the messages of the
IPC channels. Times are milliseconds as returned by `Date.valueOf`. -/
namespace SiteModel

abbrev Pid := ℕ

def seconds : ℤ := 1000
def minutes : ℤ := 60 * seconds

/-- SITE_DOWN, SITE_RUNNING and SITE_CONFIRMED_DOWN. -/
inductive SiteStatus where
  | down | running | confirmedDown
  deriving DecidableEq, Repr

def SiteStatus.code : SiteStatus → ℤ
  | .down => 0
  | .running => 1
  | .confirmedDown => 2

def hostOffline : ℤ := 0

/-- The exit codes SUICIDE_SIGNAL, EXIT_MAXRAMUSAGE and EXIT_MAXCHECKS, the code 130 of
an interrupted process, and any other way a process can end. -/
inductive ExitCode where
  | suicideSignal | maxRamUsage | maxChecks | interrupted | other
  deriving DecidableEq, Repr

structure Veriflier where
  name : String
  host : String
  port : String
  authToken : String
  deriving DecidableEq, Repr

/-- config/config.json. The two bounds are those under which config.readme gives
NUM_TO_PROCESS and DATASET_SIZE a meaning. -/
structure Config where
  debug : Bool
  numWorkers : ℤ
  numToProcess : ℕ
  datasetSize : ℕ
  workerMaxChecks : ℤ
  workerMaxMemMb : ℤ
  bucketNoMin : ℤ
  bucketNoMax : ℤ
  batchSize : ℤ
  veriflierBatchSize : ℕ
  peerOfflineLimit : ℕ
  numOfChecks : ℤ
  timeBetweenChecksSec : ℤ
  timeBetweenNoticesMin : ℤ
  minTimeBetweenRoundsSec : ℤ
  timeoutForRequestsSec : ℤ
  useVariableCheckIntervals : Bool
  verifiers : List Veriflier
  numToProcess_pos : 0 < numToProcess
  datasetSize_pos : 0 < datasetSize

/-- The values of config-sample.json, with one veriflier as shipped. -/
def sampleConfig : Config where
  debug := true
  numWorkers := 60
  numToProcess := 40
  datasetSize := 100
  workerMaxChecks := 10000
  workerMaxMemMb := 53
  bucketNoMin := 0
  bucketNoMax := 512
  batchSize := 32
  veriflierBatchSize := 200
  peerOfflineLimit := 3
  numOfChecks := 3
  timeBetweenChecksSec := 30
  timeBetweenNoticesMin := 59
  minTimeBetweenRoundsSec := 300
  timeoutForRequestsSec := 60
  useVariableCheckIntervals := false
  verifiers := [⟨"Veriflier 1", "veriflier", "<VERIFLIER_PORT>", "<VERIFLIER_AUTH_TOKEN>"⟩]
  numToProcess_pos := by decide
  datasetSize_pos := by decide

def oneWorker : Config := { sampleConfig with numWorkers := 1 }

def sampleVeriflier : Veriflier := ⟨"Veriflier 1", "veriflier1.example.com", "7801", "token"⟩

inductive CheckType where
  | jetmonCheck | veriflierCheck
  deriving DecidableEq, Repr

structure CheckResult where
  type : CheckType
  host : String
  status : ℤ
  rtt : ℤ
  code : ℤ
  errorCode : ℤ
  deriving DecidableEq, Repr

/-- A row of jetpack_monitor_sites as selected by getNextBatch. -/
structure Row where
  blogId : ℕ
  monitorUrl : String
  siteStatus : SiteStatus
  lastStatusChange : Option ℤ
  deriving DecidableEq, Repr

/-- Auxiliary record of one local check: when http_check was called, when its
callback ran, and the verdict. -/
structure LocalCheck where
  started : ℤ
  finished : ℤ
  up : Bool
  deriving DecidableEq, Repr

/-- The `server` object. `fetched` and `history` are auxiliary: the row it was built
from, and its local checks in order. No branch of the program reads them. -/
structure Site where
  blogId : ℕ
  monitorUrl : String
  siteStatus : SiteStatus
  lastStatusChange : ℤ
  processed : Bool
  oldStatus : SiteStatus
  lastCheck : Option ℤ
  checks : List CheckResult
  fetched : Row
  history : List LocalCheck
  deriving DecidableEq, Repr

/-- The loop body of the getMoreSites callback; a NULL timestamp becomes 0. -/
def Site.ofRow (row : Row) : Site where
  blogId := row.blogId
  monitorUrl := row.monitorUrl
  siteStatus := row.siteStatus
  lastStatusChange := row.lastStatusChange.getD 0
  processed := false
  oldStatus := row.siteStatus
  lastCheck := none
  checks := []
  fetched := row
  history := []

inductive StatsKey where
  | up | down | stillDown
  deriving DecidableEq, Repr

def SiteStatus.statsKey : SiteStatus → StatsKey
  | .running => .up
  | .down => .down
  | .confirmedDown => .stillDown

structure RttStats where
  count : ℕ
  sum : ℤ
  max : ℤ
  min : ℤ
  deriving DecidableEq, Repr

/-- Counters by code; a key absent from the object counts 0. -/
structure StatusStats where
  httpCode : ℤ → ℕ
  errorCode : ℤ → ℕ
  rtt : RttStats

abbrev CheckStats := StatsKey → Option StatusStats

def emptyStats : CheckStats := fun _ => none

def bump (f : ℤ → ℕ) (code : ℤ) : ℤ → ℕ := fun c => if c = code then f c + 1 else f c

def roundRtt (rtt : ℤ) : ℤ := (rtt + 500) / 1000

def recordStats (stats : CheckStats) (status : SiteStatus) (rtt httpCode errorCode : ℤ) :
    CheckStats :=
  let statsRtt := roundRtt rtt
  let entry : StatusStats :=
    match stats status.statsKey with
    | some old =>
      { httpCode := bump old.httpCode httpCode
        errorCode := if errorCode ≠ 0 then bump old.errorCode errorCode else old.errorCode
        rtt := ⟨old.rtt.count + 1, old.rtt.sum + statsRtt, max old.rtt.max statsRtt,
          min old.rtt.min statsRtt⟩ }
    | none =>
      { httpCode := bump (fun _ => 0) httpCode
        errorCode := if errorCode ≠ 0 then bump (fun _ => 0) errorCode else fun _ => 0
        rtt := ⟨1, statsRtt, statsRtt, statsRtt⟩ }
  fun key => if key = status.statsKey then some entry else stats key

/-- `if ( mine[code] ) mine[code] += theirs[code] else mine[code] = theirs[code]`
for every code of theirs. -/
def addCounts (mine theirs : ℤ → ℕ) : ℤ → ℕ := fun code =>
  if theirs code = 0 then mine code
  else if mine code ≠ 0 then mine code + theirs code else theirs code

def mergeStatus (mine theirs : StatusStats) : StatusStats where
  httpCode := addCounts mine.httpCode theirs.httpCode
  errorCode := addCounts mine.errorCode theirs.errorCode
  rtt := ⟨mine.rtt.count + theirs.rtt.count, mine.rtt.sum + theirs.rtt.sum,
    max mine.rtt.max theirs.rtt.max, min mine.rtt.min theirs.rtt.min⟩

def mergeStats (mine theirs : CheckStats) : CheckStats := fun key =>
  match theirs key with
  | none => mine key
  | some t =>
    match mine key with
    | some m => some (mergeStatus m t)
    | none => some t

/-- `msg.stats` without its checkStats, as kept in workerStats. -/
structure WorkerStats where
  queueLength : ℕ
  pointer : ℕ
  activeChecks : ℤ
  totalChecks : ℤ
  memoryUsage : ℤ
  uptime : ℤ
  deriving DecidableEq, Repr

structure WorkTotals where
  down : ℕ
  running : ℕ
  confirmedDown : ℕ
  deriving DecidableEq, Repr

def WorkTotals.add (t : WorkTotals) : SiteStatus → WorkTotals
  | .down => { t with down := t.down + 1 }
  | .running => { t with running := t.running + 1 }
  | .confirmedDown => { t with confirmedDown := t.confirmedDown + 1 }

def WorkTotals.sum (t : WorkTotals) : ℕ := t.down + t.running + t.confirmedDown

inductive ToWorker where
  | queueAdd (payload : List Site)
  | evaporate
  | configUpdate
  deriving DecidableEq, Repr

inductive ToMaster where
  | totals (workTotals : WorkTotals)
  | recheck (server : Site)
  | notifyStatusChange (server : Site)
  | notifyStillDown (server : Site)
  | stopWork
  | sendWork
  | stats (stats : WorkerStats) (checkStats : CheckStats)

def ToWorker.sites : ToWorker → List Site
  | .queueAdd payload => payload
  | .evaporate | .configUpdate => []

/-- A payload is not empty, and its sites satisfy `P`. -/
def ToWorker.Carries (P : Site → Prop) : ToWorker → Prop
  | .queueAdd payload => payload ≠ [] ∧ ∀ s ∈ payload, P s
  | .evaporate | .configUpdate => True

end SiteModel

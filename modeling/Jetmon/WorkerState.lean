import Jetmon.SiteModel
import Jetmon.TransitionSystem

/-! One worker process, lib/httpcheck.js. A handler runs to completion at one clock
reading and returns the messages it sends. `checkTimers`, `startupTimer`, `outstanding`
and `exit` belong to the runtime; `added`, `started` and `finished` are histories that
no branch reads. -/
namespace WorkerState

open SiteModel
open TransitionSystem

/-- A check handed to the addon: the index passed to http_check, the time of the call,
and the site it was called for. -/
structure Outstanding where
  index : ℕ
  since : ℤ
  site : Site
  deriving DecidableEq, Repr

/-- The last three arguments of the callback, and the memory in use when it runs. -/
structure Result where
  rtt : ℤ
  httpCode : ℤ
  errorCode : ℤ
  rss : ℤ
  deriving DecidableEq, Repr

structure Worker where
  config : Config
  hostname : String
  arrCheck : List Site
  running : Bool
  askedForWork : Bool
  availableForWork : Bool
  suicideSignal : Bool
  pointer : ℕ
  activeChecks : ℤ
  totalChecks : ℤ
  createdTime : ℤ
  maxChecks : Option ℤ
  maxMemUsage : Option ℤ
  workerTotals : WorkTotals
  checkStats : CheckStats
  checkTimers : ℕ
  startupTimer : Bool
  outstanding : List Outstanding
  exit : Option ExitCode
  added : List Site
  started : List Site
  finished : List Site

/-- HttpChecker.reloadConfig. The `seed` is Math.floor( Math.random() * maxChecks );
`none` stands for Number.MAX_VALUE. -/
def Worker.reloadConfig (seed : ℤ) (w : Worker) : Worker :=
  let maxMemUsage := if w.config.workerMaxMemMb = 0 then 96 else w.config.workerMaxMemMb
  { w with
    totalChecks := if 0 < w.config.workerMaxChecks then seed else w.totalChecks
    maxChecks := if 0 < w.config.workerMaxChecks then some w.config.workerMaxChecks else none
    maxMemUsage := if 0 < maxMemUsage then some (maxMemUsage * 1024 * 1024) else none }

/-- The module's initial values, followed by its call of reloadConfig. -/
def Worker.boot (cfg : Config) (hostname : String) (now seed : ℤ) : Worker :=
  Worker.reloadConfig seed
    { config := cfg, hostname := hostname, arrCheck := [], running := false
      askedForWork := false, availableForWork := true, suicideSignal := false
      pointer := 0, activeChecks := 0, totalChecks := 0, createdTime := now
      maxChecks := some 0, maxMemUsage := some 0, workerTotals := ⟨0, 0, 0⟩
      checkStats := emptyStats, checkTimers := 0, startupTimer := true
      outstanding := [], exit := none, added := [], started := [], finished := [] }

/-- `limit < x`, where no limit is Number.MAX_VALUE. -/
def exceeds (limit : Option ℤ) (x : ℤ) : Bool :=
  match limit with
  | none => false
  | some l => decide (l < x)

def Worker.startCheck (now : ℤ) (w : Worker) : Worker :=
  match w.arrCheck[w.pointer]? with
  | some server =>
    { w with
      activeChecks := w.activeChecks + 1
      totalChecks := w.totalChecks + 1
      outstanding := w.outstanding ++ [⟨w.pointer, now, server⟩]
      started := w.started ++ [server]
      pointer := w.pointer + 1 }
  | none => w

def Worker.startChecks (now : ℤ) : ℕ → Worker → Worker
  | 0, w => w
  | n + 1, w => startChecks now n (w.startCheck now)

def Worker.checkServers (now : ℤ) (w : Worker) : Worker :=
  let pointerCurrentMax := min (w.pointer + w.config.numToProcess) w.arrCheck.length
  w.startChecks now (pointerCurrentMax - w.pointer)

def Worker.judge (w : Worker) (now : ℤ) (res : Result) (server : Site) : SiteStatus :=
  if 0 < res.rtt ∧ res.httpCode < 400 ∧ res.httpCode ≠ 0 then .running
  else if server.oldStatus = .running ∨ (server.oldStatus ≠ .confirmedDown ∧
      now < server.lastStatusChange + w.config.timeBetweenNoticesMin * minutes) then .down
  else .confirmedDown

/-- The fields of `server` after its result; the check is reported when the status
differs from the one in the database. -/
def Worker.applyResult (w : Worker) (now since : ℤ) (res : Result) (server : Site) : Site :=
  let status := w.judge now res server
  { server with
    processed := true
    lastCheck := some now
    siteStatus := status
    checks :=
      if status ≠ server.oldStatus then
        server.checks ++ [⟨.jetmonCheck, w.hostname, status.code, roundRtt res.rtt,
          res.httpCode, res.errorCode⟩]
      else server.checks
    history := server.history ++ [⟨since, now, decide (status = .running)⟩] }

def statusMessages (server : Site) : List ToMaster :=
  if server.siteStatus ≠ server.oldStatus then
    match server.siteStatus with
    | .down => [.recheck server]
    | .running => [.notifyStatusChange server]
    | .confirmedDown => [.notifyStillDown server]
  else []

def Worker.mustStop (w : Worker) (rss : ℤ) : Bool :=
  w.suicideSignal || exceeds w.maxMemUsage rss || exceeds w.maxChecks w.totalChecks

def Worker.exitCode (w : Worker) : ExitCode :=
  if w.suicideSignal then .suicideSignal
  else if exceeds w.maxChecks w.totalChecks then .maxChecks
  else .maxRamUsage

def Worker.waitingFor (w : Worker) : ℕ := w.arrCheck.countP fun server => !server.processed

def Worker.stopDecision (rss : ℤ) (w : Worker) : Worker × List ToMaster :=
  if w.availableForWork && w.mustStop rss then
    ({ w with availableForWork := false }, [.stopWork])
  else (w, [])

def Worker.settle (w : Worker) : Worker :=
  if w.waitingFor = 0 then
    if w.availableForWork then { w with arrCheck := [], running := false }
    else { w with exit := some w.exitCode }
  else w

def Worker.askForWork (w : Worker) : Worker × List ToMaster :=
  if w.exit.isNone && w.availableForWork && !w.askedForWork then
    ({ w with askedForWork := true }, [.sendWork])
  else (w, [])

/-- The branch of processResultsCallback for a queue with no unstarted site. -/
def Worker.endOfQueue (rss : ℤ) (w : Worker) : Worker × List ToMaster :=
  let (w₁, stop) := w.stopDecision rss
  let (w₂, ask) := w₁.settle.askForWork
  (w₂, stop ++ ask)

def Worker.noteResult (serverArrayIndex : ℕ) (server : Site) (w : Worker) : Worker :=
  { w with
    activeChecks := w.activeChecks - 1
    arrCheck := w.arrCheck.set serverArrayIndex server
    workerTotals := w.workerTotals.add server.siteStatus }

def Worker.continueQueue (now rss : ℤ) (w : Worker) : Worker × List ToMaster :=
  if w.pointer < w.arrCheck.length then (w.startCheck now, []) else w.endOfQueue rss

def Worker.storeStats (status : SiteStatus) (res : Result) (w : Worker) : Worker :=
  if w.exit.isNone then
    { w with checkStats := recordStats w.checkStats status res.rtt res.httpCode res.errorCode }
  else w

/-- HttpChecker.processResultsCallback. An index outside the array raises a TypeError
that nothing catches. -/
def Worker.processResultsCallback (now : ℤ) (serverArrayIndex : ℕ) (since : ℤ) (res : Result)
    (w : Worker) : Worker × List ToMaster :=
  match w.arrCheck[serverArrayIndex]? with
  | none => ({ w with activeChecks := w.activeChecks - 1, exit := some .other }, [])
  | some old =>
    let server := w.applyResult now since res old
    let (w', msgs) := (w.noteResult serverArrayIndex server).continueQueue now res.rss
    (w'.storeStats server.siteStatus res, statusMessages server ++ msgs)

def Worker.addToQueue (arrData : List Site) (w : Worker) : Worker :=
  if w.running then { w with arrCheck := w.arrCheck ++ arrData, added := w.added ++ arrData }
  else
    { w with
      arrCheck := arrData
      pointer := 0
      running := true
      checkTimers := w.checkTimers + 1
      added := w.added ++ arrData }

def Worker.sendStats (w : Worker) : Worker × List ToMaster :=
  ({ w with workerTotals := ⟨0, 0, 0⟩ },
    if w.workerTotals.sum ≠ 0 then [.totals w.workerTotals] else [])

def Worker.reportStats (now rss : ℤ) (w : Worker) : Worker × List ToMaster :=
  ({ w with checkStats := emptyStats },
    [.stats ⟨w.arrCheck.length, w.pointer, w.activeChecks, w.totalChecks, rss,
      now - w.createdTime⟩ w.checkStats])

/-- What can happen in a worker: a message of the master, a timer, a finished check. -/
inductive Event where
  | queueAdd (payload : List Site)
  | evaporate
  | configUpdate (cfg : Config) (seed : ℤ)
  | checkTimer (now : ℤ)
  | complete (k : ℕ) (now : ℤ) (res : Result)
  | startup
  | totalsTick
  | statsTick (now rss : ℤ)

def SeedFor (cfg : Config) (seed : ℤ) : Prop :=
  cfg.workerMaxChecks ≤ 0 ∨ (0 ≤ seed ∧ seed < cfg.workerMaxChecks)

instance (cfg : Config) (seed : ℤ) : Decidable (SeedFor cfg seed) := by
  unfold SeedFor
  infer_instance

def Enabled (w : Worker) : Event → Prop
  | .queueAdd _ | .evaporate | .totalsTick | .statsTick _ _ => w.exit = none
  | .configUpdate cfg seed => w.exit = none ∧ SeedFor cfg seed
  | .checkTimer _ => w.exit = none ∧ 0 < w.checkTimers
  | .complete k _ _ => w.exit = none ∧ k < w.outstanding.length
  | .startup => w.exit = none ∧ w.startupTimer = true

instance (w : Worker) (e : Event) : Decidable (Enabled w e) := by
  unfold Enabled
  split <;> infer_instance

def handle (w : Worker) : Event → Worker × List ToMaster
  | .queueAdd payload => (Worker.addToQueue payload { w with askedForWork := false }, [])
  | .evaporate =>
    if w.running then ({ w with suicideSignal := true }, [])
    else ({ w with exit := some .suicideSignal }, [])
  | .configUpdate cfg seed => (Worker.reloadConfig seed { w with config := cfg }, [])
  | .checkTimer now => (Worker.checkServers now { w with checkTimers := w.checkTimers - 1 }, [])
  | .complete k now res =>
    match w.outstanding[k]? with
    | none => (w, [])
    | some o =>
      Worker.processResultsCallback now o.index o.since res
        { w with outstanding := w.outstanding.eraseIdx k, finished := w.finished ++ [o.site] }
  | .startup => ({ w with startupTimer := false, askedForWork := true }, [.sendWork])
  | .totalsTick => w.sendStats
  | .statsTick now rss => w.reportStats now rss

def Booted (w : Worker) : Prop :=
  ∃ cfg hostname now seed, SeedFor cfg seed ∧ w = Worker.boot cfg hostname now seed

def machine : Machine Worker Event := ⟨Booted, Enabled, fun w e => (handle w e).1⟩

end WorkerState

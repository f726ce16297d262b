import Jetmon.JsonValue
import Jetmon.SlotTally
import Jetmon.TransitionSystem

/-! The veriflier's CheckController, source/check_controller.cpp: the checks that client
threads add, the runners that perform them, and the results that wait for the next tick.
A signal emitted on a client thread is delivered later, one emitted on the controller's own
thread at once. The counters are integers without a bound. -/
namespace CheckController

open JsonValue

/-- NOT_ASSIGNED, PRE_ASSIGNED, or the index of a runner. -/
inductive ThreadIndex where
  | notAssigned | preAssigned | runner (index : ℕ)
  deriving DecidableEq, Repr

/-- m_checks, the signals and the checkers hold pointers: `address` is where the object is. -/
structure HealthCheck where
  address : ℕ
  blogId : Int32
  monitorUrl : String
  jetmonServer : String
  threadIndex : ThreadIndex
  deriving DecidableEq, Repr

def HealthCheck.site (hc : HealthCheck) : Int32 × String := (hc.blogId, hc.monitorUrl)

structure Settings where
  maxRunners : ℕ
  maxChecks : ℕ
  authToken : String
  maxRunners_pos : 0 < maxRunners
  maxChecks_pos : 0 < maxChecks

/-- What sendToJetmonServer is called with: the document is the body, behind its header. -/
structure Payload where
  jetmonServer : String
  document : Json ℤ

/-- A check of a request that was received and answered with sendOK when `sentBefore` payloads
had been handed over. -/
structure Ack where
  jetmonServer : String
  site : Int32 × String
  sentBefore : ℕ
  deriving DecidableEq, Repr

/-- `pending` are the startCheck signals on their way to the controller's thread, `running`
the checks that were started and have not finished. The fields from `sent` on are histories:
the payloads, the entries as they were appended to m_checks and as startCheck was emitted for
them, the results of finished checks with the servers of their entries, and the requests.
`checkResults` keeps the order in which the servers came, where a QMap goes by its keys. -/
structure State where
  checks : List HealthCheck
  runners : List ℤ
  checking : ℤ
  checkResults : List (String × Json ℤ)
  pending : List ℕ
  running : List ℕ
  sent : List Payload
  inserted : List HealthCheck
  emitted : List HealthCheck
  finished : List (String × Json ℤ)
  acknowledged : List Ack

def sameSite (blogId : Int32) (monitorUrl : String) (hc : HealthCheck) : Bool :=
  hc.blogId == blogId && hc.monitorUrl == monitorUrl

def haveCheck (checks : List HealthCheck) (blogId : Int32) (monitorUrl : String) : Bool :=
  checks.any (sameSite blogId monitorUrl)

def selectFrom (min : ℤ) (minIndex index : ℕ) : List ℤ → ℕ
  | [] => minIndex
  | checking :: rest =>
    if checking < min then selectFrom checking index (index + 1) rest
    else selectFrom min minIndex (index + 1) rest

def setThreadIndex (address : ℕ) (threadIndex : ThreadIndex) (checks : List HealthCheck) :
    List HealthCheck :=
  checks.map fun hc => if hc.address = address then { hc with threadIndex := threadIndex } else hc

variable (P : Settings)

def selectRunner (runners : List ℤ) : ℕ := selectFrom P.maxChecks 0 0 runners

def capacity (s : State) : ℤ := s.runners.length * P.maxChecks

def startChecking (s : State) (address : ℕ) : State :=
  let runner := selectRunner P s.runners
  { s with
    checking := s.checking + 1
    runners := s.runners.modify runner (· + 1)
    checks := setThreadIndex address (.runner runner) s.checks
    running := s.running ++ [address] }

/-- Called on a client thread, so that the signal is queued. -/
def addCheck (s : State) (hc : HealthCheck) : State :=
  if haveCheck s.checks hc.blogId hc.monitorUrl then s
  else if s.checking < capacity P s then
    { s with
      checks := s.checks ++ [{ hc with threadIndex := .preAssigned }]
      pending := s.pending ++ [hc.address]
      inserted := s.inserted ++ [hc]
      emitted := s.emitted ++ [hc] }
  else { s with checks := s.checks ++ [hc], inserted := s.inserted ++ [hc] }

def addChecks (s : State) (hcs : List HealthCheck) : State := hcs.foldl (addCheck P) s

/-- The end of ClientThread::run for a valid request. Other steps may come between sendOK and
addChecks: `sentBefore` is from the time when the request was received. -/
def serveRequest (s : State) (hcs : List HealthCheck) (sentBefore : ℕ) : State :=
  { addChecks P s hcs with
    acknowledged := s.acknowledged ++
      hcs.map fun hc => ⟨hc.jetmonServer, hc.site, sentBefore⟩ }

/-- `arr_result`; a QJsonObject keeps its members in the order of their keys. -/
def arrResult (site : Int32 × String) (status httpCode rtt : Int32) : Json ℤ :=
  .obj [("blog_id", .num site.1.toInt), ("code", .num httpCode.toInt),
    ("monitor_url", .str site.2), ("rtt", .num rtt.toInt), ("status", .num status.toInt)]

def resultDocument (authToken : String) (checks : List (Json ℤ)) : Json ℤ :=
  .obj [("auth_token", .str authToken), ("checks", .arr checks)]

def checksOf (document : Json ℤ) : List (Json ℤ) :=
  match document.get "checks" with
  | some (.arr checks) => checks
  | _ => []

def waitingFor (checkResults : List (String × Json ℤ)) (jetmonServer : String) : List (Json ℤ) :=
  match lookup jetmonServer checkResults with
  | some document => checksOf document
  | none => []

def addResult (checkResults : List (String × Json ℤ)) (jetmonServer : String) (result : Json ℤ) :
    List (String × Json ℤ) :=
  setMember jetmonServer
    (resultDocument P.authToken (waitingFor checkResults jetmonServer ++ [result])) checkResults

def decrement (threadIndex : ThreadIndex) (runners : List ℤ) : List ℤ :=
  match threadIndex with
  | .runner index => runners.modify index (· - 1)
  | .notAssigned | .preAssigned => runners

/-- The end of finishedChecking: the signal is emitted on the controller's thread. -/
def startWaiting (s : State) : State :=
  if s.checking < capacity P s then
    match s.checks.find? fun hc => hc.threadIndex = .notAssigned with
    | none => s
    | some hc =>
      startChecking P
        { s with
          checks := setThreadIndex hc.address .preAssigned s.checks
          emitted := s.emitted ++ [hc] }
        hc.address
  else s

def finishedChecking (s : State) (threadIndex : ThreadIndex) (site : Int32 × String)
    (status httpCode rtt : Int32) : State :=
  match s.checks.find? (sameSite site.1 site.2) with
  | none => startWaiting P s
  | some hc =>
    startWaiting P
      { s with
        checks := s.checks.eraseP (sameSite site.1 site.2)
        checkResults := addResult P s.checkResults hc.jetmonServer
          (arrResult site status httpCode rtt)
        runners := decrement threadIndex s.runners
        checking := s.checking - 1
        finished := s.finished ++ [(hc.jetmonServer, arrResult site status httpCode rtt)] }

/-- A checker reads the fields of its object again when it is done. -/
def finishedCheck (s : State) (address : ℕ) (status httpCode rtt : Int32) : State :=
  match s.checks.find? fun hc => hc.address = address with
  | none => s
  | some hc =>
    finishedChecking P { s with running := s.running.erase address } hc.threadIndex hc.site
      status httpCode rtt

/-- The keys are addresses, which the conversions to and from std::string leave as they are. -/
def sendResults (s : State) : State :=
  { s with
    checkResults := []
    sent := s.sent ++ s.checkResults.map fun m => ⟨m.1, m.2⟩ }

inductive Event where
  | request (hcs : List HealthCheck) (sentBefore : ℕ)
  | startCheck (address : ℕ)
  | finishedCheck (address : ℕ) (status httpCode rtt : Int32)
  | ticked
  deriving DecidableEq, Repr

/-- The objects of a request are new and carry the address of the one client. Signals are
delivered and checks finish in any order. -/
def Enabled (s : State) : Event → Prop
  | .request hcs sentBefore => sentBefore ≤ s.sent.length ∧ (hcs.map HealthCheck.address).Nodup ∧
      (∀ hc ∈ hcs, hc.threadIndex = .notAssigned ∧ hc.address ∉ s.checks.map HealthCheck.address) ∧
      ∀ hc ∈ hcs, ∀ hc' ∈ hcs, hc.jetmonServer = hc'.jetmonServer
  | .startCheck address => address ∈ s.pending
  | .finishedCheck address _ _ _ => address ∈ s.running
  | .ticked => True

instance (s : State) (e : Event) : Decidable (Enabled s e) :=
  match e with
  | .request hcs sentBefore => inferInstanceAs (Decidable (sentBefore ≤ s.sent.length ∧
      (hcs.map HealthCheck.address).Nodup ∧
      (∀ hc ∈ hcs, hc.threadIndex = .notAssigned ∧ hc.address ∉ s.checks.map HealthCheck.address) ∧
      ∀ hc ∈ hcs, ∀ hc' ∈ hcs, hc.jetmonServer = hc'.jetmonServer))
  | .startCheck address => inferInstanceAs (Decidable (address ∈ s.pending))
  | .finishedCheck address _ _ _ => inferInstanceAs (Decidable (address ∈ s.running))
  | .ticked => isTrue trivial

def next (s : State) : Event → State
  | .request hcs sentBefore => serveRequest P s hcs sentBefore
  | .startCheck address => startChecking P { s with pending := s.pending.erase address } address
  | .finishedCheck address status httpCode rtt => finishedCheck P s address status httpCode rtt
  | .ticked => sendResults s

def initial : State where
  checks := []
  runners := List.replicate P.maxRunners 0
  checking := 0
  checkResults := []
  pending := []
  running := []
  sent := []
  inserted := []
  emitted := []
  finished := []
  acknowledged := []

def controller : TransitionSystem.Machine State Event where
  start s := s = initial P
  enabled := Enabled
  next := next P

instance (s : State) (e : Event) : Decidable ((controller P).enabled s e) :=
  inferInstanceAs (Decidable (Enabled s e))

end CheckController

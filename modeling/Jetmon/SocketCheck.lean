import Jetmon.ResponseRead

/-! HTTP_Checker of the addon, call by call of the system: the constructor that fixes the
deadline, both ways to resolve and connect, the TLS handles, the request, the response and the
destructor. What the calls give, and the milliseconds they take, come from a peer for each
connection. -/
namespace SocketCheck

open TextSearch
open HostValues
open HttpVerdict
open RequestBuffer
open ResponseRead

/-- Whether init_socket gives a socket, and whether ::connect makes the connection. -/
structure Dial where
  socket : Bool
  accepts : Bool
  took : ℕ
  deriving DecidableEq, Repr

/-- A record of getaddrinfo; `internet` says that its family is AF_INET or AF_INET6. -/
structure Node where
  internet : Bool
  dial : Dial
  deriving DecidableEq, Repr

/-- SSL_CTX_new, SSL_CTX_load_verify_locations, SSL_new, BIO_new_socket and SSL_connect. -/
structure Tls where
  context : Bool
  locations : Bool
  session : Bool
  bio : Bool
  handshake : Bool
  took : ℕ
  deriving DecidableEq, Repr

/-- Whether a send takes all that it is given, or whether SSL_shutdown gives 1. -/
structure Reply where
  done : Bool
  took : ℕ
  deriving DecidableEq, Repr

/-- One connection. The lookups give nothing where they fail. -/
structure Peer where
  nodes : Option (List Node)
  host : Option Dial
  lookup : ℕ
  tls : Tls
  sends : ℕ → Reply
  rounds : ℕ → Round
  shutdowns : ℕ → Reply

/-- Which of connect_getaddrinfo and connect_gethostbyname is compiled. -/
inductive Resolution where
  | getaddrinfo | gethostbyname
  deriving DecidableEq, Repr

/-- A connection attempt: the members it was made with, and the port that it goes to. -/
structure Attempt where
  target : Target
  port : ℤ
  deriving DecidableEq, Repr

structure Dialled where
  made : Bool
  now : ℕ
  attempts : List Attempt
  deriving DecidableEq, Repr

def servicePort (isSsl : Bool) : ℤ := if isSsl then 443 else 80

def tryNodes (cutoff : ℕ) (h : Target) : List Node → ℕ → Dialled
  | [], now => ⟨false, now, []⟩
  | node :: nodes, now =>
    if seconds now < cutoff then
      if node.internet = false ∨ node.dial.socket = false then tryNodes cutoff h nodes now
      else
        let attempt : Attempt := ⟨h, servicePort h.isSsl⟩
        if node.dial.accepts then ⟨true, now + node.dial.took, [attempt]⟩
        else
          let d := tryNodes cutoff h nodes (now + node.dial.took)
          { d with attempts := attempt :: d.attempts }
    else ⟨false, now, []⟩

def connectGetaddrinfo (cutoff : ℕ) (h : Target) (peer : Peer) (now : ℕ) : Dialled :=
  match peer.nodes with
  | none => ⟨false, now + peer.lookup, []⟩
  | some nodes => tryNodes cutoff h nodes (now + peer.lookup)

/-- HTTP_Checker::connect_gethostbyname. htons takes the low 16 bits. -/
def connectGethostbyname (h : Target) (peer : Peer) (now : ℕ) : Dialled :=
  match peer.host with
  | none => ⟨false, now + peer.lookup, []⟩
  | some dial =>
    if dial.socket then ⟨dial.accepts, now + peer.lookup + dial.took, [⟨h, h.port % 65536⟩]⟩
    else ⟨false, now + peer.lookup, []⟩

def resolve (resolution : Resolution) (cutoff : ℕ) (h : Target) (peer : Peer) (now : ℕ) : Dialled :=
  match resolution with
  | .getaddrinfo => connectGetaddrinfo cutoff h peer now
  | .gethostbyname => connectGethostbyname h peer now

/-- m_ctx and m_ssl, with all handles that were created, freed, or overwritten before they were
freed. Handles are numbered as they are created. -/
structure Handles where
  ctx : Option ℕ
  ssl : Option ℕ
  created : ℕ
  freed : List ℕ
  overwritten : List ℕ
  deriving DecidableEq, Repr

def Handles.newCtx (given : Bool) (h : Handles) : Handles :=
  { h with
    ctx := if given then some h.created else none
    created := if given then h.created + 1 else h.created
    overwritten := h.overwritten ++ h.ctx.toList }

def Handles.newSsl (given : Bool) (h : Handles) : Handles :=
  { h with
    ssl := if given then some h.created else none
    created := if given then h.created + 1 else h.created
    overwritten := h.overwritten ++ h.ssl.toList }

def Handles.freeSsl (h : Handles) : Handles :=
  { h with ssl := none, freed := h.freed ++ h.ssl.toList }

def Handles.freeCtx (h : Handles) : Handles :=
  { h with ctx := none, freed := h.freed ++ h.ctx.toList }

def initSsl (tls : Tls) (h : Handles) : Bool × Handles :=
  let h := h.newCtx tls.context
  if tls.context = false ∨ tls.locations = false then (false, h)
  else (tls.session, h.newSsl tls.session)

/-- The members of the checker, the clock, the attempts, and the responses whose Location was
followed. -/
structure Session where
  checker : Checker
  handles : Handles
  now : ℕ
  attempts : List Attempt
  followed : List (List ℕ)
  deriving DecidableEq, Repr

def Session.connect (resolution : Resolution) (cutoff : ℕ) (peer : Peer) (s : Session) :
    Bool × Session :=
  let d := resolve resolution cutoff s.checker.target peer s.now
  let s := { s with now := d.now, attempts := s.attempts ++ d.attempts }
  if d.made = false then (false, s)
  else if s.checker.target.isSsl then
    let (ready, handles) := initSsl peer.tls s.handles
    let s := { s with handles := handles, now := s.now + peer.tls.took }
    (ready && peer.tls.bio && peer.tls.handshake, s)
  else (true, s)

/-- The passes of the loop in disconnect, at most `left` of them, from the `call`-th SSL_shutdown
on. Each pass sleeps a second. -/
def shutdownLoop (waittime : ℕ) (shutdowns : ℕ → Reply) : ℕ → ℕ → Bool → ℕ → ℕ
  | 0, _, _, now => now
  | left + 1, call, done, now =>
    if done = false ∧ seconds now < waittime then
      shutdownLoop waittime shutdowns left (call + 1) (shutdowns call).done
        (now + (shutdowns call).took + 1000)
    else now

theorem shutdownLoop_passes {waittime : ℕ} {shutdowns : ℕ → Reply} (left more : ℕ) :
    ∀ {call : ℕ} {done : Bool} {now : ℕ}, waittime ≤ seconds now + left →
      shutdownLoop waittime shutdowns (left + more) call done now =
        shutdownLoop waittime shutdowns left call done now := by
  induction left with
  | zero =>
    intro call done now hle
    cases more with
    | zero => rfl
    | succ more =>
      have hover : ¬(done = false ∧ seconds now < waittime) := fun h => by omega
      simp only [shutdownLoop, if_neg hover]
  | succ left ih =>
    intro call done now hle
    rw [Nat.succ_add, shutdownLoop, shutdownLoop]
    split
    · apply ih
      unfold seconds at hle ⊢
      omega
    · rfl

/-- What disconnect does with the TLS handles. The wait is for three seconds at most, so that
there are no more than three passes. -/
def Session.disconnectTls (cutoff : ℕ) (peer : Peer) (s : Session) : Session :=
  if s.handles.ssl = none then { s with handles := s.handles.freeCtx }
  else
    let waittime := min cutoff (seconds s.now + 3)
    let now := shutdownLoop waittime peer.shutdowns 3 1 (peer.shutdowns 0).done
      (s.now + (peer.shutdowns 0).took)
    { s with handles := s.handles.freeSsl.freeCtx, now := now }

/-- HTTP_Checker::disconnect. The TLS flag decides whether handles are freed. -/
def Session.disconnect (cutoff : ℕ) (peer : Peer) (s : Session) : Session :=
  if s.checker.target.isSsl then s.disconnectTls cutoff peer else s

/-- The sends of send_bytes, at most `attempts` of them, from the `call`-th on: whether all bytes
have been sent, and the clock. -/
def sendBytes (cutoff : ℕ) (sends : ℕ → Reply) : ℕ → ℕ → ℕ → ℕ → Bool × ℕ
  | 0, _, bytesLeft, now => (bytesLeft = 0, now)
  | attempts + 1, call, bytesLeft, now =>
    let now := now + (sends call).took
    if (sends call).done = false then (false, now)
    else
      let bytesLeft := bytesLeft - min bytesLeft maxTcpBuffer
      if 0 < bytesLeft ∧ 0 < attempts ∧ seconds now < cutoff then
        sendBytes cutoff sends attempts (call + 1) bytesLeft now
      else (bytesLeft = 0, now)

/-- HTTP_Checker::send_http_get: the response, which is empty where the request could not be
sent, and the clock. It gives nothing where `fuel` is not enough. -/
def Session.sendHttpGet (cutoff fuel : ℕ) (peer : Peer) (s : Session) : Option (List ℕ × ℕ) :=
  let (sent, now) := sendBytes cutoff peer.sends 5 0
    (RequestBuffer.sendHttpGet s.checker.target).length s.now
  if sent then (getResponse cutoff peer.rounds fuel now).map fun r => (r.retVal, r.now)
  else some ([], now)

def Session.heard (response : List ℕ) (now : ℕ) (s : Session) : Session :=
  { s with checker := s.checker.readStatus response, now := now }

def Session.failed (errorCode : ℤ) (s : Session) : Session :=
  { s with checker := { s.checker with responseCode := 0, errorCode := errorCode } }

def Session.turned (response : List ℕ) (target : Target) (s : Session) : Session :=
  { s with checker := { s.checker with target := target }, followed := s.followed ++ [response] }

def after (peers : ℕ → Peer) : ℕ → Peer := fun n => peers (n + 1)

/-- HTTP_Checker::set_host_response, where `left` more redirects may be followed. `peer` is the
present connection, and `peers` are those after it. The result has the last connection. -/
def Session.setHostResponse (resolution : Resolution) (cutoff fuel : ℕ) :
    ℕ → Peer → (ℕ → Peer) → Session → Option (Peer × Session)
  | 0, peer, _, s =>
    (s.sendHttpGet cutoff fuel peer).map fun (response, now) => (peer, s.heard response now)
  | left + 1, peer, peers, s =>
    match s.sendHttpGet cutoff fuel peer with
    | none => none
    | some (response, now) =>
      let s := s.heard response now
      if IsRedirect s.checker.responseCode then
        match setRedirectHostValuesWorker response s.checker.target with
        | none => some (peer, s.failed 997)
        | some target =>
          match ((s.turned response target).disconnect cutoff peer).connect resolution cutoff
              (peers 0) with
          | (false, s) => some (peers 0, s.failed 996)
          | (true, s) =>
            setHostResponse resolution cutoff fuel left (peers 0) (after peers) s
      else some (peer, s)

def started (url : List ℕ) (start : ℕ) : Session where
  checker := ⟨parseHostValuesWorker (fromUrl url), 0, 0⟩
  handles := ⟨none, none, 0, [], []⟩
  now := start
  attempts := []
  followed := []

def check (resolution : Resolution) (maxRedirects cutoff fuel : ℕ) (peers : ℕ → Peer)
    (url : List ℕ) (start : ℕ) : Option (Peer × Session) :=
  match (started url start).connect resolution cutoff (peers 0) with
  | (false, s) => some (peers 0, { s with checker := { s.checker with errorCode := 995 } })
  | (true, s) => s.setHostResponse resolution cutoff fuel maxRedirects (peers 0) (after peers)

def netCommsTimeout : ℕ := 20

def cutofftime (created : ℕ) : ℕ := seconds created + netCommsTimeout

variable {resolution : Resolution} {cutoff fuel : ℕ}

/-- How set_host_response comes to its result. -/
inductive Served (resolution : Resolution) (cutoff fuel : ℕ) :
    ℕ → Peer → (ℕ → Peer) → Session → Peer → Session → Prop where
  | ended {left peer peers s response now} :
      s.sendHttpGet cutoff fuel peer = some (response, now) →
      (IsRedirect (s.checker.readStatus response).responseCode → left = 0) →
      Served resolution cutoff fuel left peer peers s peer (s.heard response now)
  | stuck {left peer peers s response now} :
      s.sendHttpGet cutoff fuel peer = some (response, now) →
      IsRedirect (s.checker.readStatus response).responseCode →
      setRedirectHostValuesWorker response s.checker.target = none →
      Served resolution cutoff fuel (left + 1) peer peers s peer ((s.heard response now).failed 997)
  | unreachable {left peer peers s response now target s'} :
      s.sendHttpGet cutoff fuel peer = some (response, now) →
      IsRedirect (s.checker.readStatus response).responseCode →
      setRedirectHostValuesWorker response s.checker.target = some target →
      (((s.heard response now).turned response target).disconnect cutoff peer).connect resolution
        cutoff (peers 0) = (false, s') →
      Served resolution cutoff fuel (left + 1) peer peers s (peers 0) (s'.failed 996)
  | redirected {left peer peers s response now target s' last s''} :
      s.sendHttpGet cutoff fuel peer = some (response, now) →
      IsRedirect (s.checker.readStatus response).responseCode →
      setRedirectHostValuesWorker response s.checker.target = some target →
      (((s.heard response now).turned response target).disconnect cutoff peer).connect resolution
        cutoff (peers 0) = (true, s') →
      Served resolution cutoff fuel left (peers 0) (after peers) s' last s'' →
      Served resolution cutoff fuel (left + 1) peer peers s last s''

theorem readStatus_target (response : List ℕ) (w : Checker) :
    (w.readStatus response).target = w.target := by
  rw [Checker.readStatus]
  split
  · rfl
  · split <;> rfl

theorem served {left : ℕ} : ∀ {peer : Peer} {peers : ℕ → Peer} {s : Session} {last : Peer}
    {s' : Session}, s.setHostResponse resolution cutoff fuel left peer peers = some (last, s') →
    Served resolution cutoff fuel left peer peers s last s' := by
  induction left with
  | zero =>
    intro peer peers s last s' h
    rw [Session.setHostResponse, Option.map_eq_some_iff] at h
    obtain ⟨⟨response, now⟩, hget, h⟩ := h
    obtain ⟨rfl, rfl⟩ := Prod.mk.inj h
    exact .ended hget fun _ => rfl
  | succ left ih =>
    intro peer peers s last s' h
    rw [Session.setHostResponse] at h
    cases hget : s.sendHttpGet cutoff fuel peer with
    | none =>
      rw [hget] at h
      contradiction
    | some answer =>
      obtain ⟨response, now⟩ := answer
      rw [hget] at h
      dsimp only at h
      by_cases hr : IsRedirect (s.checker.readStatus response).responseCode
      · have hr' : IsRedirect (s.heard response now).checker.responseCode := hr
        have htarget : (s.heard response now).checker.target = s.checker.target :=
          readStatus_target response s.checker
        rw [if_pos hr', htarget] at h
        cases hl : setRedirectHostValuesWorker response s.checker.target with
        | none =>
          rw [hl] at h
          obtain ⟨rfl, rfl⟩ := Prod.mk.inj (Option.some.inj h)
          exact .stuck hget hr hl
        | some target =>
          rw [hl] at h
          dsimp only at h
          cases hc : Session.connect resolution cutoff (peers 0)
              (((s.heard response now).turned response target).disconnect cutoff peer) with
          | mk made s₁ =>
            rw [hc] at h
            cases made with
            | false =>
              obtain ⟨rfl, rfl⟩ := Prod.mk.inj (Option.some.inj h)
              exact .unreachable hget hr hl hc
            | true => exact .redirected hget hr hl hc (ih h)
      · have hr' : ¬IsRedirect (s.heard response now).checker.responseCode := hr
        rw [if_neg hr'] at h
        obtain ⟨rfl, rfl⟩ := Prod.mk.inj (Option.some.inj h)
        exact .ended hget fun h => absurd h hr

theorem connect_checker (resolution : Resolution) (cutoff : ℕ) (peer : Peer) (s : Session) :
    (s.connect resolution cutoff peer).2.checker = s.checker := by
  rw [Session.connect]
  split
  · rfl
  · split <;> rfl

theorem connect_followed (resolution : Resolution) (cutoff : ℕ) (peer : Peer) (s : Session) :
    (s.connect resolution cutoff peer).2.followed = s.followed := by
  rw [Session.connect]
  split
  · rfl
  · split <;> rfl

theorem connect_attempts (resolution : Resolution) (cutoff : ℕ) (peer : Peer) (s : Session) :
    (s.connect resolution cutoff peer).2.attempts =
      s.attempts ++ (resolve resolution cutoff s.checker.target peer s.now).attempts := by
  rw [Session.connect]
  split
  · rfl
  · split <;> rfl

theorem disconnect_frame (cutoff : ℕ) (peer : Peer) (s : Session) :
    (s.disconnect cutoff peer).checker = s.checker ∧
      (s.disconnect cutoff peer).followed = s.followed ∧
      (s.disconnect cutoff peer).attempts = s.attempts := by
  rw [Session.disconnect]
  split
  · rw [Session.disconnectTls]
    split <;> exact ⟨rfl, rfl, rfl⟩
  · exact ⟨rfl, rfl, rfl⟩

theorem reconnect_checker {peer peer' : Peer} {s s' : Session} {response : List ℕ} {now : ℕ}
    {target : Target} {made : Bool}
    (h : (((s.heard response now).turned response target).disconnect cutoff peer).connect resolution
      cutoff peer' = (made, s')) :
    s'.checker = { s.checker.readStatus response with target := target } ∧
      s'.followed = s.followed ++ [response] := by
  obtain ⟨hchecker, hfollowed, -⟩ := disconnect_frame cutoff peer
    ((s.heard response now).turned response target)
  have hconnect := connect_checker resolution cutoff peer'
    (((s.heard response now).turned response target).disconnect cutoff peer)
  have hconnect' := connect_followed resolution cutoff peer'
    (((s.heard response now).turned response target).disconnect cutoff peer)
  rw [h] at hconnect hconnect'
  exact ⟨hconnect.trans hchecker, hconnect'.trans hfollowed⟩

theorem served_script {left : ℕ} {peer last : Peer} {peers : ℕ → Peer} {s s' : Session}
    (h : Served resolution cutoff fuel left peer peers s last s') :
    ∃ response script, s.checker.setHostResponse left response script = s'.checker := by
  induction h with
  | @ended left peer peers s response now _ hlast =>
    refine ⟨response, fun _ => .fails, ?_⟩
    cases left with
    | zero => rfl
    | succ left =>
      have hr : ¬IsRedirect (s.checker.readStatus response).responseCode :=
        fun hr => absurd (hlast hr) (Nat.succ_ne_zero left)
      rw [Checker.setHostResponse, if_neg hr]
      rfl
  | @stuck left peer peers s response now _ hr hl =>
    refine ⟨response, fun _ => .fails, ?_⟩
    rw [Checker.setHostResponse, if_pos hr, hl]
    have htarget := readStatus_target response s.checker
    simp only [Session.failed, Session.heard, htarget]
  | @unreachable left peer peers s response now target s' _ hr hl hc =>
    refine ⟨response, fun _ => .fails, ?_⟩
    rw [Checker.setHostResponse, if_pos hr, hl]
    simp only [Session.failed, (reconnect_checker hc).1]
  | @redirected left peer peers s response now target s' last s'' _ hr hl hc _ ih =>
    obtain ⟨next, script, hnext⟩ := ih
    refine ⟨response, fun n => n.casesOn (.delivers next) script, ?_⟩
    rw [Checker.setHostResponse, if_pos hr, hl, ← hnext, (reconnect_checker hc).1]
    rfl

theorem check_cases {maxRedirects start : ℕ} {peers : ℕ → Peer} {url : List ℕ} {last : Peer}
    {s : Session} (h : check resolution maxRedirects cutoff fuel peers url start = some (last, s)) :
    (∃ s₁, (started url start).connect resolution cutoff (peers 0) = (false, s₁) ∧
      last = peers 0 ∧ s = { s₁ with checker := { s₁.checker with errorCode := 995 } }) ∨
    ∃ s₁, (started url start).connect resolution cutoff (peers 0) = (true, s₁) ∧
      Served resolution cutoff fuel maxRedirects (peers 0) (after peers) s₁ last s := by
  rw [check] at h
  cases hc : (started url start).connect resolution cutoff (peers 0) with
  | mk made s₁ =>
    rw [hc] at h
    cases made with
    | false =>
      obtain ⟨rfl, rfl⟩ := Prod.mk.inj (Option.some.inj h)
      exact Or.inl ⟨s₁, rfl, rfl, rfl⟩
    | true => exact Or.inr ⟨s₁, rfl, served h⟩

theorem start_checker {peer : Peer} {url : List ℕ} {start : ℕ} {made : Bool} {s : Session}
    (h : (started url start).connect resolution cutoff peer = (made, s)) :
    s.checker = ⟨parseHostValuesWorker (fromUrl url), 0, 0⟩ ∧ s.followed = [] := by
  have hchecker := connect_checker resolution cutoff peer (started url start)
  have hfollowed := connect_followed resolution cutoff peer
    (started url start)
  rw [h] at hchecker hfollowed
  exact ⟨hchecker, hfollowed⟩

/-- The check on the sockets refines the check on a script of its connections. -/
theorem check_refines {maxRedirects start : ℕ} {peers : ℕ → Peer} {url : List ℕ} {last : Peer}
    {s : Session} (h : check resolution maxRedirects cutoff fuel peers url start = some (last, s)) :
    ∃ script, checkHost maxRedirects script url = s.checker := by
  rcases check_cases h with ⟨s₁, hc, -, rfl⟩ | ⟨s₁, hc, hserved⟩
  · refine ⟨fun _ => .fails, ?_⟩
    rw [(start_checker hc).1]
    rfl
  · obtain ⟨response, script, hserve⟩ := served_script hserved
    refine ⟨fun n => n.casesOn (.delivers response) script, ?_⟩
    rw [← hserve, (start_checker hc).1]
    rfl

/-- The members after each redirect, as far as the Locations can be read. -/
def chain (h : Target) : List (List ℕ) → List Target
  | [] => [h]
  | response :: responses =>
    match setRedirectHostValuesWorker response h with
    | none => [h]
    | some target => h :: chain target responses

def targets (url : List ℕ) (responses : List (List ℕ)) : List Target :=
  chain (parseHostValuesWorker (fromUrl url)) responses

theorem chain_head (h : Target) (responses : List (List ℕ)) : h ∈ chain h responses := by
  cases responses with
  | nil => exact List.mem_cons_self ..
  | cons response responses =>
    rw [chain]
    split <;> exact List.mem_cons_self ..

theorem chain_cons {h target : Target} {response : List ℕ}
    (hl : setRedirectHostValuesWorker response h = some target) (responses : List (List ℕ)) :
    chain h (response :: responses) = h :: chain target responses := by
  rw [chain, hl]

/-- The check ends at the last target of its redirects. -/
theorem served_chain {left : ℕ} {peer last : Peer} {peers : ℕ → Peer} {s s' : Session}
    (h : Served resolution cutoff fuel left peer peers s last s') :
    ∃ responses, s'.followed = s.followed ++ responses ∧
      (chain s.checker.target responses).getLast? = some s'.checker.target := by
  induction h with
  | @ended left peer peers s response now _ _ =>
    refine ⟨[], (List.append_nil _).symm, ?_⟩
    exact congrArg some (readStatus_target response s.checker).symm
  | @stuck left peer peers s response now _ _ _ =>
    refine ⟨[], (List.append_nil _).symm, ?_⟩
    exact congrArg some (readStatus_target response s.checker).symm
  | @unreachable left peer peers s response now target s' _ _ hl hc =>
    obtain ⟨hchecker, hfollowed⟩ := reconnect_checker hc
    refine ⟨[response], hfollowed, ?_⟩
    rw [chain_cons hl, Session.failed, hchecker]
    rfl
  | @redirected left peer peers s response now target s' last s'' _ _ hl hc _ ih =>
    obtain ⟨hchecker, hfollowed⟩ := reconnect_checker hc
    obtain ⟨responses, hrest, hlast⟩ := ih
    have htarget : s'.checker.target = target := congrArg Checker.target hchecker
    refine ⟨response :: responses, ?_, ?_⟩
    · rw [hrest, hfollowed, List.append_assoc]
      rfl
    · rw [chain_cons hl, List.getLast?_cons, ← htarget, hlast]
      rfl

theorem check_targets {maxRedirects start : ℕ} {peers : ℕ → Peer} {url : List ℕ} {last : Peer}
    {s : Session} (h : check resolution maxRedirects cutoff fuel peers url start = some (last, s)) :
    (targets url s.followed).getLast? = some s.checker.target := by
  rcases check_cases h with ⟨s₁, hc, -, rfl⟩ | ⟨s₁, hc, hserved⟩
  · obtain ⟨hchecker, hfollowed⟩ := start_checker hc
    dsimp only
    rw [hfollowed, hchecker]
    rfl
  · obtain ⟨hchecker, hfollowed⟩ := start_checker hc
    obtain ⟨responses, hrest, hlast⟩ := served_chain hserved
    rw [hfollowed, List.nil_append] at hrest
    rw [hchecker] at hlast
    rw [hrest]
    exact hlast

end SocketCheck

import Jetmon.ResultReturn

/-! A Jetmon server and its verifliers as one system. Payloads of any veriflier are under way at
a time, arrive in any order and may be lost; a connection carries one payload and is not
repeated. Every result of a finished check is in one place: it waits for the tick, is under way,
was lost or refused, or has arrived, and those that arrived reach checkHostStatus once. -/
namespace PeerNetwork

open CheckController
open CheckAccounting
open Escalation
open JsonValue
open MasterState
open ResultDelivery
open ResultReturn
open ResultRouting
open SiteModel
open TransitionSystem

/-- No document is without results. -/
structure Substantial (s : CheckController.State) : Prop where
  waiting : ∀ m ∈ s.checkResults, checksOf m.2 ≠ []
  sent : ∀ payload ∈ s.sent, checksOf payload.document ≠ []

variable {P : CheckController.Settings}

theorem finishedCheck_results (s : CheckController.State) (address : ℕ)
    (status httpCode rtt : Int32) :
    (finishedCheck P s address status httpCode rtt).sent = s.sent ∧
      ∀ m ∈ (finishedCheck P s address status httpCode rtt).checkResults,
        m ∈ s.checkResults ∨ checksOf m.2 ≠ [] := by
  unfold finishedCheck
  split
  · exact ⟨rfl, fun _ hm => .inl hm⟩
  · unfold finishedChecking
    split
    · obtain ⟨-, hresults, hsent, -⟩ :=
        startWaiting_frame P { s with running := s.running.erase address }
      rw [hresults, hsent]
      exact ⟨rfl, fun _ hm => .inl hm⟩
    · rename_i hc _ _ hc' _
      obtain ⟨-, hresults, hsent, -⟩ := startWaiting_frame P
        { s with
          running := s.running.erase address
          checks := s.checks.eraseP (sameSite hc.site.1 hc.site.2)
          checkResults := addResult P s.checkResults hc'.jetmonServer
            (arrResult hc.site status httpCode rtt)
          runners := decrement hc.threadIndex s.runners
          checking := s.checking - 1
          finished := s.finished ++
            [(hc'.jetmonServer, arrResult hc.site status httpCode rtt)] }
      rw [hresults, hsent]
      refine ⟨rfl, fun m hm => ?_⟩
      obtain rfl | hm := mem_setMember hm
      · exact .inr (by simp [checksOf_resultDocument])
      · exact .inl hm

theorem sent_extended (s : CheckController.State) (e : CheckController.Event) :
    s.sent <+: (CheckController.next P s e).sent := by
  cases e with
  | request hcs sentBefore =>
    obtain ⟨-, -, hsent, -⟩ := addChecks_frame (P := P) hcs s
    change s.sent <+: (addChecks P s hcs).sent
    rw [hsent]
  | startCheck address => exact List.prefix_rfl
  | finishedCheck address status httpCode rtt =>
    change s.sent <+: (finishedCheck P s address status httpCode rtt).sent
    rw [(finishedCheck_results s address status httpCode rtt).1]
  | ticked => exact List.prefix_append _ _

theorem next_substantial {s : CheckController.State} {e : CheckController.Event}
    (h : Substantial s) : Substantial (CheckController.next P s e) := by
  cases e with
  | request hcs sentBefore =>
    obtain ⟨-, hresults, hsent, -⟩ := addChecks_frame (P := P) hcs s
    exact ⟨by rw [CheckController.next, serveRequest, hresults]; exact h.waiting,
      by rw [CheckController.next, serveRequest, hsent]; exact h.sent⟩
  | startCheck address => exact ⟨h.waiting, h.sent⟩
  | finishedCheck address status httpCode rtt =>
    obtain ⟨hsent, hresults⟩ := finishedCheck_results (P := P) s address status httpCode rtt
    constructor
    · intro m hm
      obtain hm | hne := hresults m hm
      · exact h.waiting m hm
      · exact hne
    · intro payload hp
      rw [CheckController.next, hsent] at hp
      exact h.sent payload hp
  | ticked =>
    constructor
    · intro m hm
      exact absurd hm List.not_mem_nil
    · intro payload hp
      rcases List.mem_append.mp hp with hp | hp
      · exact h.sent payload hp
      · obtain ⟨m, hm, rfl⟩ := List.mem_map.mp hp
        exact h.waiting m hm

theorem reachable_substantial {s : CheckController.State}
    (hr : Reachable (controller P) Unrestricted s) : Substantial s := by
  apply reachable_invariant _ _ hr
  · rintro _ rfl
    exact ⟨fun _ hm => absurd hm List.not_mem_nil, fun _ hp => absurd hp List.not_mem_nil⟩
  · intro s e _ h _ _
    exact next_substantial h

theorem reachable_conserved {s : CheckController.State}
    (hr : Reachable (controller P) Unrestricted s) : Conserved P s := by
  apply reachable_invariant _ _ hr
  · rintro _ rfl
    exact initial_conserved P
  · intro s e hr h he _
    exact next_conserved (reachable_accounted hr).1 h he

def Written (P : CheckController.Settings) (server : String) (payload : Payload) : Prop :=
  ∃ results, payload = ⟨server, resultDocument P.authToken results⟩ ∧ results ≠ [] ∧
    ∀ r ∈ results, IsResult r

theorem sent_written {s : CheckController.State} (hr : Reachable (controller P) Unrestricted s)
    {payload : Payload} (hp : payload ∈ s.sent) : Written P payload.jetmonServer payload := by
  obtain ⟨results, hdocument, hresults⟩ := (reachable_conserved hr).sent payload hp
  have hne := (reachable_substantial hr).sent payload hp
  rw [hdocument] at hne
  refine ⟨results, ?_, hne, hresults⟩
  rw [← hdocument]

theorem payloadsFor_next {s : CheckController.State} {e : CheckController.Event} {server : String} :
    payloadsFor (CheckController.next P s e) server = payloadsFor s server ++
      ((CheckController.next P s e).sent.drop s.sent.length).filter fun payload =>
        payload.jetmonServer == server := by
  obtain ⟨new, hnew⟩ := sent_extended (P := P) s e
  unfold payloadsFor
  rw [← hnew, List.filter_append, List.drop_left]

/-- `here` is the address that the verifliers see the Jetmon server at. -/
structure Deployment (ι : Type*) where
  peer : ι → CheckController.Settings
  here : String
  veriflierArray : List Veriflier
  conversion : Conversion
  receiver : Receiver
  agree : Agree receiver conversion here

/-- `flying` are the POSTs under way, `channel` the messages that the master has not read.
`lost`, `refused`, `accepted` and `calls`, the arguments of checkHostStatus, are histories. -/
structure System (ι : Type*) where
  peers : ι → CheckController.State
  flying : List (ι × Payload)
  lost : List (ι × Payload)
  refused : List (ι × Payload)
  accepted : List (ι × Payload)
  channel : List SslMessage
  received : ℕ
  calls : List Reply
  master : Master

inductive Event (ι : Type*) where
  | peer (i : ι) (e : CheckController.Event)
  | arrive (k : ℕ)
  | lose (k : ℕ)
  | receive
  | master (e : MasterState.Event)

variable {ι : Type*} (D : Deployment ι)

def opened (i : ι) (before after : CheckController.State) : List (ι × Payload) :=
  ((after.sent.drop before.sent.length).filter fun payload =>
    payload.jetmonServer == D.here).map fun payload => (i, payload)

def messagesFor (post : ι × Payload) : List SslMessage :=
  sentToMaster (D.receiver.serve D.veriflierArray (arrData D.conversion post.2))

def arrive (s : System ι) (post : ι × Payload) (rest : List (ι × Payload)) : System ι :=
  if (messagesFor D post).isEmpty then
    { s with flying := rest, refused := s.refused ++ [post] }
  else
    { s with
      flying := rest
      accepted := s.accepted ++ [post]
      channel := s.channel ++ messagesFor D post }

def receive (s : System ι) (msg : SslMessage) (rest : List SslMessage) : System ι :=
  { s with
    channel := rest
    received := s.received + 1
    calls := s.calls ++ repliesOf msg
    master := sslWorkerCallBack msg s.master }

def isHostStatus : MasterState.Event → Bool
  | .hostStatus _ => true
  | .wait _ | .reload _ | .message _ _ | .workerExit _ _ _ | .ensureWorkerCount _ | .queryDone _ _
  | .roundTimer _ | .restartTimer _ | .updateStats | .processQueuedRetries => false

def Enabled (s : System ι) : Event ι → Prop
  | .peer i e => CheckController.Enabled (s.peers i) e
  | .arrive k | .lose k => k < s.flying.length
  | .receive => 0 < s.channel.length
  | .master e => MasterState.Enabled s.master e ∧ isHostStatus e = false

instance (s : System ι) (e : Event ι) : Decidable (Enabled s e) :=
  match e with
  | .peer i e => inferInstanceAs (Decidable (CheckController.Enabled (s.peers i) e))
  | .arrive k | .lose k => inferInstanceAs (Decidable (k < s.flying.length))
  | .receive => inferInstanceAs (Decidable (0 < s.channel.length))
  | .master e =>
    inferInstanceAs (Decidable (MasterState.Enabled s.master e ∧ isHostStatus e = false))

def boot (cfg : Config) (now : ℤ) : System ι where
  peers i := CheckController.initial (D.peer i)
  flying := []
  lost := []
  refused := []
  accepted := []
  channel := []
  received := 0
  calls := []
  master := Master.boot cfg now

/-- What an event is for the master. -/
def masterEvents (s : System ι) : Event ι → List MasterState.Event
  | .master e => [e]
  | .receive => (s.channel.head?.toList.flatMap repliesOf).map .hostStatus
  | .peer _ _ | .arrive _ | .lose _ => []

def posts (s : System ι) : List (ι × Payload) := s.flying ++ s.lost ++ s.refused ++ s.accepted

def reportsOf (post : ι × Payload) : List (ι × Json ℤ) :=
  (checksOf post.2.document).map fun r => (post.1, r)

/-- The host that checkHostStatus is called with comes from the entry of the token. -/
def readReport (D : Deployment ι) (report : ι × Json ℤ) : Option Reply :=
  (entryFor (D.peer report.1).authToken D.veriflierArray).bind fun veriflier =>
    replyOf veriflier.host report.2

variable {D}

/-- What is under way and what has arrived or was lost is what has been sent. -/
theorem flying_perm {s : System ι} {k : ℕ} {post : ι × Payload} (h : s.flying[k]? = some post) :
    (post :: posts { s with flying := s.flying.eraseIdx k }).Perm (posts s) := by
  obtain ⟨hk, rfl⟩ := List.getElem?_eq_some_iff.mp h
  simp only [posts, List.append_assoc]
  exact (List.getElem_cons_eraseIdx_perm hk).append_right _

theorem lost_perm {s : System ι} {k : ℕ} {post : ι × Payload} (h : s.flying[k]? = some post) :
    (posts { s with flying := s.flying.eraseIdx k, lost := s.lost ++ [post] }).Perm (posts s) := by
  refine List.Perm.trans ?_ (flying_perm h)
  simp only [posts, List.append_assoc, List.singleton_append]
  rw [← List.append_assoc, ← List.append_assoc _ s.lost]
  exact List.perm_middle

theorem arrive_perm {s : System ι} {k : ℕ} {post : ι × Payload} (h : s.flying[k]? = some post) :
    (posts (arrive D s post (s.flying.eraseIdx k))).Perm (posts s) := by
  refine List.Perm.trans ?_ (flying_perm h)
  unfold arrive
  split
  · simp only [posts, List.append_assoc, List.singleton_append]
    rw [← List.append_assoc s.lost, ← List.append_assoc, ← List.append_assoc s.lost,
      ← List.append_assoc _ (s.lost ++ s.refused)]
    exact List.perm_middle
  · simp only [posts]
    rw [← List.append_assoc]
    exact List.perm_append_singleton _ _

theorem exec_credits (replies : List Reply) (m : Master) :
    ∃ new, (MasterState.machine.exec m (replies.map .hostStatus)).credits = m.credits ++ new ∧
      (new.map Credit.reply).Sublist replies := by
  induction replies generalizing m with
  | nil => exact ⟨[], (List.append_nil _).symm, List.Sublist.slnil⟩
  | cons reply rest ih =>
    obtain ⟨new, hnew, hsub⟩ := ih (MasterState.handle m (.hostStatus reply))
    rw [List.map_cons, Machine.exec]
    change ∃ new, (MasterState.machine.exec (handle m (.hostStatus reply)) _).credits = _ ∧ _
    rw [hnew]
    obtain hsame | ⟨data, entry, hdata, -, hcredit⟩ := credits_cases m (.hostStatus reply)
    · rw [hsame]
      exact ⟨new, rfl, hsub.cons reply⟩
    · cases hdata
      rw [hcredit, List.append_assoc]
      exact ⟨_, rfl, hsub.cons_cons reply⟩

theorem receive_credits {s : System ι} (h : (s.master.credits.map Credit.reply).Sublist s.calls)
    (msg : SslMessage) (rest : List SslMessage) :
    ((receive s msg rest).master.credits.map Credit.reply).Sublist (receive s msg rest).calls := by
  obtain ⟨new, hnew, hsub⟩ := exec_credits (repliesOf msg) s.master
  simp only [receive, sslWorkerCallBack_exec, hnew, List.map_append]
  exact h.append hsub

theorem master_credits {m : Master} {e : MasterState.Event} (h : ∀ data, e ≠ .hostStatus data) :
    (MasterState.handle m e).credits = m.credits := by
  obtain hsame | ⟨data, _, rfl, -, -⟩ := credits_cases m e
  · exact hsame
  · exact absurd rfl (h data)

theorem messagesFor_written {post : ι × Payload} (h : Written (D.peer post.1) D.here post.2) :
    messagesFor D post = ((entryFor (D.peer post.1).authToken D.veriflierArray).map
      (arrayMessage post.2.document)).toList := by
  obtain ⟨results, hpost, hne, hresults⟩ := h
  rw [messagesFor, hpost]
  exact sentToMaster_payload D.agree D.veriflierArray hresults hne

theorem replies_written {post : ι × Payload} (h : Written (D.peer post.1) D.here post.2) :
    (messagesFor D post).flatMap repliesOf = (reportsOf post).filterMap (readReport D) := by
  rw [messagesFor_written h]
  obtain ⟨results, hpost, -, hresults⟩ := h
  rw [reportsOf, hpost, checksOf_resultDocument, List.filterMap_map]
  cases hentry : entryFor (D.peer post.1).authToken D.veriflierArray with
  | none =>
    have hnone : (readReport D ∘ fun r => (post.1, r)) = fun _ => none := by
      funext r
      simp [readReport, hentry]
    rw [hnone]
    simp
  | some veriflier =>
    have hsome : (readReport D ∘ fun r => (post.1, r)) = replyOf veriflier.host := by
      funext r
      simp [readReport, hentry]
    have hreplies : repliesOf
        (arrayMessage (resultDocument (D.peer post.1).authToken results) veriflier) = _ :=
      repliesOf_arrayMessage hresults veriflier
    rw [hsome, ← hreplies]
    simp

variable (D) [DecidableEq ι]

def stepPeer (s : System ι) (i : ι) (e : CheckController.Event) : System ι :=
  let after := CheckController.next (D.peer i) (s.peers i) e
  { s with
    peers := Function.update s.peers i after
    flying := s.flying ++ opened D i (s.peers i) after }

def next (s : System ι) : Event ι → System ι
  | .peer i e => stepPeer D s i e
  | .arrive k =>
    match s.flying[k]? with
    | none => s
    | some post => arrive D s post (s.flying.eraseIdx k)
  | .lose k =>
    match s.flying[k]? with
    | none => s
    | some post => { s with flying := s.flying.eraseIdx k, lost := s.lost ++ [post] }
  | .receive =>
    match s.channel with
    | [] => s
    | msg :: rest => receive s msg rest
  | .master e => { s with master := MasterState.handle s.master e }

def machine : Machine (System ι) (Event ι) where
  start s := ∃ cfg now, s = boot D cfg now
  enabled := Enabled
  next := next D

instance (s : System ι) (e : Event ι) : Decidable ((machine D).enabled s e) :=
  inferInstanceAs (Decidable (Enabled s e))

variable {D}

theorem next_master (s : System ι) (e : Event ι) :
    (next D s e).master = MasterState.machine.exec s.master (masterEvents s e) := by
  cases e with
  | peer i e => rfl
  | master e => rfl
  | arrive k =>
    simp only [next, masterEvents, Machine.exec]
    split
    · rfl
    · unfold arrive
      split <;> rfl
  | lose k =>
    simp only [next, masterEvents, Machine.exec]
    split <;> rfl
  | receive =>
    simp only [next, masterEvents]
    split
    · rename_i hchannel
      rw [hchannel]
      rfl
    · rename_i msg rest hchannel
      rw [hchannel]
      simpa [receive] using sslWorkerCallBack_exec msg s.master

def masterSimulation (D : Deployment ι) :
    Simulation (machine D) Unrestricted MasterState.machine Unrestricted where
  abs := System.master
  answer := masterEvents
  start := by
    rintro _ ⟨cfg, now, rfl⟩
    exact ⟨cfg, now, rfl⟩
  valid := by
    intro s e _ _ he _
    cases e with
    | peer | arrive | lose => trivial
    | receive => exact hostStatus_valid _ _
    | master e => exact ⟨⟨he.1, trivial⟩, trivial⟩
  commutes := fun s e _ _ _ => next_master s e

theorem next_peers (s : System ι) (e : Event ι) :
    (next D s e).peers = s.peers ∨
      ∃ i pe, e = .peer i pe ∧ (next D s e).peers =
        Function.update s.peers i (CheckController.next (D.peer i) (s.peers i) pe) := by
  cases e with
  | peer i pe => exact .inr ⟨i, pe, rfl, rfl⟩
  | master e => exact .inl rfl
  | arrive k =>
    refine .inl ?_
    simp only [next]
    split
    · rfl
    · unfold arrive
      split <;> rfl
  | lose k =>
    refine .inl ?_
    simp only [next]
    split <;> rfl
  | receive =>
    refine .inl ?_
    simp only [next]
    split <;> rfl

/-- Every veriflier takes no steps but its own. -/
theorem reachable_peer {s : System ι} (hr : Reachable (machine D) Unrestricted s) (i : ι) :
    Reachable (controller (D.peer i)) Unrestricted (s.peers i) := by
  induction hr with
  | start h₀ =>
    obtain ⟨cfg, now, rfl⟩ := h₀
    exact .start rfl
  | @step s e hr he _ ih =>
    obtain hsame | ⟨j, pe, rfl, hpeers⟩ := next_peers (D := D) s e
    · exact (congrFun hsame i) ▸ ih
    · have hstep := congrFun hpeers i
      by_cases hij : i = j
      · subst hij
        rw [Function.update_self] at hstep
        exact hstep ▸ .step ih he trivial
      · rw [Function.update_of_ne hij] at hstep
        exact hstep ▸ ih

def ofPeer (i : ι) (list : List (ι × Payload)) : List Payload :=
  (list.filter fun post => post.1 == i).map Prod.snd

structure Carried (D : Deployment ι) (s : System ι) : Prop where
  posted : ∀ i, (ofPeer i (posts s)).Perm (payloadsFor (s.peers i) D.here)
  channel : s.channel = (s.accepted.drop s.received).flatMap (messagesFor D)
  received : s.received ≤ s.accepted.length
  accepted : ∀ post ∈ s.accepted, (messagesFor D post).length = 1
  calls : s.calls = (s.accepted.take s.received).flatMap fun post =>
    (messagesFor D post).flatMap repliesOf
  credits : (s.master.credits.map Credit.reply).Sublist s.calls

theorem ofPeer_append (i : ι) (a b : List (ι × Payload)) :
    ofPeer i (a ++ b) = ofPeer i a ++ ofPeer i b := by
  rw [ofPeer, List.filter_append, List.map_append]
  rfl

theorem ofPeer_perm (i : ι) {a b : List (ι × Payload)} (h : a.Perm b) :
    (ofPeer i a).Perm (ofPeer i b) := (h.filter _).map _

theorem ofPeer_opened (i j : ι) (before after : CheckController.State) :
    ofPeer i (opened D j before after) =
      if i = j then (after.sent.drop before.sent.length).filter fun payload =>
        payload.jetmonServer == D.here
      else [] := by
  unfold ofPeer opened
  rw [List.filter_map, List.map_map]
  by_cases hij : i = j
  · simp [hij, Function.comp_def]
  · simp [hij, Function.comp_def, Ne.symm hij]

theorem stepPeer_posted {s : System ι} (h : Carried D s) (j : ι) (e : CheckController.Event)
    (i : ι) :
    (ofPeer i (posts (stepPeer D s j e))).Perm
      (payloadsFor ((stepPeer D s j e).peers i) D.here) := by
  have hposts : (posts (stepPeer D s j e)).Perm (posts s ++ opened D j (s.peers j)
      (CheckController.next (D.peer j) (s.peers j) e)) := by
    simp only [posts, stepPeer, List.append_assoc]
    refine List.Perm.append_left _ (List.perm_append_comm.trans ?_)
    simp only [List.append_assoc]
    exact .rfl
  refine (ofPeer_perm i hposts).trans ?_
  rw [ofPeer_append, ofPeer_opened]
  by_cases hij : i = j
  · subst hij
    simp only [stepPeer, Function.update_self, if_true]
    rw [payloadsFor_next]
    exact (h.posted i).append_right _
  · simp only [stepPeer, Function.update_of_ne hij, if_neg hij, List.append_nil]
    exact h.posted i

theorem boot_carried (cfg : Config) (now : ℤ) : Carried D (boot D cfg now) where
  posted _ := .rfl
  channel := rfl
  received := le_rfl
  accepted _ hpost := absurd hpost List.not_mem_nil
  calls := rfl
  credits := List.Sublist.slnil

theorem posts_written {s : System ι} (hr : Reachable (machine D) Unrestricted s)
    (h : Carried D s) {post : ι × Payload} (hpost : post ∈ posts s) :
    Written (D.peer post.1) D.here post.2 := by
  have hpeer : post.2 ∈ ofPeer post.1 (posts s) :=
    List.mem_map.mpr ⟨post, List.mem_filter.mpr ⟨hpost, by simp⟩, rfl⟩
  obtain ⟨hsent, hserver⟩ := List.mem_filter.mp ((h.posted post.1).mem_iff.mp hpeer)
  have hwritten := sent_written (reachable_peer hr post.1) hsent
  rwa [beq_iff_eq.mp hserver] at hwritten

theorem arrive_carried {s : System ι} (hr : Reachable (machine D) Unrestricted s)
    (h : Carried D s) {k : ℕ} {post : ι × Payload} (hk : s.flying[k]? = some post) :
    Carried D (arrive D s post (s.flying.eraseIdx k)) := by
  have hwritten : Written (D.peer post.1) D.here post.2 := by
    apply posts_written hr h
    simp [posts, List.mem_of_getElem? hk]
  have hposted : ∀ i, (ofPeer i (posts (arrive D s post (s.flying.eraseIdx k)))).Perm
      (payloadsFor (s.peers i) D.here) :=
    fun i => (ofPeer_perm i (arrive_perm hk)).trans (h.posted i)
  revert hposted
  unfold arrive
  split
  · intro hposted
    exact ⟨hposted, h.channel, h.received, h.accepted, h.calls, h.credits⟩
  · rename_i hmessages
    intro hposted
    refine ⟨hposted, ?_, ?_, ?_, ?_, h.credits⟩
    · rw [List.drop_append_of_le_length h.received, List.flatMap_append, ← h.channel]
      simp
    · exact h.received.trans (by simp)
    · intro p hp
      rcases List.mem_append.mp hp with hp | hp
      · exact h.accepted p hp
      · rw [List.mem_singleton.mp hp]
        rw [messagesFor_written hwritten] at hmessages ⊢
        cases hentry : entryFor (D.peer post.1).authToken D.veriflierArray with
        | none => simp [hentry] at hmessages
        | some veriflier => rfl
    · rw [List.take_append_of_le_length h.received]
      exact h.calls

theorem receive_carried {s : System ι} (h : Carried D s) {msg : SslMessage}
    {rest : List SslMessage} (hchannel : s.channel = msg :: rest) :
    Carried D (receive s msg rest) := by
  have hqueue := h.channel.symm.trans hchannel
  cases hdrop : s.accepted.drop s.received with
  | nil => simp [hdrop] at hqueue
  | cons post later =>
    have hlt : s.received < s.accepted.length := by
      by_contra hge
      rw [List.drop_eq_nil_of_le (not_lt.mp hge)] at hdrop
      contradiction
    have hdrop' := hdrop
    rw [List.drop_eq_getElem_cons hlt] at hdrop'
    obtain ⟨hpost, hlater⟩ := List.cons.inj hdrop'
    have hmem : post ∈ s.accepted := hpost ▸ List.getElem_mem hlt
    obtain ⟨msg', hone⟩ := List.length_eq_one_iff.mp (h.accepted post hmem)
    rw [hdrop, List.flatMap_cons, hone, List.singleton_append] at hqueue
    obtain ⟨rfl, hrest⟩ := List.cons.inj hqueue
    refine ⟨h.posted, ?_, hlt, h.accepted, ?_, receive_credits h.credits _ _⟩
    · change rest = (s.accepted.drop (s.received + 1)).flatMap (messagesFor D)
      rw [hlater]
      exact hrest.symm
    · change s.calls ++ repliesOf msg' = (s.accepted.take (s.received + 1)).flatMap _
      rw [List.take_add_one, List.getElem?_eq_getElem hlt, hpost, List.flatMap_append, ← h.calls]
      simp [hone]

theorem next_carried {s : System ι} {e : Event ι} (hr : Reachable (machine D) Unrestricted s)
    (h : Carried D s) (he : Enabled s e) : Carried D (next D s e) := by
  cases e with
  | peer i e =>
    exact ⟨stepPeer_posted h i e, h.channel, h.received, h.accepted, h.calls, h.credits⟩
  | arrive k =>
    simp only [next]
    split
    · exact h
    · rename_i post hk
      exact arrive_carried hr h hk
  | lose k =>
    simp only [next]
    split
    · exact h
    · rename_i post hk
      exact ⟨fun i => (ofPeer_perm i (lost_perm hk)).trans (h.posted i), h.channel, h.received,
        h.accepted, h.calls, h.credits⟩
  | receive =>
    simp only [next]
    split
    · exact h
    · rename_i msg rest hchannel
      exact receive_carried h hchannel
  | master e =>
    have hsame : (handle s.master e).credits = s.master.credits := by
      apply master_credits
      rintro data rfl
      exact absurd he.2 Bool.true_eq_false.mp
    refine ⟨h.posted, h.channel, h.received, h.accepted, h.calls, ?_⟩
    change ((handle s.master e).credits.map Credit.reply).Sublist s.calls
    rw [hsame]
    exact h.credits

theorem reachable_carried {s : System ι} (hr : Reachable (machine D) Unrestricted s) :
    Carried D s := by
  apply reachable_invariant _ _ hr
  · rintro _ ⟨cfg, now, rfl⟩
    exact boot_carried cfg now
  · intro s e hr h he _
    exact next_carried hr h he

theorem calls_eq {s : System ι} (hr : Reachable (machine D) Unrestricted s) :
    s.calls = ((s.accepted.take s.received).flatMap reportsOf).filterMap (readReport D) := by
  have h := reachable_carried hr
  rw [h.calls, List.filterMap_flatMap]
  apply List.flatMap_congr
  intro post hpost
  apply replies_written
  apply posts_written hr h
  simp [posts, List.mem_of_mem_take hpost]

def resultsIn (posts : List Payload) : List (Json ℤ) :=
  posts.flatMap fun payload => checksOf payload.document

theorem finished_perm {s : System ι} (hr : Reachable (machine D) Unrestricted s) (i : ι) :
    (finishedFor (s.peers i) D.here).Perm
      (resultsIn (ofPeer i (posts s)) ++ waitingFor (s.peers i).checkResults D.here) := by
  rw [(reachable_conserved (reachable_peer hr i)).balance D.here]
  exact (((reachable_carried hr).posted i).flatMap_right _).symm.append_right _

/-- A veriflier whose token is configured is never refused. -/
theorem none_refused {s : System ι} (hr : Reachable (machine D) Unrestricted s) {i : ι}
    (hi : (entryFor (D.peer i).authToken D.veriflierArray).isSome = true) :
    ofPeer i s.refused = [] := by
  induction hr with
  | start h₀ =>
    obtain ⟨cfg, now, rfl⟩ := h₀
    rfl
  | @step s e hr he _ ih =>
    cases e with
    | peer | master => exact ih
    | lose k =>
      simp only [machine, next]
      split
      · exact ih
      · exact ih
    | receive =>
      simp only [machine, next]
      split
      · exact ih
      · exact ih
    | arrive k =>
      simp only [machine, next]
      split
      · exact ih
      · rename_i post hk
        have hwritten : Written (D.peer post.1) D.here post.2 := by
          apply posts_written hr (reachable_carried hr)
          simp [posts, List.mem_of_getElem? hk]
        unfold arrive
        split
        · rename_i hempty
          rw [ofPeer_append, ih, List.nil_append]
          by_cases hpost : post.1 = i
          · obtain ⟨veriflier, hentry⟩ := Option.isSome_iff_exists.mp hi
            rw [messagesFor_written hwritten, hpost, hentry] at hempty
            simp at hempty
          · simp [ofPeer, hpost]
        · exact ih

/-- The results of a veriflier for this server: handed to checkHostStatus, on their way through
the channel, under way, lost, or not yet sent. -/
structure Located (D : Deployment ι) (s : System ι) (i : ι) : Prop where
  results : (finishedFor (s.peers i) D.here).Perm
    (resultsIn (ofPeer i (s.accepted.take s.received)) ++
      (resultsIn (ofPeer i (s.accepted.drop s.received)) ++
        (resultsIn (ofPeer i s.flying) ++
          (resultsIn (ofPeer i s.lost) ++ waitingFor (s.peers i).checkResults D.here))))
  queued : s.channel = (s.accepted.drop s.received).flatMap (messagesFor D)
  handed : s.calls = ((s.accepted.take s.received).flatMap reportsOf).filterMap (readReport D)

theorem resultsIn_append (a b : List Payload) :
    resultsIn (a ++ b) = resultsIn a ++ resultsIn b := List.flatMap_append

/-- No result is duplicated, and none is dropped but with its connection. -/
theorem results_located {s : System ι} (hr : Reachable (machine D) Unrestricted s) {i : ι}
    (hi : (entryFor (D.peer i).authToken D.veriflierArray).isSome = true) : Located D s i := by
  refine ⟨?_, (reachable_carried hr).channel, calls_eq hr⟩
  have hposts : (ofPeer i (posts s)).Perm (ofPeer i (s.accepted.take s.received) ++
      (ofPeer i (s.accepted.drop s.received) ++ (ofPeer i s.flying ++ ofPeer i s.lost))) := by
    have haccepted : ofPeer i (s.accepted.take s.received) ++
        ofPeer i (s.accepted.drop s.received) = ofPeer i s.accepted := by
      rw [← ofPeer_append, List.take_append_drop]
    rw [posts, ofPeer_append, ofPeer_append, ofPeer_append, none_refused hr hi, List.append_nil,
      ← List.append_assoc, haccepted]
    exact List.perm_append_comm
  refine (finished_perm hr i).trans ?_
  have hresults := hposts.flatMap_right fun payload => checksOf payload.document
  refine (List.Perm.append_right _ hresults).trans ?_
  change (resultsIn _ ++ _).Perm _
  simp only [resultsIn_append, List.append_assoc]
  exact .rfl

def sampleDeployment : Deployment Unit where
  peer _ := sampleSettings
  here := "10.0.0.1"
  veriflierArray := [sampleVeriflier]
  conversion := sampleConversion
  receiver := sampleReceiver
  agree := sampleReceiver_agree

def sampleConfig : Config := { SiteModel.sampleConfig with peerOfflineLimit := 1 }

def checkedOffline : List (Event Unit) :=
  [.master (.message 1 (.recheck Escalation.failedSite)), .master .processQueuedRetries,
    .peer () (.request [sampleCheck 0 1] 0), .peer () (.startCheck 0),
    .peer () (.finishedCheck 0 0 0 35), .peer () .ticked]

def sampleStart : System Unit :=
  (machine sampleDeployment).exec (boot sampleDeployment sampleConfig 0) checkedOffline

def samplePost : Unit × Payload :=
  ((), ⟨"10.0.0.1", resultDocument "token" [arrResult (1, "http://example.com") 0 0 35]⟩)

def sampleMessage : SslMessage := arrayMessage samplePost.2.document sampleVeriflier

theorem sampleStart_flying : sampleStart.flying = [samplePost] := rfl

theorem messagesFor_sample : messagesFor sampleDeployment samplePost = [sampleMessage] := by
  have hwritten : Written (sampleDeployment.peer samplePost.1) sampleDeployment.here samplePost.2 :=
    ⟨[arrResult (1, "http://example.com") 0 0 35], rfl, List.cons_ne_nil _ _,
      fun r hr => ⟨_, _, _, _, List.mem_singleton.mp hr⟩⟩
  rw [messagesFor_written hwritten]
  rfl

theorem sampleStart_reachable : Reachable (machine sampleDeployment) Unrestricted sampleStart :=
  exec_reachable (.start ⟨_, _, rfl⟩) (by decide)

def sampleArrived : System Unit := (machine sampleDeployment).next sampleStart (.arrive 0)

theorem sampleArrived_eq : sampleArrived =
    { sampleStart with flying := [], accepted := [samplePost], channel := [sampleMessage] } := by
  simp only [sampleArrived, machine, next, sampleStart_flying, List.getElem?_cons_zero, arrive,
    messagesFor_sample]
  rfl

def sampleHeard : System Unit := (machine sampleDeployment).next sampleArrived .receive

theorem sampleArrived_reachable :
    Reachable (machine sampleDeployment) Unrestricted sampleArrived := by
  apply Reachable.step sampleStart_reachable
  · decide
  · trivial

theorem sampleHeard_reachable : Reachable (machine sampleDeployment) Unrestricted sampleHeard := by
  apply Reachable.step sampleArrived_reachable
  · rw [sampleArrived_eq]
    exact Nat.one_pos
  · trivial

theorem sampleHeard_eq : sampleHeard = receive
    { sampleStart with flying := [], accepted := [samplePost], channel := [sampleMessage] }
      sampleMessage [] := by
  rw [sampleHeard, sampleArrived_eq]
  rfl

theorem results_located_sample :
    sampleHeard.calls.length = 1 ∧ Located sampleDeployment sampleHeard () := by
  refine ⟨?_, results_located sampleHeard_reachable (by decide)⟩
  simp only [sampleHeard_eq]
  rfl

end PeerNetwork

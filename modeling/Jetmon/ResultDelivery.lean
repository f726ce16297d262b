import Jetmon.JsonText
import Jetmon.ResultRouting

/-! The results of finished checks on their way to the Jetmon servers. Every server gets the
results of the entries that carried it, each once and in order, in HTTP requests whose bodies
are JSON documents. The conversions of QJsonDocument are parameters. -/
namespace ResultDelivery

open CheckController
open CheckAccounting
open JsonValue
open ResultRouting
open TransitionSystem

def postHttpHeader (jetmonServer : String) (contentSize : ℕ) : String :=
  "POST /put/host-status" ++ " HTTP/1.1\x0d\nHost: " ++ jetmonServer ++
    "\x0d\nContent-Type: application/json" ++
    "\x0d\nContent-Length: " ++ toString contentSize ++ "\x0d\nConnection: Keep-Alive\x0d\n\x0d\n"

/-- QJsonDocument::toJson, and fromJson for a document that is not empty. -/
structure Conversion where
  toJson : Json ℤ → ByteArray
  fromJson : ByteArray → Option (Json ℤ)

def IsResult (result : Json ℤ) : Prop :=
  ∃ site status httpCode rtt, result = arrResult site status httpCode rtt

/-- Documents of results are read back as they were written. -/
def Conversion.Faithful (Q : Conversion) : Prop :=
  ∀ token results, (∀ r ∈ results, IsResult r) →
    Q.fromJson (Q.toJson (resultDocument token results)) = some (resultDocument token results)

variable (Q : Conversion)

def arrData (payload : Payload) : ByteArray :=
  (postHttpHeader payload.jetmonServer (Q.toJson payload.document).size).toByteArray ++
    Q.toJson payload.document

/-- The 'checks' array that the body of a payload is read as. -/
def checksReported (payload : Payload) : List (Json ℤ) :=
  match Q.fromJson (Q.toJson payload.document) with
  | some document => checksOf document
  | none => []

/-- The results of finished checks whose entries carried the server. -/
def finishedFor (s : State) (server : String) : List (Json ℤ) :=
  (s.finished.filter fun m => m.1 == server).map Prod.snd

def payloadsFor (s : State) (server : String) : List Payload :=
  s.sent.filter fun payload => payload.jetmonServer == server

def IsDocument (P : Settings) (document : Json ℤ) : Prop :=
  ∃ results, document = resultDocument P.authToken results ∧ ∀ r ∈ results, IsResult r

structure Conserved (P : Settings) (s : State) : Prop where
  keys : (s.checkResults.map Prod.fst).Nodup
  waiting : ∀ m ∈ s.checkResults, IsDocument P m.2
  sent : ∀ payload ∈ s.sent, IsDocument P payload.document
  balance : ∀ server, finishedFor s server =
    (payloadsFor s server).flatMap (fun payload => checksOf payload.document) ++
      waitingFor s.checkResults server

variable {P : Settings}

theorem Conserved.congr {s t : State} (h : Conserved P s)
    (hresults : t.checkResults = s.checkResults)
    (hsent : t.sent = s.sent) (hfinished : t.finished = s.finished) : Conserved P t where
  keys := hresults ▸ h.keys
  waiting := hresults ▸ h.waiting
  sent := hsent ▸ h.sent
  balance server := by
    rw [finishedFor, payloadsFor, hresults, hsent, hfinished]
    exact h.balance server

theorem isResult_of_waiting {s : State} (h : Conserved P s) (server : String) :
    ∀ r ∈ waitingFor s.checkResults server, IsResult r := by
  unfold waitingFor
  cases hlookup : lookup server s.checkResults with
  | none => simp
  | some document =>
    obtain ⟨results, hdocument, hresults⟩ := h.waiting _ (mem_of_lookup hlookup)
    rw [show document = resultDocument P.authToken results from hdocument]
    exact hresults

theorem released_conserved {s : State} (h : Conserved P s) (hc : HealthCheck) (i : ℕ)
    (rest : List HealthCheck) {result : Json ℤ} (hresult : IsResult result) :
    Conserved P (released P s hc i rest result) where
  keys := keys_setMember_nodup h.keys _ _
  waiting m hm := by
    rcases mem_setMember hm with rfl | hm
    · refine ⟨_, rfl, fun r hr => ?_⟩
      rcases List.mem_append.mp hr with hr | hr
      · exact isResult_of_waiting h _ r hr
      · rw [List.mem_singleton.mp hr]
        exact hresult
    · exact h.waiting m hm
  sent := h.sent
  balance server := by
    have hbalance := h.balance server
    simp only [finishedFor, released, payloadsFor] at hbalance ⊢
    rw [List.filter_append, List.map_append, hbalance]
    by_cases heq : server = hc.jetmonServer
    · subst heq
      simp [waitingFor_addResult]
    · simp [waitingFor_addResult_ne heq, Ne.symm heq]

theorem sendResults_conserved {s : State} (h : Conserved P s) : Conserved P (sendResults s) where
  keys := List.nodup_nil
  waiting := by simp [sendResults]
  sent payload hpayload := by
    rcases List.mem_append.mp hpayload with hpayload | hpayload
    · exact h.sent payload hpayload
    · obtain ⟨m, hm, rfl⟩ := List.mem_map.mp hpayload
      exact h.waiting m hm
  balance server := by
    have hflushed : payloadsFor (sendResults s) server = payloadsFor s server ++
        (lookup server s.checkResults).toList.map fun document => ⟨server, document⟩ := by
      rw [payloadsFor, sendResults, List.filter_append, List.filter_map]
      change _ ++ (s.checkResults.filter fun m => m.1 == server).map _ = _
      rw [filter_key h.keys, List.map_map]
      rfl
    have hwaiting : waitingFor (sendResults s).checkResults server = [] := rfl
    have hbalance : finishedFor (sendResults s) server = _ := h.balance server
    rw [hflushed, hwaiting, List.append_nil, List.flatMap_append, hbalance, waitingFor]
    cases lookup server s.checkResults <;> simp

theorem finishedCheck_conserved {s : State} {address : ℕ} (ha : Accounted P s.pending s)
    (hrunning : address ∈ s.running) (h : Conserved P s) (status httpCode rtt : Int32) :
    Conserved P (finishedCheck P s address status httpCode rtt) := by
  obtain ⟨before, hc, after, i, hsplit, rfl, hindex, -⟩ := performed_entry ha hrunning
  rw [finishedCheck_eq ha hsplit hindex]
  obtain ⟨-, hresults, hsent, hfinished, -⟩ := startWaiting_frame P
    (released P s hc i (before ++ after) (arrResult hc.site status httpCode rtt))
  exact (released_conserved h hc i _ ⟨_, _, _, _, rfl⟩).congr hresults hsent hfinished

theorem initial_conserved (P : Settings) : Conserved P (initial P) where
  keys := List.nodup_nil
  waiting _ hm := absurd hm List.not_mem_nil
  sent _ hp := absurd hp List.not_mem_nil
  balance _ := rfl

theorem next_conserved {s : State} {e : Event} (ha : Accounted P s.pending s)
    (h : Conserved P s) (he : Enabled s e) : Conserved P (next P s e) := by
  cases e with
  | request hcs sentBefore =>
    obtain ⟨-, hresults, hsent, hfinished⟩ := addChecks_frame (P := P) hcs s
    exact h.congr hresults hsent hfinished
  | startCheck address => exact h.congr rfl rfl rfl
  | finishedCheck address status httpCode rtt => exact finishedCheck_conserved ha he h _ _ _
  | ticked => exact sendResults_conserved h

/-- What a server is sent: a header that announces the length of the body, and a body that is
JSON with the token of the veriflier. -/
def WellFormed (authToken : String) (payload : Payload) : Prop :=
  ∃ body document,
    arrData Q payload = (postHttpHeader payload.jetmonServer body.size).toByteArray ++ body ∧
      Q.fromJson body = some document ∧ document.get "auth_token" = some (.str authToken) ∧
      checksReported Q payload = checksOf document

variable {Q}

theorem document_read (hQ : Q.Faithful) {payload : Payload} (h : IsDocument P payload.document) :
    Q.fromJson (Q.toJson payload.document) = some payload.document := by
  obtain ⟨results, hdocument, hresults⟩ := h
  rw [hdocument]
  exact hQ P.authToken results hresults

theorem wellFormed_of_document (hQ : Q.Faithful) {payload : Payload}
    (h : IsDocument P payload.document) : WellFormed Q P.authToken payload := by
  have hread := document_read hQ h
  refine ⟨_, _, rfl, hread, ?_, ?_⟩
  · obtain ⟨results, hdocument, -⟩ := h
    rw [hdocument]
    rfl
  · rw [checksReported, hread]

/-- Every server has been sent, or is about to be sent, the results of the entries that carried
it, each once and in the order in which the checks finished. -/
theorem results_conserved (P : Settings) (Q : Conversion) (hQ : Q.Faithful) {s : State}
    (hr : Reachable (controller P) Unrestricted s) :
    (∀ server, finishedFor s server =
      (payloadsFor s server).flatMap (checksReported Q) ++ waitingFor s.checkResults server) ∧
    ∀ payload ∈ s.sent, WellFormed Q P.authToken payload := by
  have hconserved : Conserved P s := by
    apply reachable_invariant _ _ hr
    · rintro _ rfl
      exact initial_conserved P
    · intro s e hr h he _
      exact next_conserved (reachable_accounted hr).1 h he
  refine ⟨fun server => ?_,
    fun payload hp => wellFormed_of_document hQ (hconserved.sent payload hp)⟩
  have hread : ∀ payload ∈ payloadsFor s server,
      checksReported Q payload = checksOf payload.document := by
    intro payload hp
    rw [checksReported, document_read hQ (hconserved.sent payload (List.mem_of_mem_filter hp))]
  rw [hconserved.balance server]
  congr 1
  exact (List.flatMap_congr hread).symm

def sampleConversion : Conversion where
  toJson document := JsonText.encode (JsonText.render JsonText.indented 0 document ++ ['\n'])
  fromJson bytes := (JsonText.decode bytes).bind JsonText.parse

theorem sampleConversion_faithful : sampleConversion.Faithful := by
  intro token results _
  have hblank : JsonText.Blank ['\n'] := by simp [JsonText.Blank, JsonText.isBlank]
  simp only [sampleConversion, JsonText.decode_encode, Option.bind_some]
  exact JsonText.parse_render _ _ hblank

theorem results_conserved_sample :
    let s := (controller sampleSettings).exec (initial sampleSettings) (sampleRun ++ [.ticked])
    s.sent.length = 1 ∧
      (∀ server, finishedFor s server =
        (payloadsFor s server).flatMap (checksReported sampleConversion) ++
          waitingFor s.checkResults server) ∧
      ∀ payload ∈ s.sent, WellFormed sampleConversion sampleSettings.authToken payload :=
  ⟨by decide, results_conserved sampleSettings sampleConversion sampleConversion_faithful
    (exec_reachable (.start rfl) (by decide))⟩

end ResultDelivery

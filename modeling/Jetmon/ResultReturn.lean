import Jetmon.Escalation
import Jetmon.ResultDelivery
import Jetmon.StatusServer
import Jetmon.TextSearch

/-! What becomes of a payload of a veriflier at a Jetmon server: the status server reads the
POST, puts the host of the veriflier to it and sends it to the master, whose sslWorkerCallBack
calls checkHostStatus for the results. Node's parser of HTTP and the two JSON libraries are
parameters. -/
namespace ResultReturn

open CheckController
open JsonValue
open MasterState
open ResultDelivery
open SiteModel
open StatusServer
open TransitionSystem

abbrev SslMessage := String × Json ℤ

/-- The arguments of checkHostStatus as far as the veriflier writes them: there is no member
error_code, and no entry of queuedRetries has a negative id. `peer` and `answers`, which no
branch reads, are not known here. -/
def replyOf (veriflierHost : String) (data : Json ℤ) : Option Reply :=
  match data.get "blog_id", data.get "monitor_url", data.get "status", data.get "rtt",
    data.get "code" with
  | some (.num (.ofNat blogId)), some (.str monitorUrl), some (.num status), some (.num rtt),
    some (.num code) => some ⟨veriflierHost, blogId, monitorUrl, status, rtt, code, 0, 0, 0⟩
  | _, _, _, _, _ => none

def hostStatus (veriflierHost : String) (data : Json ℤ) (m : Master) : Master :=
  match replyOf veriflierHost data with
  | none => m
  | some reply => m.checkHostStatus reply

/-- The loop over msg.payload.checks. The first entry of queuedRetries is compared with a
member of `data`, which throws when that is null. -/
def handleChecks (veriflierHost : String) : List (Json ℤ) → Master → Master
  | [], m => m
  | .null :: rest, m => if m.queuedRetries.isEmpty then handleChecks veriflierHost rest m else m
  | data :: rest, m => handleChecks veriflierHost rest (hostStatus veriflierHost data m)

def hostOf (payload : Json ℤ) : String :=
  match payload.get "veriflier_host" with
  | some (.str host) => host
  | _ => ""

/-- What is thrown is caught and logged. -/
def sslWorkerCallBack (msg : SslMessage) (m : Master) : Master :=
  if msg.1 = "host_status" then hostStatus (hostOf msg.2) msg.2 m
  else if msg.1 = "host_status_array" then
    handleChecks (hostOf msg.2) (checksOf msg.2) m
  else m

def isNull : Json ℤ → Bool
  | .null => true
  | .bool _ | .num _ | .str _ | .arr _ | .obj _ => false

def repliesOf (msg : SslMessage) : List Reply :=
  if msg.1 = "host_status" then (replyOf (hostOf msg.2) msg.2).toList
  else if msg.1 = "host_status_array" then
    ((checksOf msg.2).takeWhile fun data => !isNull data).filterMap (replyOf (hostOf msg.2))
  else []

theorem checkHostStatus_idle {m : Master} (h : m.queuedRetries = []) (data : Reply) :
    m.checkHostStatus data = m := by
  simp [Master.checkHostStatus, h]

theorem handleChecks_idle (veriflierHost : String) (checks : List (Json ℤ)) {m : Master}
    (h : m.queuedRetries = []) : handleChecks veriflierHost checks m = m := by
  induction checks with
  | nil => rfl
  | cons data rest ih =>
    have hstatus : hostStatus veriflierHost data m = m := by
      unfold hostStatus
      split
      · rfl
      · exact checkHostStatus_idle h _
    cases data with
    | null => simpa [handleChecks, h] using ih
    | bool | num | str | arr | obj =>
      simp only [handleChecks, hstatus]
      exact ih

theorem handleChecks_cons (veriflierHost : String) {data : Json ℤ} (h : isNull data = false)
    (rest : List (Json ℤ)) (m : Master) :
    handleChecks veriflierHost (data :: rest) m =
      handleChecks veriflierHost rest (hostStatus veriflierHost data m) := by
  cases data with
  | null => contradiction
  | bool | num | str | arr | obj => rfl

theorem handleChecks_null (veriflierHost : String) {data : Json ℤ} (h : isNull data = true)
    (rest : List (Json ℤ)) (m : Master) : handleChecks veriflierHost (data :: rest) m = m := by
  cases data with
  | null =>
    unfold handleChecks
    split
    · rename_i hempty
      exact handleChecks_idle _ _ (List.isEmpty_iff.mp hempty)
    · rfl
  | bool | num | str | arr | obj => contradiction

/-- The loop is a run of the master up to the first null. -/
theorem handleChecks_exec (veriflierHost : String) (checks : List (Json ℤ)) (m : Master) :
    handleChecks veriflierHost checks m =
      machine.exec m (((checks.takeWhile fun data => !isNull data).filterMap
        (replyOf veriflierHost)).map .hostStatus) := by
  induction checks generalizing m with
  | nil => rfl
  | cons data rest ih =>
    cases hnull : isNull data with
    | true =>
      simp only [handleChecks_null _ hnull, List.takeWhile_cons, hnull, Bool.not_true,
        Bool.false_eq_true, if_false]
      rfl
    | false =>
      simp only [handleChecks_cons _ hnull, List.takeWhile_cons, hnull, Bool.not_false, if_true,
        ih, hostStatus]
      cases hreply : replyOf veriflierHost data with
      | none => simp [hreply]
      | some reply =>
        simp only [List.filterMap_cons, hreply, List.map_cons]
        rfl

theorem sslWorkerCallBack_exec (msg : SslMessage) (m : Master) :
    sslWorkerCallBack msg m = machine.exec m ((repliesOf msg).map .hostStatus) := by
  unfold sslWorkerCallBack repliesOf
  split
  · unfold hostStatus
    cases replyOf (hostOf msg.2) msg.2 <;> rfl
  · split
    · exact handleChecks_exec _ _ _
    · rfl

theorem hostStatus_valid (replies : List Reply) (m : Master) :
    machine.Valid Unrestricted m (replies.map .hostStatus) := by
  induction replies generalizing m with
  | nil => trivial
  | cons reply rest ih => exact ⟨⟨trivial, trivial⟩, ih _⟩

/-- Node's HTTP parser, whose bodies are decoded as UTF-8, and what the script calls. -/
structure Receiver where
  http : ByteArray → Option StatusServer.Request
  script : Script ℤ

def Receiver.serve (R : Receiver) (veriflierArray : List Veriflier) (bytes : ByteArray) : Run ℤ :=
  match R.http bytes with
  | none => ⟨[], false⟩
  | some request => requestHandler R.script veriflierArray request

def Effect.message : Effect ℤ → Option SslMessage
  | .respond _ _ => none
  | .forward msgtype payload => some (msgtype, payload)

def sentToMaster (run : Run ℤ) : List SslMessage := run.effects.filterMap Effect.message

/-- Both libraries follow their standards: a POST with the header of the veriflier is taken
apart at the length it announces, and a document of results is read as it was written. -/
structure Agree (R : Receiver) (Q : Conversion) (jetmonServer : String) : Prop where
  posts : ∀ body text, String.fromUTF8? body = some text →
    R.http ((postHttpHeader jetmonServer body.size).toByteArray ++ body) =
      some ⟨"POST", "/put/host-status", text⟩
  documents : ∀ token results, (∀ r ∈ results, IsResult r) →
    ∃ text, String.fromUTF8? (Q.toJson (resultDocument token results)) = some text ∧
      R.script.parse text = some (resultDocument token results)

variable {R : Receiver} {Q : Conversion} {jetmonServer : String}

def entryFor (token : String) (veriflierArray : List Veriflier) : Option Veriflier :=
  veriflierArray.find? fun veriflier => token == veriflier.authToken

theorem matchToken_string (S : Script ℤ) (token : String) (veriflierArray : List Veriflier) :
    matchToken S (.str token) veriflierArray = some (entryFor token veriflierArray) := by
  induction veriflierArray with
  | nil => rfl
  | cons veriflier rest ih =>
    unfold entryFor at ih ⊢
    rw [List.find?_cons, matchToken, Json.looseEq]
    cases token == veriflier.authToken with
    | true => rfl
    | false => exact ih

def arrayMessage (document : Json ℤ) (veriflier : Veriflier) : SslMessage :=
  ("host_status_array", document.set "veriflier_host" (.str veriflier.host))

theorem serve_payload (hagree : Agree R Q jetmonServer) (veriflierArray : List Veriflier)
    {token : String} {results : List (Json ℤ)} (hresults : ∀ r ∈ results, IsResult r)
    (hne : results ≠ []) :
    R.serve veriflierArray (arrData Q ⟨jetmonServer, resultDocument token results⟩) =
      match entryFor token veriflierArray with
      | none => ⟨[.respond 503 errorBody], false⟩
      | some veriflier =>
        let msg := arrayMessage (resultDocument token results) veriflier
        ⟨[.respond 200 successBody, .forward msg.1 msg.2], false⟩ := by
  obtain ⟨text, htext, hparse⟩ := hagree.documents token results hresults
  have hpath : Request.path ⟨"POST", "/put/host-status", text⟩ = "/put/host-status" := by
    simp only [Request.path]
    decide +kernel
  have hend : postEnd R.script veriflierArray text =
      authenticate R.script veriflierArray "host_status_array" (resultDocument token results)
        (.str token) := by
    obtain ⟨r, rest, rfl⟩ := List.exists_cons_of_ne_nil hne
    unfold postEnd
    rw [hparse]
    rfl
  have hcode : logThrows R.script (resultDocument token results) = false := rfl
  rw [Receiver.serve, arrData, hagree.posts _ _ htext]
  dsimp only
  unfold requestHandler
  rw [hpath, if_neg (by decide), if_pos rfl, putHostStatus, if_pos rfl, hend, authenticate,
    matchToken_string]
  cases entryFor token veriflierArray with
  | none => rw [hcode]
  | some veriflier => rfl

theorem sentToMaster_payload (hagree : Agree R Q jetmonServer) (veriflierArray : List Veriflier)
    {token : String} {results : List (Json ℤ)} (hresults : ∀ r ∈ results, IsResult r)
    (hne : results ≠ []) :
    sentToMaster (R.serve veriflierArray
        (arrData Q ⟨jetmonServer, resultDocument token results⟩)) =
      ((entryFor token veriflierArray).map
        (arrayMessage (resultDocument token results))).toList := by
  rw [serve_payload hagree veriflierArray hresults hne]
  cases entryFor token veriflierArray <;> rfl

theorem isNull_result {result : Json ℤ} (h : IsResult result) : isNull result = false := by
  obtain ⟨_, _, _, _, rfl⟩ := h
  rfl

theorem repliesOf_arrayMessage {token : String} {results : List (Json ℤ)}
    (hresults : ∀ r ∈ results, IsResult r) (veriflier : Veriflier) :
    repliesOf (arrayMessage (resultDocument token results) veriflier) =
      results.filterMap (replyOf veriflier.host) := by
  have htake : (results.takeWhile fun data => !isNull data) = results := by
    rw [List.takeWhile_eq_self_iff]
    intro r hr
    rw [isNull_result (hresults r hr)]
    rfl
  change ((results.takeWhile fun data => !isNull data).filterMap (replyOf veriflier.host)) = _
  rw [htake]

theorem replyOf_result {host : String} {site : Int32 × String} {status httpCode rtt : Int32}
    {reply : Reply} (h : replyOf host (arrResult site status httpCode rtt) = some reply) :
    reply.veriflierHost = host ∧ (reply.blogId : ℤ) = site.1.toInt ∧
      reply.monitorUrl = site.2 ∧ reply.status = status.toInt ∧ reply.rtt = rtt.toInt ∧
      reply.code = httpCode.toInt := by
  have hread : replyOf host (arrResult site status httpCode rtt) =
      match site.1.toInt with
      | .ofNat blogId =>
        some ⟨host, blogId, site.2, status.toInt, rtt.toInt, httpCode.toInt, 0, 0, 0⟩
      | .negSucc _ => none := by
    unfold replyOf arrResult Json.get lookup
    cases site.1.toInt <;> rfl
  rw [hread] at h
  cases hid : site.1.toInt with
  | negSucc n => simp [hid] at h
  | ofNat n =>
    obtain rfl : _ = reply := by simpa [hid] using h
    exact ⟨rfl, rfl, rfl, rfl, rfl, rfl⟩

def emptyLine : List Char := ['\x0d', '\n', '\x0d', '\n']

def behindEmptyLine (cs : List Char) : Option (List Char) :=
  (TextSearch.find emptyLine cs).map fun i => cs.drop (i + 4)

/-- A POST for the route of the results; nothing else is sent here. -/
def readPost (cs : List Char) : Option StatusServer.Request :=
  if "POST /put/host-status ".toList <+: cs then
    (behindEmptyLine cs).map fun body => ⟨"POST", "/put/host-status", String.ofList body⟩
  else none

def sampleReceiver : Receiver where
  http bytes := (JsonText.decode bytes).bind readPost
  script :=
    { numbers := { zero := 0, one := 1, equals := fun a b => a == b, toNumber := fun _ => 0,
                   toText := toString }
      parse := fun text => JsonText.parse text.toList
      query := fun _ => [] }

def headerStart : String :=
  "POST /put/host-status HTTP/1.1\x0d\nHost: 10.0.0.1\x0d\nContent-Type: application/json" ++
    "\x0d\nContent-Length:"

def headerEnd : String := "\x0d\nConnection: Keep-Alive\x0d\n\x0d\n"

theorem header_toList (size : ℕ) :
    (postHttpHeader "10.0.0.1" size).toList =
      headerStart.toList ++ ' ' :: (JsonText.digits size ++ headerEnd.toList) := by
  have hstart : ("POST /put/host-status" ++ " HTTP/1.1\x0d\nHost: " ++ "10.0.0.1" ++
      "\x0d\nContent-Type: application/json" ++ "\x0d\nContent-Length: ").toList =
      headerStart.toList ++ [' '] := by
    decide +kernel
  have hdigits : (toString size).toList = JsonText.digits size := by
    simp [JsonText.digits]
  unfold postHttpHeader
  rw [String.toList_append, String.toList_append, hstart, hdigits, headerEnd]
  simp

theorem find_header (size : ℕ) (body : List Char) :
    TextSearch.find emptyLine ((postHttpHeader "10.0.0.1" size).toList ++ body) =
      (((postHttpHeader "10.0.0.1" size).toList.length - 4 : ℕ) : WithTop ℕ) := by
  have hdigits : '\x0d' ∉ ' ' :: JsonText.digits size := by
    intro h
    rcases List.mem_cons.mp h with h | h
    · exact absurd h (by decide)
    · exact absurd (JsonText.digits_isDigit size _ h) (by decide)
  have hend : TextSearch.find emptyLine headerEnd.toList = ((24 : ℕ) : WithTop ℕ) := by
    decide +kernel
  have hlength : headerEnd.toList.length = 28 := by decide +kernel
  have hstart : ¬emptyLine <:+: headerStart.toList := by decide +kernel
  have htext : (postHttpHeader "10.0.0.1" size).toList ++ body =
      headerStart.toList ++ ' ' :: (JsonText.digits size ++ (headerEnd.toList ++ body)) := by
    rw [header_toList, List.append_assoc, List.cons_append, List.append_assoc]
  have hskip : TextSearch.find emptyLine
      (' ' :: JsonText.digits size ++ (headerEnd.toList ++ body)) =
        ((24 : ℕ) : WithTop ℕ) + (' ' :: JsonText.digits size).length := by
    rw [emptyLine, TextSearch.find_skip hdigits]
    exact congrArg (· + _) (TextSearch.find_append hend body)
  rw [htext, TextSearch.find_across (by decide) hstart, ← List.cons_append, hskip, header_toList]
  simp only [List.length_append, List.length_cons, hlength]
  rw [← Nat.cast_add, ← Nat.cast_add]
  exact congrArg Nat.cast (by omega)

theorem decode_append {body : ByteArray} {text : String} (h : String.fromUTF8? body = some text)
    (header : String) :
    JsonText.decode (header.toByteArray ++ body) = some (header.toList ++ text.toList) := by
  have hbody : text.toByteArray = body := by
    unfold String.fromUTF8? at h
    split at h
    · rw [← Option.some.inj h]
      rfl
    · contradiction
  have happend : header.toByteArray ++ body = JsonText.encode (header.toList ++ text.toList) := by
    rw [JsonText.encode, String.ofList_append, String.ofList_toList, String.ofList_toList,
      String.toByteArray_append, hbody]
  rw [happend, JsonText.decode_encode]

theorem behindEmptyLine_header (size : ℕ) (body : List Char) :
    behindEmptyLine ((postHttpHeader "10.0.0.1" size).toList ++ body) = some body := by
  have hlong : 4 ≤ (postHttpHeader "10.0.0.1" size).toList.length := by
    have hlength : headerEnd.toList.length = 28 := by decide +kernel
    rw [header_toList]
    simp only [List.length_append, List.length_cons, hlength]
    omega
  rw [behindEmptyLine, find_header]
  change some (List.drop (_ - 4 + 4) _) = _
  rw [Nat.sub_add_cancel hlong, List.drop_left]

theorem sampleReceiver_parse (text : String) :
    sampleReceiver.script.parse text = JsonText.parse text.toList := rfl

theorem sampleConversion_read (bytes : ByteArray) :
    sampleConversion.fromJson bytes = (JsonText.decode bytes).bind JsonText.parse := rfl

theorem sampleReceiver_agree : Agree sampleReceiver sampleConversion "10.0.0.1" where
  posts body text htext := by
    change (JsonText.decode _).bind readPost = _
    rw [decode_append htext, Option.bind_some, readPost, if_pos, behindEmptyLine_header]
    · simp
    · have hline : "POST /put/host-status ".toList <+: headerStart.toList := by decide +kernel
      rw [header_toList, List.append_assoc]
      exact hline.trans (List.prefix_append _ _)
  documents token results hresults := by
    have hread := sampleConversion_faithful token results hresults
    rw [sampleConversion_read] at hread
    obtain ⟨cs, hdecode, hparse⟩ := Option.bind_eq_some_iff.mp hread
    obtain ⟨text, htext, rfl⟩ := Option.map_eq_some_iff.mp hdecode
    refine ⟨text, htext, ?_⟩
    rw [sampleReceiver_parse]
    exact hparse

end ResultReturn

import Jetmon.JsonValue

/-! One post of wpcom.notifyStatusChange, lib/wpcom.js, and the callbacks that wait for its
outcome in lib/jetmon.js. The runtime calls the listeners of the request; JSON.parse is a
parameter. -/
namespace StatusNotice

open JsonValue

variable {ν : Type*}

/-- What the client tells the listeners of one request. `ended` is the end of the body, which
nothing listens to. -/
inductive Event where
  | response (statusCode : ℤ)
  | data (responseData : String)
  | ended
  | timeout
  | error
  deriving DecidableEq, Repr

/-- The listeners of one request: `replyData` belongs to response_handler, `calls` are the
arguments callBack was called with. -/
structure Request (ν : Type*) where
  replyData : Option (Json ν)
  calls : List (Json ν)

def failedReply : Json ν := .obj [("success", .bool false)]

/-- `reply_data.success = false`, which throws for null. -/
def markFailed : Json ν → Option (Json ν)
  | .null => none
  | v => some (v.set "success" (.bool false))

variable (parse : String → Option (Json ν))

/-- The reply for one more chunk; `none` when the assignment throws and callBack is not called. -/
def readChunk (replyData : Json ν) (responseData : String) : Option (Json ν) :=
  match parse responseData with
  | some v => some v
  | none => markFailed replyData

def handle (r : Request ν) : Event → Request ν
  | .response _ => { r with replyData := some (.obj []) }
  | .data responseData =>
    match r.replyData.bind fun old => readChunk parse old responseData with
    | some v => ⟨some v, r.calls ++ [v]⟩
    | none => r
  | .ended => r
  | .timeout | .error => { r with calls := r.calls ++ [failedReply] }

def notifyStatusChange (events : List Event) : Request ν := events.foldl (handle parse) ⟨none, []⟩

def truthy (isZero : ν → Bool) : Json ν → Bool
  | .null => false
  | .bool b => b
  | .num n => !isZero n
  | .str s => s ≠ ""
  | .arr _ | .obj _ => true

/-- The test `! reply.success` of the callbacks in workerMsgCallback and checkHostStatus; null
has no members to ask for, so that nothing is done. -/
def retries (isZero : ν → Bool) : Json ν → Bool
  | .null => false
  | reply => !(reply.get "success").any (truthy isZero)

/-- The posts made for one status change: the first and those of its callback. The callback
of a retry makes none. -/
def posts (isZero : ν → Bool) (events : List Event) : ℕ :=
  1 + ((notifyStatusChange parse events).calls.filter (retries isZero)).length

inductive Phase where
  | waiting | receiving | closed
  deriving DecidableEq, Repr

def Phase.next : Phase → Event → Option Phase
  | .waiting, .response _ => some .receiving
  | .waiting, .timeout => some .waiting
  | .receiving, .data _ => some .receiving
  | .receiving, .timeout => some .receiving
  | .receiving, .ended => some .closed
  | .waiting, .error | .receiving, .error => some .closed
  | _, _ => none

/-- The client can deliver these events, in this order. -/
def Consistent (p : Phase) : List Event → Prop
  | [] => True
  | e :: es => ∃ q ∈ p.next e, Consistent q es

instance instDecidableConsistent : ∀ p es, Decidable (Consistent p es)
  | _, [] => isTrue trivial
  | p, e :: es =>
    match h : p.next e with
    | none => isFalse fun ⟨_, hq, _⟩ => by rw [h] at hq; cases hq
    | some q =>
      have : Decidable (Consistent q es) := instDecidableConsistent q es
      decidable_of_iff (Consistent q es)
        ⟨fun hc => ⟨q, h, hc⟩, fun ⟨_, hq, hc⟩ => Option.some.inj (h.symm.trans hq) ▸ hc⟩

def chunk : Event → Option String
  | .data responseData => some responseData
  | _ => none

def chunks (events : List Event) : List String := events.filterMap chunk

def isFailure : Event → Bool
  | .timeout | .error => true
  | _ => false

def failures (events : List Event) : ℕ := events.countP isFailure

def body (events : List Event) : String := String.join (chunks events)

def Succeeds (v : Json ν) : Prop := v.get "success" = some (.bool true)

/-- What a status change is promised. -/
structure OneOutcome (isZero : ν → Bool) (events : List Event) : Prop where
  once : (notifyStatusChange parse events).calls.length = 1
  /-- The reply to a body that was received without a timeout or an error. -/
  truthful : .ended ∈ events → failures events = 0 →
    ∀ reply ∈ (notifyStatusChange parse events).calls,
      (Succeeds reply ↔ ∃ v, parse (body events) = some v ∧ Succeeds v)
  posted : posts parse isZero events ≤ 2

/-- One timeout or error and no body, or a body in one chunk. When the first chunk is null by
itself, further chunks that are not JSON go unnoticed. -/
def OneCall (events : List Event) : Prop :=
  (failures events = 1 ∧ chunks events = []) ∨
    (failures events = 0 ∧ ∃ first rest, chunks events = first :: rest ∧
      (rest = [] ∨ (parse first = some .null ∧ ∀ text ∈ rest, parse text = none)))

def NullAlone : Prop :=
  ∀ text rest v, parse text = some .null → parse (text ++ rest) = some v → v = .null

def replies (old : Json ν) : List String → List (Json ν)
  | [] => []
  | text :: rest =>
    match readChunk parse old text with
    | some v => v :: replies v rest
    | none => replies old rest

variable {parse}

theorem markFailed_isSome {v : Json ν} (h : v ≠ .null) : (markFailed v).isSome = true := by
  cases v with
  | null => exact absurd rfl h
  | bool | num | str | arr | obj => rfl

/-- The first chunk is always answered. -/
theorem readChunk_first (parse : String → Option (Json ν)) (text : String) :
    ∃ v, readChunk parse (.obj []) text = some v ∧ (v = .null ↔ parse text = some .null) := by
  unfold readChunk
  cases parse text with
  | some v => exact ⟨v, rfl, by simp⟩
  | none => exact ⟨failedReply, rfl, by simp [failedReply]⟩

/-- Nothing is answered any more only after null. -/
theorem replies_eq_nil {old : Json ν} {texts : List String} :
    replies parse old texts = [] ↔
      texts = [] ∨ (old = .null ∧ ∀ text ∈ texts, parse text = none) := by
  induction texts with
  | nil => simp [replies]
  | cons text rest ih =>
    rw [replies]
    cases hparse : parse text with
    | some v => simp [readChunk, hparse]
    | none =>
      by_cases hnull : old = .null
      · subst hnull
        have hread : readChunk parse .null text = none := by simp [readChunk, hparse, markFailed]
        simp only [hread, ih, hparse, true_and, List.forall_mem_cons, reduceCtorEq, false_or]
        constructor
        · rintro (rfl | h)
          · exact fun _ h => absurd h List.not_mem_nil
          · exact h
        · exact Or.inr
      · obtain ⟨v, hv⟩ := Option.isSome_iff_exists.mp (markFailed_isSome hnull)
        simp [readChunk, hparse, hv, hnull]

/-- What the events make of the reply `old`: every failure calls back once, and so does every
chunk that is answered. -/
structure Answers (parse : String → Option (Json ν)) (old : Json ν) (events : List Event)
    (calls : List (Json ν)) : Prop where
  count : calls.length = failures events + (replies parse old (chunks events)).length
  body : failures events = 0 → calls = replies parse old (chunks events)

theorem Answers.failure {old : Json ν} {e : Event} {events : List Event} {calls : List (Json ν)}
    (h : Answers parse old events calls) (he : isFailure e = true) :
    Answers parse old (e :: events) (failedReply :: calls) := by
  have hfails : failures (e :: events) = failures events + 1 := List.countP_cons_of_pos he
  have hchunks : chunks (e :: events) = chunks events := by
    cases e with
    | timeout | error => rfl
    | response | data | ended => exact absurd he Bool.false_ne_true
  refine ⟨?_, fun hnone => ?_⟩
  · rw [List.length_cons, h.count, hfails, hchunks]
    omega
  · rw [hfails] at hnone
    exact absurd hnone (Nat.succ_ne_zero _)

theorem Answers.chunk {old : Json ν} {text : String} {events : List Event}
    {calls : List (Json ν)} (h : Answers parse ((readChunk parse old text).getD old) events calls) :
    Answers parse old (.data text :: events) ((readChunk parse old text).toList ++ calls) := by
  have hreplies : replies parse old (chunks (.data text :: events)) =
      (readChunk parse old text).toList ++
        replies parse ((readChunk parse old text).getD old) (chunks events) := by
    change replies parse old (text :: chunks events) = _
    rw [replies]
    cases readChunk parse old text <;> rfl
  have hfails : failures (.data text :: events) = failures events :=
    List.countP_cons_of_neg Bool.false_ne_true
  refine ⟨?_, fun hnone => ?_⟩
  · rw [hreplies, hfails, List.length_append, List.length_append, h.count]
    omega
  · rw [hreplies, h.body (hfails ▸ hnone)]

def Listening (r : Request ν) : Phase → Prop
  | .waiting => r.replyData = none
  | .receiving => r.replyData.isSome = true
  | .closed => True

theorem foldl_calls (parse : String → Option (Json ν)) {p : Phase} {events : List Event}
    (h : Consistent p events) {r : Request ν} (hlisten : Listening r p) :
    ∃ calls, (events.foldl (handle parse) r).calls = r.calls ++ calls ∧
      Answers parse (r.replyData.getD (.obj [])) events calls := by
  induction events generalizing p r with
  | nil => exact ⟨[], (List.append_nil _).symm, rfl, fun _ => rfl⟩
  | cons e events ih =>
    obtain ⟨q, hq, hrest⟩ := h
    have hfailure : isFailure e = true → Listening r q →
        handle parse r e = { r with calls := r.calls ++ [failedReply] } →
        ∃ calls, ((e :: events).foldl (handle parse) r).calls = r.calls ++ calls ∧
          Answers parse (r.replyData.getD (.obj [])) (e :: events) calls := by
      intro he hlisten' hhandle
      obtain ⟨calls, hcalls, hanswers⟩ :=
        ih hrest (r := { r with calls := r.calls ++ [failedReply] })
          (by cases q <;> exact hlisten')
      refine ⟨failedReply :: calls, ?_, hanswers.failure he⟩
      rw [List.foldl_cons, hhandle, hcalls, List.append_assoc]
      rfl
    cases p with
    | waiting =>
      cases e with
      | response =>
        obtain rfl := Option.some.inj hq
        obtain ⟨calls, hcalls, hcount, hbody⟩ :=
          ih hrest (r := { r with replyData := some (.obj []) }) rfl
        have hnone : r.replyData = none := hlisten
        refine ⟨calls, hcalls, ?_⟩
        rw [hnone]
        exact ⟨hcount, hbody⟩
      | timeout | error =>
        obtain rfl := Option.some.inj hq
        exact hfailure rfl (by first | exact hlisten | trivial) rfl
      | data | ended => cases hq
    | receiving =>
      cases e with
      | data text =>
        obtain rfl := Option.some.inj hq
        obtain ⟨old, hold⟩ := Option.isSome_iff_exists.mp hlisten
        rw [hold, Option.getD_some]
        have hhandle : handle parse r (.data text) =
            ⟨some ((readChunk parse old text).getD old),
              r.calls ++ (readChunk parse old text).toList⟩ := by
          obtain ⟨replyData, calls⟩ := r
          obtain rfl : replyData = some old := hold
          cases hread : readChunk parse old text <;> simp [handle, hread]
        obtain ⟨calls, hcalls, hanswers⟩ := ih hrest (r := handle parse r (.data text))
          (by rw [hhandle]; exact rfl)
        rw [hhandle] at hcalls hanswers
        refine ⟨(readChunk parse old text).toList ++ calls, ?_, hanswers.chunk⟩
        rw [List.foldl_cons, hhandle, hcalls, List.append_assoc]
      | ended =>
        obtain rfl := Option.some.inj hq
        obtain ⟨calls, hcalls, hcount, hbody⟩ := ih hrest (r := r) trivial
        exact ⟨calls, hcalls, hcount, hbody⟩
      | timeout | error =>
        obtain rfl := Option.some.inj hq
        exact hfailure rfl (by first | exact hlisten | trivial) rfl
      | response => cases hq
    | closed => cases e <;> cases hq

theorem notifyStatusChange_calls {events : List Event} (h : Consistent .waiting events) :
    Answers parse (.obj []) events (notifyStatusChange parse events).calls := by
  obtain ⟨calls, hcalls, hanswers⟩ := foldl_calls parse h (r := ⟨none, []⟩) rfl
  have hall : (notifyStatusChange parse events).calls = calls := hcalls
  rw [hall]
  exact hanswers

theorem replies_first (parse : String → Option (Json ν)) (first : String) (rest : List String) :
    ∃ v, (v = .null ↔ parse first = some .null) ∧ readChunk parse (.obj []) first = some v ∧
      replies parse (.obj []) (first :: rest) = v :: replies parse v rest := by
  obtain ⟨v, hread, hnull⟩ := readChunk_first parse first
  exact ⟨v, hnull, hread, by rw [replies, hread]⟩

theorem calls_length_iff {events : List Event} (h : Consistent .waiting events) :
    (notifyStatusChange parse events).calls.length = 1 ↔ OneCall parse events := by
  rw [(notifyStatusChange_calls h).count, OneCall]
  cases hchunks : chunks events with
  | nil => simp [replies]
  | cons first rest =>
    obtain ⟨v, hnull, -, hreplies⟩ := replies_first parse first rest
    have hmore : (replies parse v rest).length = 0 ↔
        rest = [] ∨ (parse first = some .null ∧ ∀ text ∈ rest, parse text = none) := by
      rw [List.length_eq_zero_iff, replies_eq_nil, hnull]
    rw [hreplies, List.length_cons]
    constructor
    · intro hone
      exact .inr ⟨by omega, first, rest, rfl, hmore.mp (by omega)⟩
    · rintro (⟨-, hnone⟩ | ⟨hfails, first', rest', heq, hrest⟩)
      · cases hnone
      · obtain ⟨rfl, rfl⟩ := List.cons.inj heq
        rw [hfails, hmore.mpr hrest]

theorem readChunk_succeeds {text : String} {v : Json ν}
    (h : readChunk parse (.obj []) text = some v) :
    Succeeds v ↔ ∃ w, parse text = some w ∧ Succeeds w := by
  unfold readChunk at h
  cases hparse : parse text with
  | some w =>
    rw [hparse] at h
    simp [Option.some.inj h]
  | none =>
    rw [hparse] at h
    obtain rfl : failedReply = v := Option.some.inj h
    simp [Succeeds, failedReply, Json.get, lookup]

theorem truthful_of_oneCall (hparse : NullAlone parse) {events : List Event}
    (h : Consistent .waiting events) (hcall : OneCall parse events) (hfails : failures events = 0) :
    ∀ reply ∈ (notifyStatusChange parse events).calls,
      (Succeeds reply ↔ ∃ v, parse (body events) = some v ∧ Succeeds v) := by
  obtain ⟨hone, -⟩ | ⟨-, first, rest, hchunks, hrest⟩ := hcall
  · rw [hfails] at hone
    cases hone
  obtain ⟨v, hnull, hread, hreplies⟩ := replies_first parse first rest
  have hlast : replies parse v rest = [] := by
    rw [replies_eq_nil, hnull]
    exact hrest
  have hbody : body events = first ++ String.join rest := by
    rw [body, hchunks, String.join_cons]
  rw [(notifyStatusChange_calls h).body hfails, hchunks, hreplies, hlast, hbody]
  intro reply hreply
  obtain rfl : reply = v := List.mem_singleton.mp hreply
  rcases hrest with rfl | ⟨hfirst, -⟩
  · rw [String.join_nil, String.append_empty]
    exact readChunk_succeeds hread
  · -- null, and no continuation of it is an object
    have hnot : ¬Succeeds (Json.null : Json ν) := by simp [Succeeds, Json.get]
    rw [hnull.mpr hfirst]
    apply iff_of_false hnot
    rintro ⟨w, hw, hsucceeds⟩
    rw [hparse _ _ _ hfirst hw] at hsucceeds
    exact hnot hsucceeds

/-- A status change has one outcome, and the right one, exactly when the client reports one
thing: a timeout, an error, or a body in one piece. -/
theorem one_outcome_iff (parse : String → Option (Json ν)) (isZero : ν → Bool)
    (hparse : NullAlone parse) {events : List Event} (h : Consistent .waiting events) :
    OneOutcome parse isZero events ↔ OneCall parse events := by
  constructor
  · intro houtcome
    exact (calls_length_iff h).mp houtcome.once
  · intro hcall
    have hone := (calls_length_iff h).mpr hcall
    refine ⟨hone, fun _ hfails => truthful_of_oneCall hparse h hcall hfails, ?_⟩
    have hle := List.length_filter_le (retries isZero) (notifyStatusChange parse events).calls
    rw [posts]
    omega

def sampleParse (text : String) : Option (Json ℕ) :=
  if text = "\x7b\"success\":true\x7d" then some (.obj [("success", .bool true)]) else none

theorem sampleParse_nullAlone : NullAlone sampleParse := by
  intro text rest v hnull
  unfold sampleParse at hnull
  split at hnull <;> cases hnull

def wholeBody : List Event := [.response 200, .data "\x7b\"success\":true\x7d", .ended]

theorem one_outcome_whole_body :
    OneOutcome sampleParse (· == 0) wholeBody ↔ OneCall sampleParse wholeBody :=
  one_outcome_iff sampleParse (· == 0) sampleParse_nullAlone (by decide)

/-- The body of one successful post, in two chunks: two failures are reported and two retries
are sent. -/
theorem split_body_reported_twice :
    let events : List Event :=
      [.response 200, .data "\x7b\"success\":", .data "true\x7d", .ended]
    Consistent .waiting events ∧ sampleParse (body events) = some (.obj [("success", .bool true)]) ∧
      (notifyStatusChange sampleParse events).calls = [failedReply, failedReply] ∧
      posts sampleParse (· == 0) events = 3 ∧ ¬OneOutcome sampleParse (· == 0) events := by
  dsimp only
  have hcalls : (notifyStatusChange sampleParse
      [.response 200, .data "\x7b\"success\":", .data "true\x7d", .ended]).calls =
        [failedReply, failedReply] := rfl
  refine ⟨by decide, rfl, hcalls, rfl, fun h => ?_⟩
  have hone := h.once
  rw [hcalls] at hone
  exact absurd hone (by decide)

end StatusNotice

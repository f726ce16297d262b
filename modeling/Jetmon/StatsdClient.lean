import Jetmon.Batching
import Jetmon.Utf8Text

/-! The client of lib/statsd.js, which collects metrics in a buffer and sends the buffer in
datagrams. Strings are sequences of UTF-16 units. -/
namespace StatsdClient

open TransitionSystem

abbrev Text := List ℕ

def units (s : String) : Text := s.toList.map Char.toNat

def newline : ℕ := 10

/-- The numbers of the script, and how a template writes them. -/
structure Numbers (ν : Type*) where
  text : ν → Text
  one : ν
  text_ascii : ∀ n, ∀ u ∈ text n, u < 128

structure Datagram where
  msg : Text
  port : ℕ
  address : Text
  deriving DecidableEq, Repr

/-- The members of statsdClient. `datagrams` is a history: what socket.send has been called with,
also where it threw. `errors` is what has been logged. -/
structure Client where
  namePrefix : Text
  host : Text
  port : ℕ
  maxBufferSize : ℤ
  buffer : Text
  datagrams : List Datagram
  errors : List String
  deriving DecidableEq, Repr

def Client.init (namePrefix host : Text) (port : ℕ) (mtu : ℤ) : Client where
  namePrefix := namePrefix
  host := host
  port := port
  maxBufferSize := mtu - 29
  buffer := []
  datagrams := []
  errors := []

def Client.log (text : String) (c : Client) : Client := { c with errors := c.errors ++ [text] }

/-- `thrown` is what socket.send throws, if it does. -/
def Client.flush (thrown : Option String) (c : Client) : Client :=
  if c.buffer.length > 0 then
    let c := { c with buffer := [], datagrams := c.datagrams ++ [⟨c.buffer, c.port, c.host⟩] }
    match thrown with
    | some exception => c.log ("Exception when sending to statsd: " ++ exception)
    | none => c
  else c

def Client.send (message : Text) (thrown : Option String) (c : Client) : Client :=
  let message := c.namePrefix ++ message ++ [newline]
  let c :=
    if (c.buffer.length : ℤ) + message.length ≥ c.maxBufferSize then c.flush thrown else c
  { c with buffer := c.buffer ++ message }

variable {ν : Type*} (N : Numbers ν)

-- An argument that is missing or undefined has its default, 1

def incrementText (metric : Text) (value sampleRate : Option ν) : Text :=
  metric ++ units ":" ++ N.text (value.getD N.one) ++ units "|c|@" ++
    N.text (sampleRate.getD N.one)

def timingText (metric : Text) (value : ν) (sampleRate : Option ν) : Text :=
  metric ++ units ":" ++ N.text value ++ units "|ms|@" ++ N.text (sampleRate.getD N.one)

def gaugeText (metric : Text) (value : ν) : Text :=
  metric ++ units ":" ++ N.text value ++ units "|g"

inductive Call (ν : Type*) where
  | increment (metric : Text) (value sampleRate : Option ν)
  | timing (metric : Text) (value : ν) (sampleRate : Option ν)
  | gauge (metric : Text) (value : ν)
  | timer

/-- A call, with what socket.send throws in it, the answer of an earlier socket.send, or an error
of the socket. -/
inductive Event (ν : Type*) where
  | call (c : Call ν) (thrown : Option String)
  | answer (error : Option String)
  | error (error : String)

def Client.call (thrown : Option String) (c : Client) : Call ν → Client
  | .increment metric value sampleRate =>
    c.send (incrementText N metric value sampleRate) thrown
  | .timing metric value sampleRate => c.send (timingText N metric value sampleRate) thrown
  | .gauge metric value => c.send (gaugeText N metric value) thrown
  | .timer => c.flush thrown

def next (c : Client) : Event ν → Client
  | .call e thrown => c.call N thrown e
  | .answer (some error) => c.log ("Error when sending to statsd: " ++ error)
  | .answer none => c
  | .error error => c.log error

/-- `<node>.<datacenter>.<domain>` becomes `<datacenter>.<node>`. -/
def currentHostname (hostname : Text) : Text :=
  (units ".").intercalate ((hostname.splitOn 46).take 2).reverse

def statsdClient (hostname : Text) : Client :=
  let namePrefix := units "com.jetpack.jetmon." ++ currentHostname hostname ++ units "."
  if currentHostname hostname = units "jetmon.docker" then
    .init namePrefix (units "statsd") 8125 1500
  else .init namePrefix (units "127.0.0.1") 8125 65536

def machine : Machine Client (Event ν) :=
  ⟨fun c => ∃ namePrefix host port mtu, c = .init namePrefix host port mtu,
    fun _ _ => True, next N⟩

structure Message where
  text : Text
  terminated : text.getLast? = some newline

def Message.of (namePrefix message : Text) : Message :=
  ⟨namePrefix ++ message ++ [newline], List.getLast?_concat⟩

def Message.size (m : Message) : ℤ := m.text.length

def Call.text : Call ν → Option Text
  | .increment metric value sampleRate => some (incrementText N metric value sampleRate)
  | .timing metric value sampleRate => some (timingText N metric value sampleRate)
  | .gauge metric value => some (gaugeText N metric value)
  | .timer => none

def Call.metric : Call ν → Option Text
  | .increment metric _ _ => some metric
  | .timing metric _ _ => some metric
  | .gauge metric _ => some metric
  | .timer => none

def Event.toCall : Event ν → Option (Call ν)
  | .call e _ => some e
  | .answer _ | .error _ => none

def messages (namePrefix : Text) (es : List (Event ν)) : List Message :=
  ((es.filterMap Event.toCall).filterMap (Call.text N)).map (.of namePrefix)

def joined (ms : List Message) : Text := ms.flatMap Message.text

def Client.sent (c : Client) : List Text := c.datagrams.map Datagram.msg

/-- The messages are in the datagrams and the buffer, each of them in one piece. -/
structure Lossless (ms : List Message) (c : Client) : Prop where
  stream : c.sent.flatten ++ c.buffer = joined ms
  whole : ∃ (batches : List (List Message)) (rest : List Message),
    ms = batches.flatten ++ rest ∧ c.sent = batches.map joined ∧ c.buffer = joined rest
  filled : ∀ msg ∈ c.sent, msg ≠ []
  short : ∀ msg ∈ c.sent, (msg.length : ℤ) < c.maxBufferSize

def Ascii (text : Text) : Prop := ∀ u ∈ text, u < 128

/-- The names of the metrics, with the prefix. -/
def AsciiNames (namePrefix : Text) (es : List (Event ν)) : Prop :=
  ∀ e ∈ es.filterMap Event.toCall, ∀ metric ∈ e.metric, Ascii (namePrefix ++ metric)

def Event.batching (namePrefix : Text) : Event ν → List (Batching.Event Message)
  | .call e _ =>
    match e.text N with
    | some message => [.add (.of namePrefix message)]
    | none => [.flush]
  | .answer _ | .error _ => []

theorem items_batching (namePrefix : Text) (es : List (Event ν)) :
    (es.flatMap (Event.batching N namePrefix)).flatMap Batching.Event.items =
      messages N namePrefix es := by
  induction es with
  | nil => rfl
  | cons e es ih =>
    rw [List.flatMap_cons, List.flatMap_append, ih]
    cases e with
    | answer => rfl
    | error => rfl
    | call e thrown =>
      cases htext : e.text N <;>
        simp [Event.batching, htext, Batching.Event.items, messages, Event.toCall]

theorem joined_append (ms ms' : List Message) : joined (ms ++ ms') = joined ms ++ joined ms' :=
  List.flatMap_append

theorem joined_single (m : Message) : joined [m] = m.text := List.append_nil m.text

theorem joined_flatten (batches : List (List Message)) :
    joined batches.flatten = (batches.map joined).flatten := by
  induction batches with
  | nil => rfl
  | cons batch batches ih =>
    rw [List.flatten_cons, joined_append, ih, List.map_cons, List.flatten_cons]

theorem length_joined (ms : List Message) :
    ((joined ms).length : ℤ) = Batching.total Message.size ms := by
  induction ms with
  | nil => rfl
  | cons m ms ih =>
    rw [joined, List.flatMap_cons, List.length_append, Nat.cast_add, ← joined, ih]
    rfl

theorem Message.text_ne (m : Message) : m.text ≠ [] := by
  intro hnil
  have hlast := m.terminated
  rw [hnil] at hlast
  cases hlast

theorem joined_eq_nil {ms : List Message} : joined ms = [] ↔ ms = [] := by
  cases ms with
  | nil => exact iff_of_true rfl rfl
  | cons m ms => simp [joined, m.text_ne]

structure Refines (c₀ c : Client) (s : Batching.State Message) : Prop where
  namePrefix : c.namePrefix = c₀.namePrefix
  maxBufferSize : c.maxBufferSize = c₀.maxBufferSize
  buffer : c.buffer = joined s.current
  sent : c.sent = s.sent.map joined

variable {N} {c₀ c : Client} {s : Batching.State Message}

theorem log_refines (h : Refines c₀ c s) (text : String) : Refines c₀ (c.log text) s :=
  ⟨h.namePrefix, h.maxBufferSize, h.buffer, h.sent⟩

theorem flush_refines (h : Refines c₀ c s) (thrown : Option String) :
    Refines c₀ (c.flush thrown) s.flush := by
  unfold Client.flush Batching.State.flush
  by_cases hempty : s.current = []
  · have hbuffer : c.buffer = [] := by rw [h.buffer, joined_eq_nil.mpr hempty]
    rw [hbuffer, hempty]
    exact h
  · have hbuffer : c.buffer.length > 0 := by
      rw [h.buffer]
      exact List.length_pos_iff.mpr (mt joined_eq_nil.mp hempty)
    have hcurrent : ¬s.current.isEmpty = true := mt List.isEmpty_iff.mp hempty
    have hsent : Refines c₀
        { c with buffer := [], datagrams := c.datagrams ++ [⟨c.buffer, c.port, c.host⟩] }
        { s with sent := s.sent ++ [s.current], current := [] } := by
      refine ⟨h.namePrefix, h.maxBufferSize, rfl, ?_⟩
      have hold := h.sent
      simp only [Client.sent, List.map_append] at hold ⊢
      rw [hold, h.buffer]
      rfl
    rw [if_pos hbuffer, if_neg hcurrent]
    cases thrown with
    | none => exact hsent
    | some exception => exact log_refines hsent _

theorem append_refines (h : Refines c₀ c s) (added : List Message) (m : Message) :
    Refines c₀ { c with buffer := c.buffer ++ m.text }
      { s with added := added, current := s.current ++ [m] } :=
  ⟨h.namePrefix, h.maxBufferSize, by rw [joined_append, joined_single, ← h.buffer], h.sent⟩

theorem send_refines (h : Refines c₀ c s) (message : Text) (thrown : Option String) :
    Refines c₀ (c.send message thrown)
      (s.add Message.size c₀.maxBufferSize (.of c₀.namePrefix message)) := by
  let m := Message.of c₀.namePrefix message
  have htext : c.namePrefix ++ message ++ [newline] = m.text := by rw [h.namePrefix]; rfl
  have hfull : (c.buffer.length : ℤ) + m.text.length ≥ c.maxBufferSize ↔
      c₀.maxBufferSize ≤ Batching.total Message.size s.current + m.size := by
    rw [h.buffer, h.maxBufferSize, length_joined]
    rfl
  simp only [Client.send, htext, Batching.State.add]
  by_cases hlimit : (c.buffer.length : ℤ) + m.text.length ≥ c.maxBufferSize
  · rw [if_pos hlimit, if_pos (hfull.mp hlimit)]
    exact append_refines (flush_refines h thrown) _ m
  · rw [if_neg hlimit, if_neg (mt hfull.mpr hlimit)]
    exact append_refines h _ m

/-- One event. -/
theorem next_refines (h : Refines c₀ c s) (e : Event ν) :
    Refines c₀ (next N c e) ((Batching.machine Message.size c₀.maxBufferSize).exec s
      (e.batching N c₀.namePrefix)) := by
  cases e with
  | answer error =>
    cases error with
    | none => exact h
    | some error => exact log_refines h _
  | error error => exact log_refines h _
  | call e thrown =>
    cases e with
    | increment metric value sampleRate => exact send_refines h _ thrown
    | timing metric value sampleRate => exact send_refines h _ thrown
    | gauge metric value => exact send_refines h _ thrown
    | timer => exact flush_refines h thrown

theorem exec_refines (h : Refines c₀ c s) (es : List (Event ν)) :
    Refines c₀ ((machine N).exec c es) ((Batching.machine Message.size c₀.maxBufferSize).exec s
      (es.flatMap (Event.batching N c₀.namePrefix))) := by
  induction es generalizing c s with
  | nil => exact h
  | cons e es ih =>
    rw [Machine.exec, List.flatMap_cons, exec_append]
    exact ih (next_refines h e)

theorem start_refines (h : (machine N).start c) : Refines c c .empty := by
  obtain ⟨namePrefix, host, port, mtu, rfl⟩ := h
  exact ⟨rfl, rfl, rfl, rfl⟩

theorem lossless_of_invariant (h : Refines c₀ c s)
    (hs : Batching.Invariant Message.size c₀.maxBufferSize s) : Lossless s.added c where
  stream := by rw [h.sent, h.buffer, ← joined_flatten, ← joined_append, ← hs.in_order]
  whole := ⟨s.sent, s.current, hs.in_order, h.sent, h.buffer⟩
  filled := by
    intro msg hmsg
    rw [h.sent] at hmsg
    obtain ⟨batch, hbatch, rfl⟩ := List.mem_map.mp hmsg
    exact mt joined_eq_nil.mp (hs.filled batch hbatch)
  short := by
    intro msg hmsg
    rw [h.sent] at hmsg
    obtain ⟨batch, hbatch, rfl⟩ := List.mem_map.mp hmsg
    rw [length_joined, h.maxBufferSize]
    exact hs.within batch hbatch

theorem units_ascii {text : String} (h : text.toList.all (·.toNat < 128) = true) :
    Ascii (units text) := by
  intro u hu
  obtain ⟨c, hc, rfl⟩ := List.mem_map.mp hu
  exact of_decide_eq_true (List.all_eq_true.mp h c hc)

theorem ascii_append {a b : Text} : Ascii (a ++ b) ↔ Ascii a ∧ Ascii b := List.forall_mem_append

theorem message_ascii {namePrefix message : Text} {e : Call ν} (htext : message ∈ e.text N)
    (h : ∀ metric ∈ e.metric, Ascii (namePrefix ++ metric)) :
    Ascii (Message.of namePrefix message).text := by
  have hnumber (n : ν) : Ascii (N.text n) := N.text_ascii n
  have hcolon : Ascii (units ":") := units_ascii rfl
  have hcount : Ascii (units "|c|@") := units_ascii rfl
  have htime : Ascii (units "|ms|@") := units_ascii rfl
  have hgauge : Ascii (units "|g") := units_ascii rfl
  have hnewline : Ascii [newline] := fun u hu => by
    rw [List.mem_singleton.mp hu]
    decide
  cases e with
  | timer => cases htext
  | increment metric value sampleRate =>
    obtain rfl := Option.some.inj htext
    have hname := ascii_append.mp (h metric rfl)
    simp only [Message.of, incrementText, ascii_append]
    exact ⟨⟨hname.1, ⟨⟨⟨hname.2, hcolon⟩, hnumber _⟩, hcount⟩, hnumber _⟩, hnewline⟩
  | timing metric value sampleRate =>
    obtain rfl := Option.some.inj htext
    have hname := ascii_append.mp (h metric rfl)
    simp only [Message.of, timingText, ascii_append]
    exact ⟨⟨hname.1, ⟨⟨⟨hname.2, hcolon⟩, hnumber _⟩, htime⟩, hnumber _⟩, hnewline⟩
  | gauge metric value =>
    obtain rfl := Option.some.inj htext
    have hname := ascii_append.mp (h metric rfl)
    simp only [Message.of, gaugeText, ascii_append]
    exact ⟨⟨hname.1, ⟨⟨hname.2, hcolon⟩, hnumber _⟩, hgauge⟩, hnewline⟩

theorem messages_ascii {namePrefix : Text} {es : List (Event ν)} (h : AsciiNames namePrefix es) :
    ∀ m ∈ messages N namePrefix es, Ascii m.text := by
  intro m hm
  obtain ⟨message, hmessage, rfl⟩ := List.mem_map.mp hm
  obtain ⟨e, he, htext⟩ := List.mem_filterMap.mp hmessage
  exact message_ascii htext (h e he)

theorem Lossless.sent_ascii {ms : List Message} (h : Lossless ms c)
    (hascii : ∀ m ∈ ms, Ascii m.text) : ∀ msg ∈ c.sent, Ascii msg := by
  intro msg hmsg
  obtain ⟨batches, rest, rfl, hsent, -⟩ := h.whole
  rw [hsent] at hmsg
  obtain ⟨batch, hbatch, rfl⟩ := List.mem_map.mp hmsg
  intro u hu
  obtain ⟨m, hm, hum⟩ := List.mem_flatMap.mp hu
  exact hascii m (List.mem_append_left _ (List.mem_flatten_of_mem hbatch hm)) u hum

/-- The buffer neither loses nor splits a message, and no datagram reaches the limit. -/
theorem exec_lossless (N : Numbers ν) {c : Client} (es : List (Event ν))
    (h₀ : (machine N).start c)
    (hshort : ∀ m ∈ messages N c.namePrefix es, m.size < c.maxBufferSize) :
    Lossless (messages N c.namePrefix es) ((machine N).exec c es) ∧
      (AsciiNames c.namePrefix es → ∀ msg ∈ ((machine N).exec c es).sent,
        ((Utf8Text.toUtf8 msg).length : ℤ) < c.maxBufferSize) := by
  have href := exec_refines (N := N) (start_refines h₀) es
  have hvalid : (Batching.machine Message.size c.maxBufferSize).Valid
      (Batching.Fits Message.size c.maxBufferSize) .empty
      (es.flatMap (Event.batching N c.namePrefix)) := by
    rw [Batching.valid_iff, items_batching]
    exact hshort
  have hlossless := lossless_of_invariant href (Batching.exec_batches hvalid)
  rw [Batching.exec_added, items_batching] at hlossless
  refine ⟨hlossless, fun hnames msg hmsg => ?_⟩
  have hascii := hlossless.sent_ascii (messages_ascii hnames) msg hmsg
  rw [Utf8Text.toUtf8_ascii hascii, ← href.maxBufferSize]
  exact hlossless.short msg hmsg

theorem decimal_ascii (n : ℕ) : ∀ u ∈ (Nat.toDigits 10 n).map Char.toNat, u < 128 := by
  intro u hu
  obtain ⟨c, hc, rfl⟩ := List.mem_map.mp hu
  have hdigit := Nat.isDigit_of_mem_toDigits (by omega) (by omega) hc
  simp only [Char.isDigit, Bool.and_eq_true, decide_eq_true_eq] at hdigit
  have hmax : c.val.toNat ≤ 57 := UInt32.le_iff_toNat_le.mp hdigit.2
  exact Nat.lt_of_le_of_lt hmax (by omega)

def wholeNumbers : Numbers ℕ where
  text n := (Nat.toDigits 10 n).map Char.toNat
  one := 1
  text_ascii := decimal_ascii

theorem statsdClient_start (hostname : Text) : (machine N).start (statsdClient hostname) := by
  unfold statsdClient
  simp only
  split
  · exact ⟨_, _, _, _, rfl⟩
  · exact ⟨_, _, _, _, rfl⟩

def dockerClient : Client := statsdClient (units "docker.jetmon")

def dockerEvents : List (Event ℕ) :=
  [.call (.increment (units "worker.spawn.new.count") none none) none,
    .call (.timing (units "round.time") 250 none) none, .call .timer (some "ERR_SOCKET"),
    .call (.gauge (units "queue") 7) none]

theorem exec_lossless_docker :
    Lossless (messages wholeNumbers dockerClient.namePrefix dockerEvents)
        ((machine wholeNumbers).exec dockerClient dockerEvents) ∧
      (AsciiNames dockerClient.namePrefix dockerEvents →
        ∀ msg ∈ ((machine wholeNumbers).exec dockerClient dockerEvents).sent,
          ((Utf8Text.toUtf8 msg).length : ℤ) < dockerClient.maxBufferSize) :=
  exec_lossless wholeNumbers dockerEvents (statsdClient_start (units "docker.jetmon"))
    (by decide +kernel)

end StatsdClient

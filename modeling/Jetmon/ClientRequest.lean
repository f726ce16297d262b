import Jetmon.HostValues
import Jetmon.SiteIdentity
import Jetmon.Utf8Text

/-! ClientThread::readRequest of the veriflier, source/client_thread.cpp, on a request that
arrives in chunks. The type and the length of the request are taken from the first chunk; only
then is the rest waited for. -/
namespace ClientRequest

open ClientThread
open HostValues
open JsonValue
open MasterState (RetryEntry)
open NumberText
open SiteIdentity
open TextSearch
open Utf8Text

def indexOf (pat s : List ℕ) : ℤ :=
  match find pat s with
  | none => -1
  | some i => i

def left (n : ℤ) (s : List ℕ) : List ℕ := if n < 0 ∨ (s.length : ℤ) ≤ n then s else s.take n.toNat

def right (n : ℤ) (s : List ℕ) : List ℕ :=
  if n < 0 ∨ (s.length : ℤ) ≤ n then s else s.drop (s.length - n.toNat)

/-- `QString s_data = raw_data.data()`, which ends at a NUL. -/
def ofData (rawData : List ℕ) : List ℕ := fromUtf8 (rawData.takeWhile (· ≠ 0))

/-- What is written to the socket: the reply to a status query, or what sendOK or sendError
make of their argument. -/
inductive Response where
  | serviceOk
  | ok
  | error (text : String)
  deriving DecidableEq, Repr

def invalidFormat : Response := .error "Invalid HTTP request format."

def blankLine : List ℕ := codes "\x0d\n\x0d\n"

def getRequestType (rawData : List ℕ) : QueryType × List Response :=
  let sData := ofData rawData
  let pos := indexOf (codes "HTTP/1.") sData
  if pos = -1 then (.unknownQuery, [invalidFormat])
  else
    let sData := left (pos - 1) sData
    if codes "GET /get/status" <+: sData then (.serviceRunning, [])
    else if codes "GET /get/host-status" <+: sData then (.siteStatusCheck, [])
    else if codes "POST /get/host-status" <+: sData then (.siteStatusPostCheck, [])
    else (.unknownQuery, [])

/-- QJsonDocument::fromJson on the UTF-8 of a QString; `none` is a null document. -/
abbrev FromJson := List ℕ → Option (Json ℤ)

def parseJsonRequest (fromJson : FromJson) (rawData : List ℕ) : Option (Json ℤ) × List Response :=
  let sData := ofData rawData
  let pos := indexOf (codes "HTTP/1.") sData
  if pos = -1 then (none, [invalidFormat])
  else
    let sData := left (pos - 1) sData
    let sData := right (sData.length - indexOf (codes "/") sData) sData
    let sData := right (sData.length - indexOf (codes "?d=") sData - 3) sData
    (fromJson sData, [])

def parseJsonRequestPost (fromJson : FromJson) (rawData : List ℕ) :
    Option (Json ℤ) × List Response :=
  let sData := ofData rawData
  if indexOf (codes " HTTP/") sData = -1 then (none, [invalidFormat])
  else
    let pos := indexOf blankLine sData
    if pos = -1 then (none, [invalidFormat])
    else (fromJson (right (sData.length - pos - 4) sData), [])

def parseJsonRequestPostLength (rawData : List ℕ) : ℤ × List Response :=
  let sData := ofData rawData
  if indexOf (codes " HTTP/") sData = -1 then (-1, [invalidFormat])
  else
    let pos := indexOf blankLine sData
    if pos = -1 then (-1, [invalidFormat]) else (sData.length - pos - 4, [])

def getContentLength (rawData : List ℕ) : ℤ :=
  let sData := ofData rawData
  if indexOf (codes " HTTP/") sData = -1 then -1
  else
    let pos := indexOf (codes "Content-Length: ") sData
    if pos = -1 then if indexOf (codes "GET /") sData = 0 then 0 else -1
    else
      let sData := right (sData.length - (pos + 16)) sData
      let pos := indexOf (codes "\x0d\n") sData
      if pos = -1 then -1 else toInt (left pos sData)

/-- The loop of readRequest, for the chunks that are still to come. -/
def receive (contentLen : ℤ) (currentLen : ℤ) (data : List ℕ) :
    List (List ℕ) → List ℕ × List Response
  | [] => (data, [])
  | chunk :: chunks =>
    if currentLen < contentLen then
      let data := data ++ chunk
      let (currentLen, errors) := parseJsonRequestPostLength data
      let (data, more) := receive contentLen currentLen data chunks
      (data, errors ++ more)
    else (data, [])

structure Outcome where
  responses : List Response
  checks : List (Int32 × String)
  data : Option (List ℕ)
  deriving DecidableEq, Repr

/-- The end of readRequest, and of run when the request was accepted. -/
def finish (type : QueryType) (data : List ℕ) (document : Option (Json ℤ))
    (errors : List Response) :
    Outcome :=
  match document with
  | none => ⟨errors ++ [.error "Invalid JSON document format."], [], some data⟩
  | some document =>
    match readDocument type document with
    | .error text => ⟨errors ++ [.error text], [], some data⟩
    | .ok checks => ⟨errors ++ [.ok], checks, some data⟩

/-- ClientThread::readRequest and the reply of run. The number of UnknownQuery is 3. -/
def readRequest (fromJson : FromJson) (first : List ℕ) (later : List (List ℕ)) : Outcome :=
  if first.length = 0 then ⟨[], [], none⟩
  else
    let (type, errors) := getRequestType first
    if type = .unknownQuery then ⟨errors ++ [.error "Unknown query received: 3"], [], none⟩
    else if type = .serviceRunning then ⟨errors ++ [.serviceOk], [], none⟩
    else
      let contentLen := getContentLength first
      if contentLen = -1 then ⟨errors, [], none⟩
      else if contentLen = 0 then
        let (document, invalid) := parseJsonRequest fromJson first
        finish type first document (errors ++ invalid)
      else
        let (currentLen, early) := parseJsonRequestPostLength first
        let (data, more) := receive contentLen currentLen first later
        let (document, invalid) :=
          if type = .siteStatusPostCheck then parseJsonRequestPost fromJson data
          else parseJsonRequest fromJson data
        finish type data document (errors ++ early ++ more ++ invalid)

theorem indexOf_found {pat s : List ℕ} {i : ℕ} (h : find pat s = i) : indexOf pat s = i := by
  rw [indexOf, h]
  rfl

theorem indexOf_missing {pat s : List ℕ} (h : ¬pat <:+: s) : indexOf pat s = -1 := by
  simp only [indexOf, find_eq_top.mpr h]

theorem indexOf_ne {pat s : List ℕ} (h : pat <:+: s) : indexOf pat s ≠ -1 := by
  cases hf : find pat s with
  | top => exact absurd h (find_eq_top.mp hf)
  | coe i =>
    rw [indexOf_found hf]
    omega

theorem exists_find {pat s : List ℕ} (h : indexOf pat s ≠ -1) : ∃ i : ℕ, find pat s = i := by
  cases hf : find pat s with
  | top => exact absurd (indexOf_missing (find_eq_top.mp hf)) h
  | coe i => exact ⟨i, rfl⟩

theorem left_take {n : ℕ} {s : List ℕ} : left n s = s.take n := by
  unfold left
  split_ifs with h
  · rw [List.take_of_length_le (by omega)]
  · rfl

theorem right_drop {m : ℕ} {s : List ℕ} (h : m ≤ s.length) : right (s.length - m) s = s.drop m := by
  unfold right
  split_ifs with hall
  · obtain rfl : m = 0 := by omega
    rfl
  · congr 1
    omega

theorem find_end {pat s : List ℕ} {i : ℕ} (h : find pat s = i) : i + pat.length ≤ s.length := by
  have hpre := (prefix_of_find h).length_le
  have hbound := find_le h
  rw [List.length_drop] at hpre
  omega

theorem right_find {pat s : List ℕ} {i : ℕ} (h : find pat s = i) :
    right (s.length - ((i : ℤ) + pat.length)) s = s.drop (i + pat.length) := by
  rw [← right_drop (find_end h)]
  congr 1

def Plain (bytes : List ℕ) : Prop := ∀ b ∈ bytes, 0 < b ∧ b < 0x80

instance (bytes : List ℕ) : Decidable (Plain bytes) := by
  unfold Plain
  infer_instance

theorem ofData_plain {w : List ℕ} (h : Plain w) (b : List ℕ) : ofData (w ++ b) = w ++ ofData b := by
  induction w with
  | nil => rfl
  | cons u w ih =>
    obtain ⟨hu, hw⟩ := List.forall_mem_cons.mp h
    have hne : (u ≠ 0 : Prop) := Nat.ne_of_gt hu.1
    rw [ofData, List.cons_append, List.takeWhile_cons_of_pos (by simpa using hne),
      fromUtf8_ascii hu.2, ← ofData, ih hw]
    rfl

theorem ofData_of_not_mem {b : List ℕ} (h : 0 ∉ b) : ofData b = fromUtf8 b := by
  rw [ofData, List.takeWhile_eq_self_iff.mpr]
  intro u hu
  have hne : u ≠ 0 := fun hz => h (hz ▸ hu)
  simpa using hne

theorem ofData_self {w : List ℕ} (h : Plain w) : ofData w = w := by
  have happend := ofData_plain h []
  rwa [List.append_nil, show ofData [] = [] from rfl, List.append_nil] at happend

section Steps

variable {rawData s more : List ℕ} (hdata : ofData rawData = s)
include hdata

theorem parseLength_found (hhttp : codes " HTTP/" <:+: s) {i : ℕ} (hi : find blankLine s = i) :
    parseJsonRequestPostLength rawData = ((s.length : ℤ) - i - 4, []) := by
  simp only [parseJsonRequestPostLength, hdata]
  rw [if_neg (indexOf_ne hhttp), indexOf_found hi, if_neg (by omega)]

theorem parseLength_missing (h : ¬blankLine <:+: s) :
    parseJsonRequestPostLength rawData = (-1, [invalidFormat]) := by
  simp only [parseJsonRequestPostLength, hdata, indexOf_missing h, if_pos, ite_self]

theorem parsePost_found (fromJson : FromJson) (hhttp : codes " HTTP/" <:+: s) {i : ℕ}
    (hi : find blankLine s = i) :
    parseJsonRequestPost fromJson rawData = (fromJson (s.drop (i + 4)), []) := by
  have hright : right ((s.length : ℤ) - i - 4) s = s.drop (i + 4) := by
    rw [Int.sub_sub]
    exact right_find hi
  simp only [parseJsonRequestPost, hdata]
  rw [if_neg (indexOf_ne hhttp), indexOf_found hi, if_neg (by omega), hright]

theorem contentLength_found (hhttp : codes " HTTP/" <:+: s) {i : ℕ}
    (hi : find (codes "Content-Length: ") s = i) {j : ℕ}
    (hj : find (codes "\x0d\n") (s.drop (i + 16)) = j) :
    getContentLength rawData = toInt ((s.drop (i + 16)).take j) := by
  have hright : right (s.length - ((i : ℤ) + 16)) s = s.drop (i + 16) := right_find hi
  simp only [getContentLength, hdata]
  rw [if_neg (indexOf_ne hhttp), indexOf_found hi, if_neg (by omega), hright, indexOf_found hj,
    if_neg (by omega), left_take]

theorem contentLength_cases (hget : indexOf (codes "GET /") s ≠ 0) :
    getContentLength rawData = -1 ∨ ∃ i j : ℕ, codes " HTTP/" <:+: s ∧
      find (codes "Content-Length: ") s = i ∧ find (codes "\x0d\n") (s.drop (i + 16)) = j := by
  by_cases hhttp : codes " HTTP/" <:+: s
  · cases hi : find (codes "Content-Length: ") s with
    | top =>
      left
      simp only [getContentLength, hdata]
      rw [if_neg (indexOf_ne hhttp), indexOf_missing (find_eq_top.mp hi), if_pos rfl, if_neg hget]
    | coe i =>
      cases hj : find (codes "\x0d\n") (s.drop (i + 16)) with
      | coe j => exact Or.inr ⟨i, j, hhttp, rfl, hj⟩
      | top =>
        have hright : right (s.length - ((i : ℤ) + 16)) s = s.drop (i + 16) := right_find hi
        left
        simp only [getContentLength, hdata]
        rw [if_neg (indexOf_ne hhttp), indexOf_found hi, if_neg (by omega), hright,
          indexOf_missing (find_eq_top.mp hj), if_pos rfl]
  · left
    simp only [getContentLength, hdata, indexOf_missing hhttp, if_pos]

end Steps

structure IsLine (line : List ℕ) : Prop where
  ne_nil : line ≠ []
  plain : Plain line
  no_end : 13 ∉ line

instance (line : List ℕ) : Decidable (IsLine line) :=
  decidable_of_iff (line ≠ [] ∧ Plain line ∧ 13 ∉ line)
    ⟨fun h => ⟨h.1, h.2.1, h.2.2⟩, fun h => ⟨h.ne_nil, h.plain, h.no_end⟩⟩

def lineEnd : List ℕ := codes "\x0d\n"

def block (lines : List (List ℕ)) : List ℕ := lines.flatMap (· ++ lineEnd)

def units (body : List Char) : List ℕ := Encoding.utf16.text (body.map Char.toNat)

/-- What Node.js writes: the lines in front of Content-Length and behind it, and the body, whose
length in a JavaScript string is the length that is sent. -/
structure Request where
  before : List (List ℕ)
  after : List (List ℕ)
  body : List Char
  lines : ∀ line ∈ before ++ after, IsLine line
  before_other : ∀ line ∈ before, ¬codes "Content-Length: " <:+: line
  body_plain : ∀ c ∈ body, c.toNat ≠ 0
  body_end : EndsAscii (body.map Char.toNat)
  body_length : (units body).length < 2 ^ 31

namespace Request

variable (r : Request)

def requestLine : List ℕ := codes "POST /get/host-status HTTP/1.1"

def contentLength : List ℕ :=
  codes "Content-Length: " ++ (JsonText.digits (units r.body).length).map Char.toNat

def head : List ℕ := block (requestLine :: r.before ++ r.contentLength :: r.after) ++ lineEnd

def content : List ℕ := Encoding.utf8.text (r.body.map Char.toNat)

def bytes : List ℕ := r.head ++ r.content

end Request

theorem block_append (lines more : List (List ℕ)) :
    block (lines ++ more) = block lines ++ block more :=
  List.flatMap_append

theorem block_cons (line : List ℕ) (lines : List (List ℕ)) :
    block (line :: lines) = line ++ 13 :: 10 :: block lines := by
  rw [block, List.flatMap_cons, List.append_assoc]
  rfl

theorem block_plain {lines : List (List ℕ)} (h : ∀ line ∈ lines, IsLine line) :
    Plain (block lines) := by
  intro b hb
  obtain ⟨line, hline, hb⟩ := List.mem_flatMap.mp hb
  rcases List.mem_append.mp hb with hb | hb
  · exact (h line hline).plain b hb
  · have hboth : ∀ b ∈ lineEnd, 0 < b ∧ b < 0x80 := by decide
    exact hboth b hb

theorem find_block {pat : List ℕ} (hcr : 13 ∉ pat) (hlf : 10 ∉ pat) {lines : List (List ℕ)}
    (h : ∀ line ∈ lines, ¬pat <:+: line) (rest : List ℕ) :
    find pat (block lines ++ rest) = find pat rest + (block lines).length := by
  induction lines with
  | nil => simp [block]
  | cons line lines ih =>
    rw [List.forall_mem_cons] at h
    have hgap : find pat (13 :: 10 :: (block lines ++ rest)) =
        find pat (block lines ++ rest) + ((2 : ℕ) : WithTop ℕ) := by
      obtain ⟨p, ps, rfl⟩ : ∃ p ps, pat = p :: ps := by
        refine List.exists_cons_of_ne_nil fun hnil => h.1 ?_
        rw [hnil]
        exact List.nil_infix
      have hskip : p ∉ [13, 10] := by
        rw [List.mem_cons, not_or] at hcr hlf
        simpa using ⟨Ne.symm hcr.1, Ne.symm hlf.1⟩
      exact find_skip hskip (block lines ++ rest)
    have hlen :
        (line ++ 13 :: 10 :: block lines).length = (block lines).length + 2 + line.length := by
      simp only [List.length_append, List.length_cons]
      omega
    rw [block_cons, hlen, List.append_assoc, List.cons_append, List.cons_append,
      find_across hcr h.1,
      hgap, ih h.2]
    push_cast
    rw [add_assoc, add_assoc, add_assoc]

theorem blankLine_eq : blankLine = [13, 10, 13, 10] := by decide

theorem find_blank_line {lines : List (List ℕ)} (hne : lines ≠ []) (h : ∀ line ∈ lines, IsLine line)
    (rest : List ℕ) : ∃ i : ℕ, find blankLine (block lines ++ (lineEnd ++ rest)) = i ∧
      i + 4 = (block lines ++ lineEnd).length := by
  induction lines with
  | nil => contradiction
  | cons line lines ih =>
    rw [List.forall_mem_cons] at h
    have hline : find blankLine (block (line :: lines) ++ (lineEnd ++ rest)) =
        find blankLine (13 :: 10 :: (block lines ++ (lineEnd ++ rest))) + line.length := by
      rw [block_cons, List.append_assoc]
      exact find_skip h.1.no_end _
    have hlen : (block (line :: lines) ++ lineEnd).length =
        line.length + 2 + (block lines ++ lineEnd).length := by
      rw [block_cons]
      simp only [List.length_append, List.length_cons]
      omega
    rw [hline, hlen]
    cases lines with
    | nil =>
      have hstart : find blankLine (13 :: 10 :: (block [] ++ (lineEnd ++ rest))) = 0 :=
        find_at_start (List.prefix_append blankLine rest)
      refine ⟨line.length, ?_, rfl⟩
      rw [hstart, zero_add]
    | cons next lines =>
      obtain ⟨i, hi, hlength⟩ := ih (List.cons_ne_nil _ _) h.2
      have hnext := h.2 next (List.mem_cons_self ..)
      obtain ⟨u, us, rfl⟩ := List.exists_cons_of_ne_nil hnext.ne_nil
      have hu : u ≠ 13 := fun hu => hnext.no_end (hu ▸ List.mem_cons_self ..)
      refine ⟨line.length + 2 + i, ?_, by omega⟩
      have hfirst :
          ¬blankLine <+: 13 :: 10 :: (block ((u :: us) :: lines) ++ (lineEnd ++ rest)) := by
        rw [blankLine_eq, block_cons]
        simp only [List.cons_append, List.cons_prefix_cons]
        rintro ⟨-, -, hu', -⟩
        exact hu hu'.symm
      have hsecond : ¬blankLine <+: 10 :: (block ((u :: us) :: lines) ++ (lineEnd ++ rest)) := by
        rw [blankLine_eq, List.cons_prefix_cons]
        rintro ⟨hten, -⟩
        contradiction
      rw [find_cons hfirst, find_cons hsecond, hi]
      push_cast
      ring

def lengthDigits (n : ℕ) : List ℕ := (JsonText.digits n).map Char.toNat

theorem lengthDigits_all (n : ℕ) : (lengthDigits n).all isDigit = true := by
  rw [List.all_eq_true]
  intro u hu
  obtain ⟨c, hc, rfl⟩ := List.mem_map.mp hu
  have hdigit := JsonText.digits_isDigit n c hc
  simp only [Char.isDigit, Bool.and_eq_true, decide_eq_true_eq] at hdigit
  simp only [isDigit, Bool.and_eq_true, decide_eq_true_eq]
  exact hdigit

theorem value_lengthDigits (n : ℕ) : value (lengthDigits n) = n := by
  have hfold : value (lengthDigits n) = Nat.ofDigitChars 10 (JsonText.digits n) 0 := by
    rw [value, lengthDigits, List.foldl_map, Nat.ofDigitChars_eq_foldl]
    rfl
  rw [hfold, JsonText.digits, Nat.ofDigitChars_ten_toDigits]

theorem find_lengthDigits (n : ℕ) (rest : List ℕ) :
    find (codes "\x0d\n") (lengthDigits n ++ 13 :: 10 :: rest) = (lengthDigits n).length := by
  have hplain : 13 ∉ lengthDigits n := fun hm =>
    absurd (List.all_eq_true.mp (lengthDigits_all n) 13 hm) (by decide)
  have hskip : find (codes "\x0d\n") (lengthDigits n ++ 13 :: 10 :: rest) = _ :=
    find_skip hplain (13 :: 10 :: rest)
  have hstart : find (codes "\x0d\n") (13 :: 10 :: rest) = 0 :=
    find_at_start (List.prefix_append (codes "\x0d\n") rest)
  rw [hskip]
  exact (congrArg (· + _) hstart).trans (zero_add _)

theorem toInt_lengthDigits {n : ℕ} (h : n < 2 ^ 31) : NumberText.toInt (lengthDigits n) = n := by
  have hall := lengthDigits_all n
  have hne : lengthDigits n ≠ [] := mt List.map_eq_nil_iff.mp (JsonText.digits_ne_nil n)
  have hint := isInt_digits hall hne (by rwa [value_lengthDigits])
  rw [NumberText.toInt, if_pos hint, decimal_digits hall, value_lengthDigits]

namespace Request

variable (r : Request)

theorem isLine_requestLine : IsLine requestLine := by decide

theorem contentLength_plain : ∀ u ∈ r.contentLength, 13 < u ∧ u < 0x80 := by
  intro u hu
  rcases List.mem_append.mp hu with hu | hu
  · have hname : ∀ u ∈ codes "Content-Length: ", 13 < u ∧ u < 0x80 := by decide
    exact hname u hu
  · have hdigit := List.all_eq_true.mp (lengthDigits_all _) u hu
    simp only [isDigit, Bool.and_eq_true, decide_eq_true_eq] at hdigit
    omega

theorem isLine_contentLength : IsLine r.contentLength := by
  refine ⟨?_, fun u hu => ?_, fun hm => ?_⟩
  · exact List.append_ne_nil_of_left_ne_nil (by decide) _
  · have hplain := r.contentLength_plain u hu
    omega
  · exact absurd (r.contentLength_plain 13 hm).1 (lt_irrefl 13)

theorem isLine_all : ∀ line ∈ requestLine :: r.before ++ r.contentLength :: r.after,
    IsLine line := by
  intro line hline
  simp only [List.mem_append, List.mem_cons] at hline
  rcases hline with (rfl | hline) | rfl | hline
  · exact isLine_requestLine
  · exact r.lines line (List.mem_append_left _ hline)
  · exact r.isLine_contentLength
  · exact r.lines line (List.mem_append_right _ hline)

theorem head_plain : Plain r.head := by
  intro b hb
  rcases List.mem_append.mp hb with hb | hb
  · exact block_plain r.isLine_all b hb
  · have hboth : ∀ b ∈ lineEnd, 0 < b ∧ b < 0x80 := by decide
    exact hboth b hb

theorem head_eq (rest : List ℕ) : r.head ++ rest = block (requestLine :: r.before) ++
    (codes "Content-Length: " ++ (lengthDigits (units r.body).length ++
      13 :: 10 :: (block r.after ++ (lineEnd ++ rest)))) := by
  rw [head, block_append, block_cons r.contentLength]
  simp only [contentLength, lengthDigits, List.append_assoc, List.cons_append]

theorem find_head_blank (rest : List ℕ) : ∃ i : ℕ, find blankLine (r.head ++ rest) = i ∧
    i + 4 = r.head.length := by
  have hblank := find_blank_line (List.cons_ne_nil _ _) r.isLine_all rest
  rwa [← List.append_assoc] at hblank

theorem http_infix (rest : List ℕ) : codes " HTTP/" <:+: r.head ++ rest := by
  have hline : codes " HTTP/" <:+: requestLine := by decide
  rw [head_eq, block_cons, List.append_assoc]
  exact hline.trans (List.prefix_append _ _).isInfix

theorem getContentLength_head {rawData rest : List ℕ} (hdata : ofData rawData = r.head ++ rest) :
    getContentLength rawData = (units r.body).length := by
  have hother : ∀ line ∈ requestLine :: r.before, ¬codes "Content-Length: " <:+: line :=
    List.forall_mem_cons.mpr ⟨by decide, r.before_other⟩
  have hname : find (codes "Content-Length: ") (r.head ++ rest) =
      (block (requestLine :: r.before)).length := by
    rw [head_eq, find_block (by decide) (by decide) hother, find_at_start (List.prefix_append _ _),
      zero_add]
  have hdrop : (r.head ++ rest).drop ((block (requestLine :: r.before)).length + 16) =
      lengthDigits (units r.body).length ++ 13 :: 10 :: (block r.after ++ (lineEnd ++ rest)) := by
    rw [head_eq, List.drop_length_add_append]
    exact List.drop_left' rfl
  have hend : find (codes "\x0d\n") ((r.head ++ rest).drop
      ((block (requestLine :: r.before)).length + 16)) =
        (lengthDigits (units r.body).length).length := by
    rw [hdrop]
    exact find_lengthDigits _ _
  rw [contentLength_found hdata (r.http_infix rest) hname hend, hdrop, List.take_left,
    toInt_lengthDigits r.body_length]

theorem zero_not_mem_content : 0 ∉ r.content := by
  intro hm
  obtain ⟨c, hc, hzero⟩ := List.mem_map.mp ((Encoding.utf8.mem_text (by decide)).mp hm)
  exact r.body_plain c hc hzero

theorem content_scalar : ∀ c ∈ r.body.map Char.toNat, IsScalar c := by
  intro n hn
  obtain ⟨c, -, rfl⟩ := List.mem_map.mp hn
  have hvalid : c.toNat < 0xD800 ∨ 0xDFFF < c.toNat ∧ c.toNat < 0x110000 := c.valid
  unfold IsScalar IsSurrogate
  omega

theorem fromUtf8_content : fromUtf8 r.content = units r.body := fromUtf8_text r.content_scalar

theorem units_pos : 0 < (units r.body).length := by
  obtain ⟨body, a, b, hbody, -, -⟩ := r.body_end
  have hlen := length_le_text Encoding.utf16 (r.body.map Char.toNat)
  rw [hbody, List.length_append, List.length_cons, List.length_cons, ← hbody] at hlen
  change 0 < (Encoding.utf16.text (r.body.map Char.toNat)).length
  omega

theorem ofData_head {b : List ℕ} (hb : 0 ∉ b) : ofData (r.head ++ b) = r.head ++ fromUtf8 b := by
  rw [ofData_plain r.head_plain, ofData_of_not_mem hb]

theorem parseLength_head {b : List ℕ} (hb : 0 ∉ b) :
    parseJsonRequestPostLength (r.head ++ b) = (((fromUtf8 b).length : ℤ), []) := by
  obtain ⟨i, hi, hlen⟩ := r.find_head_blank (fromUtf8 b)
  rw [parseLength_found (r.ofData_head hb) (r.http_infix _) hi, List.length_append, Prod.mk.injEq]
  refine ⟨?_, rfl⟩
  push_cast
  omega

theorem receive_rest {chunks : List (List ℕ)} (hne : ∀ chunk ∈ chunks, chunk ≠ []) :
    ∀ {b : List ℕ}, b ++ chunks.flatten = r.content →
      receive (units r.body).length (fromUtf8 b).length (r.head ++ b) chunks = (r.bytes, []) := by
  induction chunks with
  | nil =>
    intro b hb
    rw [List.flatten_nil, List.append_nil] at hb
    rw [hb]
    rfl
  | cons chunk chunks ih =>
    intro b hb
    rw [List.forall_mem_cons] at hne
    rw [List.flatten_cons, ← List.append_assoc] at hb
    have hzero : 0 ∉ b ++ chunk := by
      intro hm
      apply r.zero_not_mem_content
      rw [← hb]
      exact List.mem_append_left _ hm
    have hpart : b = r.content.take b.length := by
      rw [← hb, List.append_assoc, List.take_left]
    have hshort : b.length < r.content.length := by
      have hpos := List.length_pos_iff.mpr hne.1
      rw [← hb, List.length_append, List.length_append]
      omega
    have hmissing : (fromUtf8 b).length < (units r.body).length := by
      rw [hpart]
      exact fromUtf8_take_length r.content_scalar r.body_end hshort
    rw [receive, if_pos (by exact_mod_cast hmissing), List.append_assoc]
    simp only [r.parseLength_head hzero, ih hne.2 hb]
    rfl

def start : List ℕ := codes "POST /get/host-status HTTP/1."

theorem start_head : start <+: r.head := by
  have hline : start <+: requestLine := by decide
  rw [head, List.cons_append, block_cons, List.append_assoc]
  exact hline.trans (List.prefix_append _ _)

theorem start_plain : Plain start := by decide

theorem requestType_start (b : List ℕ) :
    getRequestType (start ++ b) = (.siteStatusPostCheck, []) := by
  have hpos : find (codes "HTTP/1.") (start ++ ofData b) = ((22 : ℕ) : WithTop ℕ) :=
    find_append (by decide) _
  have hleft : left ((22 : ℕ) - 1 : ℤ) (start ++ ofData b) = codes "POST /get/host-status" := by
    have htake : left (21 : ℕ) (start ++ ofData b) = start.take 21 := by
      rw [left_take, List.take_append_of_le_length (by decide)]
    exact htake
  simp only [getRequestType, ofData_plain start_plain, indexOf_found hpos, hleft]
  decide

theorem not_get (b : List ℕ) : indexOf (codes "GET /") (start ++ b) ≠ 0 := by
  intro hzero
  obtain ⟨i, hi⟩ := exists_find (by rw [hzero]; decide)
  rw [indexOf_found hi] at hzero
  obtain rfl : i = 0 := by exact_mod_cast hzero
  have hpre : codes "GET /" <+: start :=
    List.prefix_of_prefix_length_le (prefix_of_find hi) (List.prefix_append start b) (by decide)
  exact absurd hpre (by decide)

theorem blank_line_missing {k : ℕ} (hk : k < r.head.length) : ¬blankLine <:+: r.head.take k := by
  intro hin
  obtain ⟨i, hi⟩ := exists_find (indexOf_ne hin)
  have hshort := find_end hi
  have hfour : blankLine.length = 4 := rfl
  obtain ⟨j, hj, hblank⟩ := r.find_head_blank []
  have hi' : find blankLine (r.head.take k ++ r.head.drop k) = i := find_append hi _
  rw [List.append_nil] at hj
  rw [List.take_append_drop, hj] at hi'
  obtain rfl : j = i := WithTop.coe_injective hi'
  rw [List.length_take, hfour] at hshort
  omega

theorem requestType_short : ∀ k < start.length,
    getRequestType (start.take k) = (.unknownQuery, [invalidFormat]) := by
  decide +kernel

end Request

theorem contentLength_append {rawData longer s more : List ℕ} (hdata : ofData rawData = s)
    (hlonger : ofData longer = s ++ more) (hget : indexOf (codes "GET /") s ≠ 0) :
    getContentLength rawData = -1 ∨ getContentLength rawData = getContentLength longer := by
  rcases contentLength_cases hdata hget with h | ⟨i, j, hhttp, hi, hj⟩
  · exact Or.inl h
  · right
    have hdrop : (s ++ more).drop (i + 16) = s.drop (i + 16) ++ more :=
      List.drop_append_of_le_length (find_end hi)
    have hj' : find (codes "\x0d\n") ((s ++ more).drop (i + 16)) = j := by
      rw [hdrop]
      exact find_append hj _
    rw [contentLength_found hdata hhttp hi hj,
      contentLength_found hlonger (hhttp.trans (List.prefix_append _ _).isInfix) (find_append hi _)
        hj',
      hdrop, List.take_append_of_le_length (find_le hj)]

theorem finish_responses (type : QueryType) (data : List ℕ) (document : Option (Json ℤ))
    (errors : List Response) :
    (finish type data document errors).responses.length = errors.length + 1 := by
  unfold finish
  split
  · rw [List.length_append]
    rfl
  · split
    all_goals
      rw [List.length_append]
      rfl

namespace Request

variable (fromJson : FromJson) (r : Request)

theorem readRequest_head {b : List ℕ} {later : List (List ℕ)}
    (hwhole : b ++ later.flatten = r.content)
    (hne : ∀ chunk ∈ later, chunk ≠ []) : readRequest fromJson (r.head ++ b) later =
      finish .siteStatusPostCheck r.bytes (fromJson (units r.body)) [] := by
  have hzero : 0 ∉ b := by
    intro hm
    apply r.zero_not_mem_content
    rw [← hwhole]
    exact List.mem_append_left _ hm
  obtain ⟨tail, htail⟩ := r.start_head
  have hsome : (r.head ++ b).length ≠ 0 := by
    rw [← htail, List.append_assoc, List.length_append]
    exact ne_of_gt (Nat.add_pos_left (by decide) _)
  have htype : getRequestType (r.head ++ b) = (.siteStatusPostCheck, []) := by
    rw [← htail, List.append_assoc]
    exact requestType_start _
  have hlen := r.getContentLength_head (r.ofData_head hzero)
  have hpost : parseJsonRequestPost fromJson r.bytes = (fromJson (units r.body), []) := by
    obtain ⟨i, hi, hblank⟩ := r.find_head_blank (fromUtf8 r.content)
    rw [bytes, parsePost_found (r.ofData_head r.zero_not_mem_content) fromJson (r.http_infix _) hi,
      hblank, List.drop_left, r.fromUtf8_content]
  have hpos := r.units_pos
  simp only [readRequest, htype, hlen, r.parseLength_head hzero, r.receive_rest hne hwhole, hpost]
  rw [if_neg hsome, if_neg (by decide), if_neg (by decide), if_neg (by omega), if_neg (by omega)]
  rfl

theorem readRequest_short {k : ℕ} (hpos : 0 < k) (hk : k < r.head.length) (later : List (List ℕ)) :
    (readRequest fromJson (r.head.take k) later).responses.length ≠ 1 := by
  obtain ⟨tail, htail⟩ := r.start_head
  have hsome : (r.head.take k).length ≠ 0 := by
    rw [List.length_take]
    omega
  rcases Nat.lt_or_ge k start.length with hline | hline
  · have htype : getRequestType (r.head.take k) = (.unknownQuery, [invalidFormat]) := by
      rw [← htail, List.take_append_of_le_length (le_of_lt hline)]
      exact requestType_short k hline
    simp only [readRequest, htype]
    rw [if_neg hsome, if_pos trivial]
    decide
  · have hplain : Plain (r.head.take k) := fun b hb => r.head_plain b (List.mem_of_mem_take hb)
    have hfirst : r.head.take k = start ++ tail.take (k - start.length) := by
      rw [← htail, List.take_append, List.take_of_length_le hline]
    have htype : getRequestType (r.head.take k) = (.siteStatusPostCheck, []) := by
      rw [hfirst]
      exact requestType_start _
    have hget : indexOf (codes "GET /") (r.head.take k) ≠ 0 := by
      rw [hfirst]
      exact not_get _
    have hblank := r.blank_line_missing hk
    have hdata := ofData_self hplain
    have hlonger : ofData r.head = r.head.take k ++ r.head.drop k := by
      rw [List.take_append_drop, ofData_self r.head_plain]
    have hwhole : ofData r.head = r.head ++ [] := by rw [List.append_nil, ofData_self r.head_plain]
    rcases contentLength_append hdata hlonger hget with hlen | hlen
    · simp only [readRequest, htype, hlen]
      rw [if_neg hsome, if_neg (by decide), if_neg (by decide), if_pos trivial]
      decide
    · have hunits := r.units_pos
      rw [r.getContentLength_head hwhole] at hlen
      simp only [readRequest, htype, hlen, parseLength_missing hdata hblank]
      rw [if_neg hsome, if_neg (by decide), if_neg (by decide), if_neg (by omega),
        if_neg (by omega),
        finish_responses]
      simp only [List.length_append, List.length_cons]
      omega

end Request

/-- A request reads in chunks as it reads in one piece if and only if its whole head is in the
first chunk. -/
theorem request_segmentation_iff (fromJson : FromJson) (r : Request) (cut : Cut r.bytes) :
    readRequest fromJson cut.first cut.later = readRequest fromJson r.bytes [] ↔
      r.head.length ≤ cut.first.length := by
  have hwhole : readRequest fromJson r.bytes [] =
      finish .siteStatusPostCheck r.bytes (fromJson (units r.body)) [] :=
    r.readRequest_head fromJson (by simp) (by simp)
  rw [hwhole]
  rcases Nat.lt_or_ge cut.first.length r.head.length with hshort | hlong
  · refine iff_of_false (fun hsame => ?_) (Nat.not_le.mpr hshort)
    have hfirst : cut.first = r.head.take cut.first.length :=
      cut.first_eq.trans (List.take_append_of_le_length (le_of_lt hshort))
    have hdiffers :=
      r.readRequest_short fromJson (List.length_pos_iff.mpr cut.first_ne) hshort cut.later
    rw [← hfirst, hsame, finish_responses] at hdiffers
    exact hdiffers rfl
  · refine iff_of_true ?_ hlong
    obtain ⟨n, hn⟩ := Nat.exists_eq_add_of_le hlong
    have hfirst : cut.first = r.head ++ r.content.take n := by
      rw [cut.first_eq, hn]
      exact List.take_length_add_append n
    have hlater : r.content.take n ++ cut.later.flatten = r.content := by
      have hsum : r.head ++ (r.content.take n ++ cut.later.flatten) = r.head ++ r.content := by
        rw [← List.append_assoc, ← hfirst]
        exact cut.whole
      exact List.append_cancel_left hsum
    rw [hfirst]
    exact r.readRequest_head fromJson hlater cut.later_ne

def requestData (token : String) (checkArray : List RetryEntry) : List Char :=
  JsonText.render JsonText.compact 0 (requestDocument token checkArray)

theorem requestData_visible (token : String) (checkArray : List RetryEntry) :
    JsonText.Visible (requestData token checkArray) := JsonText.visible_render _ 0

theorem requestData_end (token : String) (checkArray : List RetryEntry) :
    EndsAscii ((requestData token checkArray).map Char.toNat) := by
  obtain ⟨cs, hcs⟩ := JsonText.render_arr_end 1 (checkArray.map entryJson)
  have hchecks :
      JsonText.renderMember JsonText.compact 1 ("checks", .arr (checkArray.map entryJson)) =
      JsonText.quoted "checks" ++ ':' :: (cs ++ [']']) := by
    rw [JsonText.renderMember, hcs, List.append_assoc]
    rfl
  have hdata : requestData token checkArray =
      ('\x7b' :: JsonText.renderMember JsonText.compact 1 ("auth_token", .str token)) ++
        (',' :: (JsonText.quoted "checks" ++ ':' :: (cs ++ [']'])) ++ ['\x7d']) := by
    rw [← hchecks]
    rfl
  refine ⟨(('\x7b' :: JsonText.renderMember JsonText.compact 1 ("auth_token", .str token)) ++
    ',' :: (JsonText.quoted "checks" ++ ':' :: cs)).map Char.toNat, 93, 125, ?_, by decide,
    by decide⟩
  have hends : [93, 125] = [']', '\x7d'].map Char.toNat := rfl
  rw [hdata, hends, ← List.map_append]
  simp only [List.append_assoc, List.cons_append, List.nil_append]

/-- What get_remote_status_array sends, with the lines that Node.js adds. -/
def statusRequest (token : String) (checkArray : List RetryEntry) (added : List (List ℕ))
    (hadded : ∀ line ∈ added, IsLine line)
    (hlength : (units (requestData token checkArray)).length < 2 ^ 31) : Request where
  before := [codes "Content-Type: application/json"]
  after := added
  body := requestData token checkArray
  lines := List.forall_mem_cons.mpr ⟨by decide, hadded⟩
  before_other := List.forall_mem_cons.mpr ⟨by decide, nofun⟩
  body_plain c hc := by
    have hvisible := requestData_visible token checkArray c hc
    omega
  body_end := requestData_end token checkArray
  body_length := hlength

def sampleRequest : Request :=
  statusRequest "token" [sampleEntry 7] [codes "Host: veriflier:7803", codes "Connection: close"]
    (by decide) (by decide +kernel)

def requestLineFirst : Cut sampleRequest.bytes where
  first := block [Request.requestLine]
  later := [sampleRequest.bytes.drop (block [Request.requestLine]).length]
  first_ne := by decide
  later_ne := by decide +kernel
  whole := by decide +kernel

/-- QJsonDocument::fromJson on a text of ASCII characters. -/
def asciiJson : FromJson := fun units => JsonText.parse (units.map Char.ofNat)

/-- The socket is closed without a response, although the request is accepted in one piece. -/
theorem request_line_unanswered :
    ¬∀ (fromJson : FromJson) (r : Request) (cut : Cut r.bytes),
      readRequest fromJson cut.first cut.later = readRequest fromJson r.bytes [] := by
  intro h
  have hcut : (readRequest asciiJson requestLineFirst.first requestLineFirst.later).responses =
      [] := by
    decide +kernel
  have hwhole : (readRequest asciiJson sampleRequest.bytes []).responses = [.ok] := by
    decide +kernel
  rw [h, hwhole] at hcut
  contradiction

end ClientRequest

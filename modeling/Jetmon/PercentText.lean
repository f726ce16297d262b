import Jetmon.JsonText

/-! Percent-encoding: encodeURIComponent, and how the query of a URL is read. -/
namespace PercentText

open JsonText (hexDigit hexValue)

/-- Letters, digits and the marks that stand for themselves, the last of them the apostrophe. -/
def isUnreserved (c : Char) : Bool :=
  c.isAlphanum || ['-', '_', '.', '!', '~', '*', '(', ')', Char.ofNat 39].contains c

def escape (b : UInt8) : List Char :=
  ['%', hexDigit 'A' (b.toNat / 16), hexDigit 'A' (b.toNat % 16)]

def encodeChar (c : Char) : List Char :=
  if isUnreserved c then [c] else (String.utf8EncodeChar c).flatMap escape

def encodeURIComponent (cs : List Char) : List Char := cs.flatMap encodeChar

/-- The bytes of a value in a query, where `+` stands for a space. -/
def decode : List Char → Option (List UInt8)
  | [] => some []
  | c :: rest =>
    if c = '%' then
      match rest with
      | a :: b :: rest => do
        let high ← hexValue a
        let low ← hexValue b
        let bytes ← decode rest
        return UInt8.ofNat (16 * high + low) :: bytes
      | _ => none
    else do
      let bytes ← decode rest
      return (if c = '+' then 32 else UInt8.ofNat c.toNat) :: bytes

def text (bytes : List UInt8) : Option (List Char) := JsonText.decode bytes.toByteArray

def fields (url : List Char) : List (List Char × List Char) :=
  (((url.takeWhile (· != '#')).dropWhile (· != '?')).tail.splitOn '&').map fun field =>
    (field.takeWhile (· != '='), (field.dropWhile (· != '=')).tail)

theorem hexValue_hexDigit : ∀ n < 16, hexValue (hexDigit 'A' n) = some n := by decide

theorem decode_escape (b : UInt8) (rest : List Char) :
    decode (escape b ++ rest) = (decode rest).map (b :: ·) := by
  have hlt : b.toNat < 256 := b.toNat_lt
  have hhigh := hexValue_hexDigit (b.toNat / 16) (by omega)
  have hlow := hexValue_hexDigit (b.toNat % 16) (by omega)
  have hbyte : UInt8.ofNat (16 * (b.toNat / 16) + b.toNat % 16) = b := by
    rw [Nat.div_add_mod]
    exact UInt8.ofNat_toNat
  have hunfold : decode (escape b ++ rest) = (do
      let high ← hexValue (hexDigit 'A' (b.toNat / 16))
      let low ← hexValue (hexDigit 'A' (b.toNat % 16))
      let bytes ← decode rest
      return UInt8.ofNat (16 * high + low) :: bytes) := by
    simp only [escape, List.cons_append, List.nil_append, decode, if_true]
  rw [hunfold, hhigh, hlow]
  cases decode rest with
  | none => rfl
  | some bytes => exact congrArg (fun b => some (b :: bytes)) hbyte

theorem decode_escapes (bs : List UInt8) (rest : List Char) :
    decode (bs.flatMap escape ++ rest) = (decode rest).map (bs ++ ·) := by
  induction bs with
  | nil => simp
  | cons b bs ih =>
    rw [List.flatMap_cons, List.append_assoc, decode_escape, ih, Option.map_map]
    rfl

theorem unreserved_cases {c : Char} (h : isUnreserved c = true) :
    c.toNat < 128 ∧ c ≠ '%' ∧ c ≠ '+' := by
  unfold isUnreserved at h
  rw [Bool.or_eq_true] at h
  obtain h | h := h
  · refine ⟨?_, ?_, ?_⟩
    · simp only [Char.isAlphanum, Char.isAlpha, Char.isUpper, Char.isLower, Char.isDigit,
        Bool.or_eq_true, Bool.and_eq_true, decide_eq_true_eq, ge_iff_le, UInt32.le_iff_toNat_le]
        at h
      change c.val.toNat < 128
      have hz : 'z'.val.toNat = 122 := rfl
      have hZ : 'Z'.val.toNat = 90 := rfl
      have h9 : '9'.val.toNat = 57 := rfl
      omega
    · rintro rfl
      exact absurd h (by decide)
    · rintro rfl
      exact absurd h (by decide)
  · revert h
    simp only [List.contains_iff_mem, List.mem_cons, List.not_mem_nil, or_false]
    rintro (rfl | rfl | rfl | rfl | rfl | rfl | rfl | rfl | rfl) <;> decide

theorem utf8_ascii {c : Char} (h : c.toNat < 128) :
    String.utf8EncodeChar c = [UInt8.ofNat c.toNat] := by
  have hsize : c.utf8Size = 1 := by
    rw [Char.utf8Size_eq_one_iff]
    exact Nat.le_of_lt_succ h
  rw [String.utf8EncodeChar_eq_singleton hsize]
  rfl

theorem decode_plain {c : Char} (h : c ≠ '%') (rest : List Char) :
    decode (c :: rest) = (do
      let bytes ← decode rest
      return (if c = '+' then 32 else UInt8.ofNat c.toNat) :: bytes) := by
  rw [decode.eq_def]
  exact if_neg h

theorem decode_encodeChar (c : Char) (rest : List Char) :
    decode (encodeChar c ++ rest) = (decode rest).map (String.utf8EncodeChar c ++ ·) := by
  unfold encodeChar
  split
  · rename_i h
    obtain ⟨hascii, hpercent, hplus⟩ := unreserved_cases h
    rw [utf8_ascii hascii, List.singleton_append, decode_plain hpercent]
    cases decode rest with
    | none => rfl
    | some bytes => exact congrArg (fun b => some (b :: bytes)) (if_neg hplus)
  · exact decode_escapes _ rest

theorem decode_encodeURIComponent (cs : List Char) :
    decode (encodeURIComponent cs) = some (cs.flatMap String.utf8EncodeChar) := by
  induction cs with
  | nil => rfl
  | cons c cs ih =>
    rw [encodeURIComponent, List.flatMap_cons, decode_encodeChar]
    rw [encodeURIComponent] at ih
    rw [ih]
    rfl

/-- A text is read back as it was, whatever its characters are. -/
theorem text_encodeURIComponent (cs : List Char) :
    (decode (encodeURIComponent cs)).bind text = some cs := by
  rw [decode_encodeURIComponent, Option.bind_some, text]
  have hencode : (cs.flatMap String.utf8EncodeChar).toByteArray = JsonText.encode cs := by
    rw [JsonText.encode, String.toByteArray_ofList]
    rfl
  rw [hencode]
  exact JsonText.decode_encode cs

theorem hexDigit_unreserved : ∀ n < 16, isUnreserved (hexDigit 'A' n) = true := by decide

def Safe (c : Char) : Prop := isUnreserved c = true ∨ c = '%'

theorem encodeURIComponent_safe (cs : List Char) : ∀ c ∈ encodeURIComponent cs, Safe c := by
  intro c hc
  obtain ⟨d, -, hc⟩ := List.mem_flatMap.mp hc
  unfold encodeChar at hc
  split at hc
  · rename_i h
    exact .inl (List.mem_singleton.mp hc ▸ h)
  · obtain ⟨b, -, hc⟩ := List.mem_flatMap.mp hc
    have hlt : b.toNat < 256 := b.toNat_lt
    simp only [escape, List.mem_cons, List.not_mem_nil, or_false] at hc
    obtain rfl | rfl | rfl := hc
    · exact .inr rfl
    · exact .inl (hexDigit_unreserved _ (by omega))
    · exact .inl (hexDigit_unreserved _ (by omega))

theorem unreserved_plain {c : Char} (h : isUnreserved c = true) :
    c ≠ '?' ∧ c ≠ '#' ∧ c ≠ '&' ∧ c ≠ '=' := by
  refine ⟨?_, ?_, ?_, ?_⟩ <;> rintro rfl <;> exact absurd h (by decide)

theorem Safe.plain {c : Char} (h : Safe c) : c ≠ '?' ∧ c ≠ '#' ∧ c ≠ '&' ∧ c ≠ '=' := by
  obtain h | rfl := h
  · exact unreserved_plain h
  · decide

theorem dropWhile_until {c : Char} {cs : List Char} (h : ∀ d ∈ cs, d ≠ c) (rest : List Char) :
    (cs ++ c :: rest).dropWhile (· != c) = c :: rest := by
  rw [List.dropWhile_append_of_pos fun d hd => bne_iff_ne.mpr (h d hd)]
  simp

theorem takeWhile_until {c : Char} {cs : List Char} (h : ∀ d ∈ cs, d ≠ c) (rest : List Char) :
    (cs ++ c :: rest).takeWhile (· != c) = cs := by
  rw [List.takeWhile_append_of_pos fun d hd => bne_iff_ne.mpr (h d hd)]
  simp

theorem fields_single {path name value : List Char}
    (hpath : ∀ c ∈ path, c ≠ '?' ∧ c ≠ '#') (hname : ∀ c ∈ name, Safe c)
    (hvalue : ∀ c ∈ value, Safe c) :
    fields (path ++ '?' :: (name ++ '=' :: value)) = [(name, value)] := by
  have hquery : ∀ c ∈ name ++ '=' :: value, c ≠ '#' ∧ c ≠ '&' := by
    intro c hc
    rw [List.mem_append, List.mem_cons] at hc
    obtain hc | rfl | hc := hc
    · exact ⟨(hname c hc).plain.2.1, (hname c hc).plain.2.2.1⟩
    · decide
    · exact ⟨(hvalue c hc).plain.2.1, (hvalue c hc).plain.2.2.1⟩
  have hwhole : (path ++ '?' :: (name ++ '=' :: value)).takeWhile (· != '#') =
      path ++ '?' :: (name ++ '=' :: value) := by
    apply List.takeWhile_eq_self_iff.mpr
    intro c hc
    rw [List.mem_append, List.mem_cons] at hc
    obtain hc | rfl | hc := hc
    · exact bne_iff_ne.mpr (hpath c hc).2
    · decide
    · exact bne_iff_ne.mpr (hquery c hc).1
  have hsplit : (name ++ '=' :: value).splitOn '&' = [name ++ '=' :: value] :=
    List.splitOn_eq_singleton fun h => (hquery _ h).2 rfl
  have hequals : ∀ c ∈ name, c ≠ '=' := fun c hc => (hname c hc).plain.2.2.2
  rw [fields, hwhole, dropWhile_until fun c hc => (hpath c hc).1, List.tail_cons, hsplit,
    List.map_singleton, takeWhile_until hequals, dropWhile_until hequals, List.tail_cons]

end PercentText

import Jetmon.JsonValue

/-! The text of JSON values whose numbers are integers. One printer with a layout stands for
the compact and the indented form; the parser skips white space and inverts both. Texts are
lists of characters. -/
namespace JsonText

open JsonValue

def isBlank (c : Char) : Bool := c == ' ' || c == '\t' || c == '\n' || c == '\x0d'

/-- `ten` is the letter that stands for 10. -/
def hexDigit (ten : Char) (n : ℕ) : Char :=
  if n < 10 then Char.ofNat (48 + n) else Char.ofNat (ten.toNat + (n - 10))

def hexValue (c : Char) : Option ℕ :=
  if '0' ≤ c ∧ c ≤ '9' then some (c.toNat - 48)
  else if 'a' ≤ c ∧ c ≤ 'f' then some (c.toNat - 87)
  else if 'A' ≤ c ∧ c ≤ 'F' then some (c.toNat - 55)
  else none

def escape (c : Char) : List Char :=
  if c = '"' then ['\\', '"']
  else if c = '\\' then ['\\', '\\']
  else if c = '\n' then ['\\', 'n']
  else if c = '\t' then ['\\', 't']
  else if c = '\x0d' then ['\\', 'r']
  else if c = '\x08' then ['\\', 'b']
  else if c = '\x0c' then ['\\', 'f']
  else if c.toNat < 32 then
    ['\\', 'u', '0', '0', hexDigit 'a' (c.toNat / 16), hexDigit 'a' (c.toNat % 16)]
  else [c]

def unescape : Char → Option Char
  | '"' => some '"'
  | '\\' => some '\\'
  | '/' => some '/'
  | 'n' => some '\n'
  | 't' => some '\t'
  | 'r' => some '\x0d'
  | 'b' => some '\x08'
  | 'f' => some '\x0c'
  | _ => none

/-- The four digits behind a `\u`; a half of a surrogate pair stands for no character. -/
def unicode (a b c d : Char) : Option Char := do
  let n := 4096 * (← hexValue a) + 256 * (← hexValue b) + 16 * (← hexValue c) + (← hexValue d)
  if n.isValidChar then some (Char.ofNat n) else none

def readString : List Char → Option (List Char × List Char)
  | [] => none
  | '"' :: rest => some ([], rest)
  | '\\' :: 'u' :: a :: b :: c :: d :: rest =>
    (unicode a b c d).bind fun x => (readString rest).map fun r => (x :: r.1, r.2)
  | '\\' :: e :: rest =>
    (unescape e).bind fun x => (readString rest).map fun r => (x :: r.1, r.2)
  | c :: rest => if c.toNat < 32 then none else (readString rest).map fun r => (c :: r.1, r.2)

theorem readString_plain {c : Char} (hquote : c ≠ '"') (hslash : c ≠ '\\')
    (hcontrol : ¬c.toNat < 32) (rest : List Char) :
    readString (c :: rest) = (readString rest).map fun r => (c :: r.1, r.2) := by
  simp [readString, hslash, hcontrol]

theorem unicode_hexDigit :
    ∀ n < 32, unicode '0' '0' (hexDigit 'a' (n / 16)) (hexDigit 'a' (n % 16)) =
      some (Char.ofNat n) := by
  decide

theorem readString_escape (c : Char) (rest : List Char) :
    readString (escape c ++ rest) = (readString rest).map fun r => (c :: r.1, r.2) := by
  unfold escape
  split_ifs with hquote hslash hn ht hr hb hf hcontrol
  all_goals try subst c
  all_goals try rfl
  · rw [List.cons_append, List.cons_append, List.cons_append, List.cons_append, List.cons_append,
      List.cons_append, List.nil_append, readString, unicode_hexDigit _ hcontrol, Char.ofNat_toNat]
    rfl
  · exact readString_plain hquote hslash hcontrol rest

def escaped (cs : List Char) : List Char := cs.flatMap escape

theorem readString_escaped (cs rest : List Char) :
    readString (escaped cs ++ '"' :: rest) = some (cs, rest) := by
  induction cs with
  | nil => rfl
  | cons c cs ih =>
    rw [escaped, List.flatMap_cons, List.append_assoc, readString_escape]
    rw [escaped] at ih
    rw [ih]
    rfl

def Ended (rest : List Char) : Prop := ∀ c ∈ rest.head?, c.isDigit = false

def digits (n : ℕ) : List Char := Nat.toDigits 10 n

def number (n : ℤ) : List Char := if n < 0 then '-' :: digits n.natAbs else digits n.natAbs

def readDigits (cs : List Char) : Option (ℕ × List Char) :=
  if (cs.takeWhile Char.isDigit).isEmpty then none
  else some (Nat.ofDigitChars 10 (cs.takeWhile Char.isDigit) 0, cs.dropWhile Char.isDigit)

def readNumber : List Char → Option (ℤ × List Char)
  | '-' :: rest => (readDigits rest).map fun r => (-r.1, r.2)
  | cs => (readDigits cs).map fun r => (r.1, r.2)

theorem digits_isDigit (n : ℕ) : ∀ c ∈ digits n, c.isDigit = true := fun _ hc =>
  Nat.isDigit_of_mem_toDigits (by omega) (by omega) hc

theorem digits_ne_nil (n : ℕ) : digits n ≠ [] := Nat.toDigits_ne_nil

theorem Ended.stops {rest : List Char} (h : Ended rest) :
    rest.takeWhile Char.isDigit = [] ∧ rest.dropWhile Char.isDigit = rest := by
  cases rest with
  | nil => exact ⟨rfl, rfl⟩
  | cons c rest =>
    have hc : c.isDigit = false := h c rfl
    simp [hc]

theorem readDigits_digits {rest : List Char} (h : Ended rest) (n : ℕ) :
    readDigits (digits n ++ rest) = some (n, rest) := by
  have htake : (digits n ++ rest).takeWhile Char.isDigit = digits n := by
    rw [List.takeWhile_append_of_pos (digits_isDigit n), h.stops.1, List.append_nil]
  have hdrop : (digits n ++ rest).dropWhile Char.isDigit = rest := by
    rw [List.dropWhile_append_of_pos (digits_isDigit n), h.stops.2]
  rw [readDigits, htake, hdrop, if_neg (by simpa using digits_ne_nil n), digits,
    Nat.ofDigitChars_ten_toDigits]

theorem readNumber_number {rest : List Char} (h : Ended rest) (n : ℤ) :
    readNumber (number n ++ rest) = some (n, rest) := by
  unfold number
  split
  case isTrue hneg =>
    have hvalue : -(n.natAbs : ℤ) = n := by omega
    rw [List.cons_append, readNumber, readDigits_digits h, Option.map_some, hvalue]
  case isFalse hnonneg =>
    obtain ⟨c, cs, hcs⟩ := List.exists_cons_of_ne_nil (digits_ne_nil n.natAbs)
    have hc : c.isDigit = true := digits_isDigit n.natAbs c (hcs ▸ List.mem_cons_self)
    have hminus : c ≠ '-' := by
      rintro rfl
      exact absurd hc (by decide)
    have hread := readDigits_digits h n.natAbs
    rw [hcs, List.cons_append] at hread ⊢
    rw [readNumber, hread]
    · have hvalue : (n.natAbs : ℤ) = n := by omega
      rw [Option.map_some, hvalue]
    · exact fun _ heq => hminus (List.cons.inj heq).1

def skipBlanks (cs : List Char) : List Char := cs.dropWhile isBlank

mutual

/-- A value and the text behind it; every call uses up one unit of fuel. -/
def parseValue : ℕ → List Char → Option (Json ℤ × List Char)
  | 0, _ => none
  | fuel + 1, cs =>
    match skipBlanks cs with
    | 'n' :: 'u' :: 'l' :: 'l' :: rest => some (.null, rest)
    | 't' :: 'r' :: 'u' :: 'e' :: rest => some (.bool true, rest)
    | 'f' :: 'a' :: 'l' :: 's' :: 'e' :: rest => some (.bool false, rest)
    | '"' :: rest => (readString rest).map fun r => (.str (String.ofList r.1), r.2)
    | '[' :: rest =>
      match skipBlanks rest with
      | ']' :: rest => some (.arr [], rest)
      | rest => (parseItems fuel rest).map fun r => (.arr r.1, r.2)
    | '\x7b' :: rest =>
      match skipBlanks rest with
      | '\x7d' :: rest => some (.obj [], rest)
      | rest => (parseMembers fuel rest).map fun r => (.obj r.1, r.2)
    | cs => (readNumber cs).map fun r => (.num r.1, r.2)

def parseItems : ℕ → List Char → Option (List (Json ℤ) × List Char)
  | 0, _ => none
  | fuel + 1, cs =>
    (parseValue fuel cs).bind fun v =>
      match skipBlanks v.2 with
      | ',' :: rest => (parseItems fuel rest).map fun r => (v.1 :: r.1, r.2)
      | ']' :: rest => some ([v.1], rest)
      | _ => none

def parseMembers : ℕ → List Char → Option (List (String × Json ℤ) × List Char)
  | 0, _ => none
  | fuel + 1, cs =>
    match skipBlanks cs with
    | '"' :: rest =>
      (readString rest).bind fun key =>
        match skipBlanks key.2 with
        | ':' :: rest =>
          (parseValue fuel rest).bind fun v =>
            match skipBlanks v.2 with
            | ',' :: rest =>
              (parseMembers fuel rest).map fun r => ((String.ofList key.1, v.1) :: r.1, r.2)
            | '\x7d' :: rest => some ([(String.ofList key.1, v.1)], rest)
            | _ => none
        | _ => none
    | _ => none

end

/-- The value of a text that holds nothing but this value and white space. -/
def parse (cs : List Char) : Option (Json ℤ) :=
  (parseValue (2 * cs.length) cs).bind fun r => if skipBlanks r.2 = [] then some r.1 else none

attribute [local simp] parseValue parseItems parseMembers

structure Layout where
  line : ℕ → List Char
  gap : List Char
  line_blank : ∀ depth, ∀ c ∈ line depth, isBlank c = true
  gap_blank : ∀ c ∈ gap, isBlank c = true

def compact : Layout where
  line _ := []
  gap := []
  line_blank := by simp
  gap_blank := by simp

def indented : Layout where
  line depth := '\n' :: List.replicate (4 * depth) ' '
  gap := [' ']
  line_blank depth c hc := by
    rcases List.mem_cons.mp hc with rfl | hc
    · rfl
    · rw [List.eq_of_mem_replicate hc]
      rfl
  gap_blank := by simp [isBlank]

def quoted (s : String) : List Char := '"' :: escaped s.toList ++ ['"']

variable (L : Layout)

mutual

def render (depth : ℕ) : Json ℤ → List Char
  | .null => ['n', 'u', 'l', 'l']
  | .bool true => ['t', 'r', 'u', 'e']
  | .bool false => ['f', 'a', 'l', 's', 'e']
  | .num n => number n
  | .str s => quoted s
  | .arr [] => '[' :: L.line depth ++ [']']
  | .arr (v :: rest) =>
    '[' :: L.line (depth + 1) ++ render (depth + 1) v ++ renderItems depth rest
  | .obj [] => '\x7b' :: L.line depth ++ ['\x7d']
  | .obj (m :: rest) =>
    '\x7b' :: L.line (depth + 1) ++ renderMember (depth + 1) m ++ renderMembers depth rest

def renderItems (depth : ℕ) : List (Json ℤ) → List Char
  | [] => L.line depth ++ [']']
  | v :: rest =>
    ',' :: L.line (depth + 1) ++ render (depth + 1) v ++ renderItems depth rest

def renderMember (depth : ℕ) : String × Json ℤ → List Char
  | (key, v) => quoted key ++ ':' :: L.gap ++ render depth v

def renderMembers (depth : ℕ) : List (String × Json ℤ) → List Char
  | [] => L.line depth ++ ['\x7d']
  | m :: rest => ',' :: L.line (depth + 1) ++ renderMember (depth + 1) m ++ renderMembers depth rest

end

def Blank (cs : List Char) : Prop := ∀ c ∈ cs, isBlank c = true

theorem skipBlanks_append {blanks : List Char} (h : Blank blanks) (cs : List Char) :
    skipBlanks (blanks ++ cs) = skipBlanks cs := List.dropWhile_append_of_pos h

theorem skipBlanks_cons {c : Char} (h : isBlank c = false) (cs : List Char) :
    skipBlanks (c :: cs) = c :: cs := by
  simp [skipBlanks, h]

theorem blank_not_digit {c : Char} (h : isBlank c = true) : c.isDigit = false := by
  simp only [isBlank, Bool.or_eq_true, beq_iff_eq] at h
  obtain ((rfl | rfl) | rfl) | rfl := h <;> rfl

theorem digit_not_blank {c : Char} (h : c.isDigit = true) : isBlank c = false := by
  by_contra hblank
  rw [blank_not_digit (by simpa using hblank)] at h
  contradiction

theorem ended_of_blank {blanks : List Char} (h : Blank blanks) {c : Char} (hc : c.isDigit = false)
    (rest : List Char) : Ended (blanks ++ c :: rest) := by
  cases blanks with
  | nil => simpa [Ended] using hc
  | cons b blanks =>
    simpa [Ended] using blank_not_digit (h b List.mem_cons_self)

variable {L}

theorem number_head (n : ℤ) : ∃ c cs, number n = c :: cs ∧ (c = '-' ∨ c.isDigit = true) := by
  unfold number
  split
  · exact ⟨'-', _, rfl, .inl rfl⟩
  · obtain ⟨c, cs, hcs⟩ := List.exists_cons_of_ne_nil (digits_ne_nil n.natAbs)
    exact ⟨c, cs, hcs, .inr (digits_isDigit n.natAbs c (hcs ▸ List.mem_cons_self))⟩

theorem render_head (depth : ℕ) (v : Json ℤ) :
    ∃ c cs, render L depth v = c :: cs ∧ isBlank c = false ∧ c ≠ ']' := by
  cases v with
  | null => exact ⟨_, _, rfl, rfl, by decide⟩
  | bool b => cases b <;> exact ⟨_, _, rfl, rfl, by decide⟩
  | str s => exact ⟨_, _, rfl, rfl, by decide⟩
  | arr items => cases items <;> exact ⟨_, _, rfl, rfl, by decide⟩
  | obj members => cases members <;> exact ⟨_, _, rfl, rfl, by decide⟩
  | num n =>
    obtain ⟨c, cs, hcs, hc⟩ := number_head n
    refine ⟨c, cs, hcs, ?_, ?_⟩
    · rcases hc with rfl | hc
      · rfl
      · exact digit_not_blank hc
    · rintro rfl
      revert hc
      decide

theorem parseValue_number {fuel : ℕ} {c : Char} (h : c = '-' ∨ c.isDigit = true)
    (cs : List Char) :
    parseValue (fuel + 1) (c :: cs) = (readNumber (c :: cs)).map fun r => (.num r.1, r.2) := by
  have hblank : isBlank c = false := by
    rcases h with rfl | h
    · rfl
    · exact digit_not_blank h
  have hother : ∀ d, d ≠ '-' ∧ d.isDigit = false → c ≠ d := by
    rintro d ⟨hminus, hdigit⟩ rfl
    rcases h with h | h
    · exact hminus h
    · rw [hdigit] at h
      contradiction
  rw [parseValue, skipBlanks_cons hblank]
  split
  case h_7 => rfl
  all_goals
    rename_i heq
    exact absurd (List.cons.inj heq).1 (hother _ (by decide))

theorem parseValue_blanks {blanks : List Char} (h : Blank blanks) (fuel : ℕ) (cs : List Char) :
    parseValue fuel (blanks ++ cs) = parseValue fuel cs := by
  cases fuel with
  | zero => simp
  | succ fuel => rw [parseValue, parseValue, skipBlanks_append h]

theorem parseItems_step {fuel : ℕ} {cs rest : List Char} {v : Json ℤ}
    (h : parseValue fuel cs = some (v, rest)) :
    parseItems (fuel + 1) cs =
      match skipBlanks rest with
      | ',' :: rest => (parseItems fuel rest).map fun r => (v :: r.1, r.2)
      | ']' :: rest => some ([v], rest)
      | _ => none := by
  rw [parseItems, h]
  rfl

theorem parseItems_blanks {blanks : List Char} (h : Blank blanks) (fuel : ℕ) (cs : List Char) :
    parseItems fuel (blanks ++ cs) = parseItems fuel cs := by
  cases fuel with
  | zero => simp
  | succ fuel => rw [parseItems, parseItems, parseValue_blanks h]

theorem parseMembers_blanks {blanks : List Char} (h : Blank blanks) (fuel : ℕ) (cs : List Char) :
    parseMembers fuel (blanks ++ cs) = parseMembers fuel cs := by
  cases fuel with
  | zero => simp
  | succ fuel => rw [parseMembers, parseMembers, skipBlanks_append h]

theorem parseValue_items {blanks : List Char} (h : Blank blanks) {c : Char}
    (hblank : isBlank c = false) (hclose : c ≠ ']') (fuel : ℕ) (cs : List Char) :
    parseValue (fuel + 1) ('[' :: (blanks ++ c :: cs)) =
      (parseItems fuel (c :: cs)).map fun r => (.arr r.1, r.2) := by
  rw [parseValue, skipBlanks_cons rfl]
  simp only [skipBlanks_append h, skipBlanks_cons hblank]
  split
  · rename_i heq
    exact absurd (List.cons.inj heq).1 hclose
  · rfl

theorem parseValue_members {blanks : List Char} (h : Blank blanks) (fuel : ℕ) (cs : List Char) :
    parseValue (fuel + 1) ('\x7b' :: (blanks ++ '"' :: cs)) =
      (parseMembers fuel ('"' :: cs)).map fun r => (.obj r.1, r.2) := by
  rw [parseValue, skipBlanks_cons rfl]
  simp only [skipBlanks_append h, skipBlanks_cons (show isBlank '"' = false from rfl)]
  rfl

theorem parseMembers_step {fuel : ℕ} {key : String} {cs rest : List Char} {v : Json ℤ}
    (h : parseValue fuel cs = some (v, rest)) :
    parseMembers (fuel + 1) (quoted key ++ ':' :: cs) =
      match skipBlanks rest with
      | ',' :: rest => (parseMembers fuel rest).map fun r => ((key, v) :: r.1, r.2)
      | '\x7d' :: rest => some ([(key, v)], rest)
      | _ => none := by
  have hquoted : quoted key ++ ':' :: cs =
      '"' :: (escaped key.toList ++ '"' :: ':' :: cs) := by simp [quoted]
  rw [hquoted, parseMembers, skipBlanks_cons rfl]
  simp only [readString_escaped, Option.bind_some, String.ofList_toList,
    skipBlanks_cons (show isBlank ':' = false from rfl), h]

theorem renderItems_ended (depth : ℕ) (items : List (Json ℤ)) (rest : List Char) :
    Ended (renderItems L depth items ++ rest) := by
  cases items with
  | nil =>
    rw [renderItems, List.append_assoc]
    exact ended_of_blank (L.line_blank depth) rfl rest
  | cons v items => simp [renderItems, Ended]

theorem renderMembers_ended (depth : ℕ) (members : List (String × Json ℤ)) (rest : List Char) :
    Ended (renderMembers L depth members ++ rest) := by
  cases members with
  | nil =>
    rw [renderMembers, List.append_assoc]
    exact ended_of_blank (L.line_blank depth) rfl rest
  | cons m members => simp [renderMembers, Ended]

theorem renderMember_head (depth : ℕ) (m : String × Json ℤ) :
    ∃ cs, renderMember L depth m = '"' :: cs := by
  obtain ⟨key, v⟩ := m
  exact ⟨_, rfl⟩

theorem member_split (depth : ℕ) (key : String) (v : Json ℤ) (members : List (String × Json ℤ))
    (rest : List Char) :
    renderMember L (depth + 1) (key, v) ++ renderMembers L depth members ++ rest =
      quoted key ++ ':' :: (L.gap ++
        (render L (depth + 1) v ++ (renderMembers L depth members ++ rest))) := by
  simp [renderMember]

/-- With fuel for its text, the parser reads the value off the front of a text. -/
def Reads (L : Layout) (v : Json ℤ) : Prop :=
  ∀ depth fuel rest, Ended rest → 2 * (render L depth v ++ rest).length ≤ fuel →
    parseValue fuel (render L depth v ++ rest) = some (v, rest)

theorem items_read {items : List (Json ℤ)} {v : Json ℤ} (hv : Reads L v)
    (h : ∀ w ∈ items, Reads L w) (depth fuel : ℕ) (rest : List Char)
    (hfuel : 2 * (render L (depth + 1) v ++ renderItems L depth items ++ rest).length < fuel) :
    parseItems fuel (render L (depth + 1) v ++ renderItems L depth items ++ rest) =
      some (v :: items, rest) := by
  induction items generalizing v fuel with
  | nil =>
    obtain ⟨fuel, rfl⟩ : ∃ n, fuel = n + 1 := ⟨fuel - 1, by omega⟩
    rw [List.append_assoc] at hfuel ⊢
    rw [parseItems_step (hv _ _ _ (renderItems_ended depth [] rest) (by omega)), renderItems,
      List.append_assoc, skipBlanks_append (L.line_blank depth)]
    rfl
  | cons w items ih =>
    obtain ⟨fuel, rfl⟩ : ∃ n, fuel = n + 1 := ⟨fuel - 1, by omega⟩
    obtain ⟨hw, hrest⟩ := List.forall_mem_cons.mp h
    rw [List.append_assoc] at hfuel ⊢
    rw [parseItems_step (hv _ _ _ (renderItems_ended depth (w :: items) rest) (by omega))]
    have hsplit : renderItems L depth (w :: items) ++ rest = ',' :: (L.line (depth + 1) ++
        (render L (depth + 1) w ++ renderItems L depth items ++ rest)) := by simp [renderItems]
    rw [hsplit] at hfuel ⊢
    have hitems := ih hw hrest fuel (by
      simp only [List.length_cons, List.length_append] at hfuel ⊢
      omega)
    rw [skipBlanks_cons rfl]
    simp only [parseItems_blanks (L.line_blank _), hitems]
    rfl

theorem members_read {members : List (String × Json ℤ)} (key : String) {v : Json ℤ}
    (hv : Reads L v) (h : ∀ m ∈ members, Reads L m.2) (depth fuel : ℕ) (rest : List Char)
    (hfuel : 2 * (renderMember L (depth + 1) (key, v) ++ renderMembers L depth members ++
      rest).length < fuel) :
    parseMembers fuel (renderMember L (depth + 1) (key, v) ++ renderMembers L depth members ++
      rest) = some ((key, v) :: members, rest) := by
  induction members generalizing key v fuel with
  | nil =>
    obtain ⟨fuel, rfl⟩ : ∃ n, fuel = n + 1 := ⟨fuel - 1, by omega⟩
    rw [member_split] at hfuel ⊢
    have hread := hv (depth + 1) fuel _ (renderMembers_ended (L := L) depth [] rest) (by
      simp only [List.length_cons, List.length_append] at hfuel ⊢
      omega)
    rw [← parseValue_blanks L.gap_blank] at hread
    rw [parseMembers_step hread, renderMembers, List.append_assoc,
      skipBlanks_append (L.line_blank depth)]
    rfl
  | cons m members ih =>
    obtain ⟨fuel, rfl⟩ : ∃ n, fuel = n + 1 := ⟨fuel - 1, by omega⟩
    obtain ⟨hm, hrest⟩ := List.forall_mem_cons.mp h
    rw [member_split] at hfuel ⊢
    have hread := hv (depth + 1) fuel _ (renderMembers_ended (L := L) depth (m :: members) rest) (by
      simp only [List.length_cons, List.length_append] at hfuel ⊢
      omega)
    rw [← parseValue_blanks L.gap_blank] at hread
    rw [parseMembers_step hread]
    have hsplit : renderMembers L depth (m :: members) ++ rest = ',' :: (L.line (depth + 1) ++
        (renderMember L (depth + 1) (m.1, m.2) ++ renderMembers L depth members ++ rest)) := by
      simp [renderMembers]
    rw [hsplit] at hfuel ⊢
    have hmembers := ih m.1 hm hrest fuel (by
      simp only [List.length_cons, List.length_append] at hfuel ⊢
      omega)
    rw [skipBlanks_cons rfl]
    simp only [parseMembers_blanks (L.line_blank _), hmembers]
    rfl

theorem reads_items {items : List (Json ℤ)} (h : ∀ w ∈ items, Reads L w) :
    Reads L (.arr items) := by
  intro depth fuel rest _ hfuel
  cases items with
  | nil =>
    have hsplit : render L depth (.arr []) ++ rest =
        '[' :: (L.line depth ++ ']' :: rest) := by simp [render]
    rw [hsplit] at hfuel ⊢
    obtain ⟨fuel, rfl⟩ : ∃ n, fuel = n + 1 := ⟨fuel - 1, by simp at hfuel; omega⟩
    rw [parseValue, skipBlanks_cons rfl]
    simp only [skipBlanks_append (L.line_blank depth),
      skipBlanks_cons (show isBlank ']' = false from rfl)]
  | cons v items =>
    obtain ⟨hv, hrest⟩ := List.forall_mem_cons.mp h
    obtain ⟨c, cs, hcs, hblank, hclose⟩ := render_head (L := L) (depth + 1) v
    have hsplit : render L depth (.arr (v :: items)) ++ rest = '[' :: (L.line (depth + 1) ++
        (render L (depth + 1) v ++ renderItems L depth items ++ rest)) := by simp [render]
    rw [hsplit] at hfuel ⊢
    obtain ⟨fuel, rfl⟩ : ∃ n, fuel = n + 1 := ⟨fuel - 1, by simp at hfuel; omega⟩
    have hitems := items_read hv hrest depth fuel rest (by
      simp only [List.length_cons, List.length_append] at hfuel ⊢
      omega)
    rw [hcs, List.cons_append, List.cons_append] at hitems ⊢
    rw [parseValue_items (L.line_blank _) hblank hclose, hitems]
    rfl

theorem reads_members {members : List (String × Json ℤ)} (h : ∀ m ∈ members, Reads L m.2) :
    Reads L (.obj members) := by
  intro depth fuel rest _ hfuel
  cases members with
  | nil =>
    have hsplit : render L depth (.obj []) ++ rest =
        '\x7b' :: (L.line depth ++ '\x7d' :: rest) := by simp [render]
    rw [hsplit] at hfuel ⊢
    obtain ⟨fuel, rfl⟩ : ∃ n, fuel = n + 1 := ⟨fuel - 1, by simp at hfuel; omega⟩
    rw [parseValue, skipBlanks_cons rfl]
    simp only [skipBlanks_append (L.line_blank depth),
      skipBlanks_cons (show isBlank '\x7d' = false from rfl)]
  | cons m members =>
    obtain ⟨hm, hrest⟩ := List.forall_mem_cons.mp h
    have hsplit : render L depth (.obj (m :: members)) ++ rest = '\x7b' ::
        (L.line (depth + 1) ++
          (renderMember L (depth + 1) (m.1, m.2) ++ renderMembers L depth members ++ rest)) := by
      simp [render]
    rw [hsplit] at hfuel ⊢
    obtain ⟨fuel, rfl⟩ : ∃ n, fuel = n + 1 := ⟨fuel - 1, by simp at hfuel; omega⟩
    have hmembers := members_read m.1 hm hrest depth fuel rest (by
      simp only [List.length_cons, List.length_append] at hfuel ⊢
      omega)
    obtain ⟨cs, hcs⟩ := renderMember_head (L := L) (depth + 1) (m.1, m.2)
    rw [hcs, List.cons_append, List.cons_append] at hmembers ⊢
    rw [parseValue_members (L.line_blank _), hmembers]
    rfl

theorem reads_number (n : ℤ) : Reads L (.num n) := by
  intro depth fuel rest hrest hfuel
  obtain ⟨c, cs, hcs, hc⟩ := number_head n
  have hread := readNumber_number hrest n
  rw [render, hcs, List.cons_append] at hfuel ⊢
  rw [hcs, List.cons_append] at hread
  obtain ⟨fuel, rfl⟩ : ∃ n, fuel = n + 1 := ⟨fuel - 1, by simp at hfuel; omega⟩
  rw [parseValue_number hc, hread]
  rfl

theorem reads_string (s : String) : Reads L (.str s) := by
  intro depth fuel rest _ hfuel
  have hquoted : render L depth (.str s) ++ rest =
      '"' :: (escaped s.toList ++ '"' :: rest) := by simp [render, quoted]
  rw [hquoted] at hfuel ⊢
  obtain ⟨fuel, rfl⟩ : ∃ n, fuel = n + 1 := ⟨fuel - 1, by simp at hfuel; omega⟩
  rw [parseValue, skipBlanks_cons rfl]
  simp [readString_escaped]

theorem reads_all (L : Layout) (v : Json ℤ) : Reads L v := by
  have hclosed : Closed (Reads L) :=
    { null := by
        intro depth fuel rest _ hfuel
        obtain ⟨fuel, rfl⟩ : ∃ n, fuel = n + 1 := ⟨fuel - 1, by simp [render] at hfuel; omega⟩
        rfl
      bool := by
        intro b depth fuel rest _ hfuel
        cases b with
        | true | false =>
          obtain ⟨fuel, rfl⟩ : ∃ n, fuel = n + 1 := ⟨fuel - 1, by simp [render] at hfuel; omega⟩
          rfl
      num := reads_number
      str := reads_string
      arr := fun _ => reads_items
      obj := fun _ => reads_members }
  exact hclosed.all v

theorem ended_blanks {blanks : List Char} (h : Blank blanks) : Ended blanks := by
  cases blanks with
  | nil => simp [Ended]
  | cons b blanks => simpa [Ended] using blank_not_digit (h b List.mem_cons_self)

/-- A printed value is read back, with white space behind it or not. -/
theorem parse_render (L : Layout) (v : Json ℤ) {blanks : List Char} (h : Blank blanks) :
    parse (render L 0 v ++ blanks) = some v := by
  have hvalue := reads_all L v 0 _ blanks (ended_blanks h) le_rfl
  have hskip : skipBlanks blanks = [] := by
    rw [← List.append_nil blanks, skipBlanks_append h]
    rfl
  rw [parse, hvalue, Option.bind_some, if_pos hskip]

def Visible (cs : List Char) : Prop := ∀ c ∈ cs, 32 ≤ c.toNat

theorem visible_append {cs ds : List Char} : Visible (cs ++ ds) ↔ Visible cs ∧ Visible ds :=
  List.forall_mem_append

theorem visible_cons {c : Char} {cs : List Char} : Visible (c :: cs) ↔ 32 ≤ c.toNat ∧ Visible cs :=
  List.forall_mem_cons

theorem visible_nil : Visible [] := fun _ h => absurd h List.not_mem_nil

theorem visible_of_all {cs : List Char} (h : (cs.all fun c => decide (32 ≤ c.toNat)) = true) :
    Visible cs := fun c hc => of_decide_eq_true (List.all_eq_true.mp h c hc)

theorem visible_escape (c : Char) : Visible (escape c) := by
  have hhex : ∀ n < 16, 32 ≤ (hexDigit 'a' n).toNat := by decide +kernel
  unfold escape
  split_ifs with _ _ _ _ _ _ _ hcontrol
  iterate 7 exact visible_of_all rfl
  · have hboth : Visible [hexDigit 'a' (c.toNat / 16), hexDigit 'a' (c.toNat % 16)] :=
      visible_cons.mpr ⟨hhex _ (by omega), visible_cons.mpr ⟨hhex _ (by omega), visible_nil⟩⟩
    have hfront : Visible ['\\', 'u', '0', '0'] := visible_of_all rfl
    exact visible_append.mpr ⟨hfront, hboth⟩
  · exact visible_cons.mpr ⟨by omega, visible_nil⟩

theorem visible_quoted (s : String) : Visible (quoted s) := by
  have hescaped : Visible (escaped s.toList) := fun c hc => by
    obtain ⟨d, -, hd⟩ := List.mem_flatMap.mp hc
    exact visible_escape d c hd
  have hquote : 32 ≤ '"'.toNat := by decide
  exact visible_append.mpr
    ⟨visible_cons.mpr ⟨hquote, hescaped⟩, visible_cons.mpr ⟨hquote, visible_nil⟩⟩

theorem visible_number (n : ℤ) : Visible (number n) := by
  have hdigits : Visible (digits n.natAbs) := fun c hc => by
    have hdigit := digits_isDigit n.natAbs c hc
    simp only [Char.isDigit, Bool.and_eq_true, decide_eq_true_eq] at hdigit
    have hzero : 48 ≤ c.toNat := hdigit.1
    omega
  unfold number
  split_ifs
  · exact visible_cons.mpr ⟨by decide, hdigits⟩
  · exact hdigits

theorem visible_items {depth : ℕ} {items : List (Json ℤ)}
    (h : ∀ v ∈ items, ∀ depth, Visible (render compact depth v)) :
    Visible (renderItems compact depth items) := by
  induction items with
  | nil => exact visible_of_all rfl
  | cons v items ih =>
    rw [List.forall_mem_cons] at h
    exact visible_append.mpr ⟨visible_cons.mpr ⟨by decide, h.1 _⟩, ih h.2⟩

theorem visible_member {m : String × Json ℤ} (h : ∀ depth, Visible (render compact depth m.2))
    (depth : ℕ) : Visible (renderMember compact depth m) := by
  have hcolon : Visible (':' :: compact.gap) := visible_of_all rfl
  obtain ⟨key, v⟩ := m
  rw [renderMember]
  exact visible_append.mpr ⟨visible_append.mpr ⟨visible_quoted key, hcolon⟩, h depth⟩

theorem visible_members {depth : ℕ} {members : List (String × Json ℤ)}
    (h : ∀ m ∈ members, ∀ depth, Visible (render compact depth m.2)) :
    Visible (renderMembers compact depth members) := by
  induction members with
  | nil => exact visible_of_all rfl
  | cons m members ih =>
    rw [List.forall_mem_cons] at h
    exact visible_append.mpr ⟨visible_cons.mpr ⟨by decide, visible_member h.1 _⟩, ih h.2⟩

/-- JSON.stringify writes no control character. -/
theorem visible_render (v : Json ℤ) : ∀ depth, Visible (render compact depth v) := by
  have hclosed : Closed fun v => ∀ depth, Visible (render compact depth v) :=
    { null := fun _ => visible_of_all rfl
      bool := fun b _ => by
        cases b with
        | true | false => exact visible_of_all rfl
      num := fun n _ => visible_number n
      str := fun s _ => visible_quoted s
      arr := fun items h depth => by
        cases items with
        | nil => exact visible_of_all rfl
        | cons v items =>
          rw [List.forall_mem_cons] at h
          exact visible_append.mpr ⟨visible_cons.mpr ⟨by decide, h.1 _⟩, visible_items h.2⟩
      obj := fun members h depth => by
        cases members with
        | nil => exact visible_of_all rfl
        | cons m members =>
          rw [List.forall_mem_cons] at h
          exact visible_append.mpr ⟨visible_cons.mpr ⟨by decide, visible_member h.1 _⟩,
            visible_members h.2⟩ }
  exact hclosed.all v

theorem renderItems_end (depth : ℕ) (items : List (Json ℤ)) :
    ∃ cs, renderItems compact depth items = cs ++ [']'] := by
  induction items with
  | nil => exact ⟨[], rfl⟩
  | cons v items ih =>
    obtain ⟨cs, hcs⟩ := ih
    refine ⟨',' :: render compact (depth + 1) v ++ cs, ?_⟩
    rw [List.append_assoc, ← hcs]
    rfl

theorem render_arr_end (depth : ℕ) (items : List (Json ℤ)) :
    ∃ cs, render compact depth (.arr items) = cs ++ [']'] := by
  cases items with
  | nil => exact ⟨['['], rfl⟩
  | cons v items =>
    obtain ⟨cs, hcs⟩ := renderItems_end depth items
    refine ⟨'[' :: render compact (depth + 1) v ++ cs, ?_⟩
    rw [List.append_assoc, ← hcs]
    rfl

def encode (cs : List Char) : ByteArray := (String.ofList cs).toByteArray

def decode (bytes : ByteArray) : Option (List Char) := (String.fromUTF8? bytes).map String.toList

theorem decode_encode (cs : List Char) : decode (encode cs) = some cs := by
  have hread : String.fromUTF8? (encode cs) = some (String.ofList cs) :=
    dif_pos (String.ofList cs).isValidUTF8
  rw [decode, hread, Option.map_some, String.toList_ofList]

end JsonText

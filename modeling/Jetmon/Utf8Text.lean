import Jetmon.TextSearch

/-! Reading UTF-8 into UTF-16, and writing it. A byte that begins no character of the shortest
form becomes a replacement character by itself, also where the text ends inside a character. A
text that is cut anywhere reads as its whole characters and one replacement for each byte that is
left over. -/
namespace Utf8Text

open TextSearch

def replacement : ℕ := 0xFFFD

def IsTail (b : ℕ) : Prop := 0x80 ≤ b ∧ b < 0xC0

instance (b : ℕ) : Decidable (IsTail b) := by
  unfold IsTail
  infer_instance

def IsSurrogate (c : ℕ) : Prop := 0xD800 ≤ c ∧ c < 0xE000

instance (c : ℕ) : Decidable (IsSurrogate c) := by
  unfold IsSurrogate
  infer_instance

/-- The character of more than one byte that begins with `a`, and how many bytes of `rest` belong
to it. -/
def sequence (a : ℕ) (rest : List ℕ) : Option (ℕ × ℕ) :=
  if 0xC2 ≤ a ∧ a < 0xE0 then
    match rest with
    | b :: _ => if IsTail b then some ((a - 0xC0) * 0x40 + (b - 0x80), 1) else none
    | [] => none
  else if 0xE0 ≤ a ∧ a < 0xF0 then
    match rest with
    | b :: c :: _ =>
      let u := (a - 0xE0) * 0x1000 + (b - 0x80) * 0x40 + (c - 0x80)
      if IsTail b ∧ IsTail c ∧ 0x800 ≤ u ∧ ¬IsSurrogate u then some (u, 2) else none
    | _ => none
  else if 0xF0 ≤ a ∧ a < 0xF5 then
    match rest with
    | b :: c :: d :: _ =>
      let u := (a - 0xF0) * 0x40000 + (b - 0x80) * 0x1000 + (c - 0x80) * 0x40 + (d - 0x80)
      if IsTail b ∧ IsTail c ∧ IsTail d ∧ 0x10000 ≤ u ∧ u < 0x110000 then some (u, 3) else none
    | _ => none
  else none

/-- The units for the byte `a`, and how many bytes of `rest` they stand for as well. -/
def front (a : ℕ) (rest : List ℕ) : List ℕ × ℕ :=
  if a < 0x80 then ([a], 0)
  else
    match sequence a rest with
    | some (c, n) => (Encoding.utf16Units c, n)
    | none => ([replacement], 0)

def readFrom : ℕ → List ℕ → List ℕ
  | _, [] => []
  | skip + 1, _ :: rest => readFrom skip rest
  | 0, a :: rest => (front a rest).1 ++ readFrom (front a rest).2 rest

def fromUtf8 (bytes : List ℕ) : List ℕ := readFrom 0 bytes

def IsScalar (c : ℕ) : Prop := c < 0x110000 ∧ ¬IsSurrogate c

theorem readFrom_skip (skip : ℕ) : ∀ bytes : List ℕ,
    readFrom skip bytes = fromUtf8 (bytes.drop skip) := by
  induction skip with
  | zero => exact fun _ => rfl
  | succ skip ih =>
    intro bytes
    cases bytes with
    | nil => rfl
    | cons b rest => exact ih rest

theorem fromUtf8_cons (a : ℕ) (rest : List ℕ) :
    fromUtf8 (a :: rest) = (front a rest).1 ++ fromUtf8 (rest.drop (front a rest).2) := by
  rw [← readFrom_skip]
  rfl

theorem fromUtf8_ascii {a : ℕ} (h : a < 0x80) (rest : List ℕ) :
    fromUtf8 (a :: rest) = a :: fromUtf8 rest := by
  rw [fromUtf8_cons, front, if_pos h]
  rfl

theorem fromUtf8_sequence {a c n : ℕ} {rest : List ℕ} (ha : 0x80 ≤ a)
    (h : sequence a rest = some (c, n)) :
    fromUtf8 (a :: rest) = Encoding.utf16Units c ++ fromUtf8 (rest.drop n) := by
  rw [fromUtf8_cons, front, if_neg (Nat.not_lt.mpr ha), h]

theorem fromUtf8_invalid {a : ℕ} {rest : List ℕ} (ha : 0x80 ≤ a) (h : sequence a rest = none) :
    fromUtf8 (a :: rest) = replacement :: fromUtf8 rest := by
  rw [fromUtf8_cons, front, if_neg (Nat.not_lt.mpr ha), h]
  rfl

theorem fromUtf8_char {c : ℕ} (h : IsScalar c) (rest : List ℕ) :
    fromUtf8 (Encoding.utf8Units c ++ rest) = Encoding.utf16Units c ++ fromUtf8 rest := by
  obtain ⟨hmax, hsurrogate⟩ := h
  have hsur : ¬(0xD800 ≤ c ∧ c < 0xE000) := hsurrogate
  unfold Encoding.utf8Units
  split_ifs with h₁ h₂ h₃
  · have hone : Encoding.utf16Units c = [c] := if_pos (by omega)
    rw [hone]
    exact fromUtf8_ascii h₁ rest
  · have hseq : sequence (0xC0 + c / 0x40) ((0x80 + c % 0x40) :: rest) = some (c, 1) := by
      have htail : IsTail (0x80 + c % 0x40) := by
        unfold IsTail
        omega
      have hvalue : (0xC0 + c / 0x40 - 0xC0) * 0x40 + (0x80 + c % 0x40 - 0x80) = c := by omega
      simp only [sequence]
      rw [if_pos (by omega), if_pos htail, hvalue]
    exact fromUtf8_sequence (by omega) hseq
  · have hseq : sequence (0xE0 + c / 0x1000)
        ((0x80 + c / 0x40 % 0x40) :: (0x80 + c % 0x40) :: rest) = some (c, 2) := by
      have hvalue : (0xE0 + c / 0x1000 - 0xE0) * 0x1000 + (0x80 + c / 0x40 % 0x40 - 0x80) * 0x40 +
          (0x80 + c % 0x40 - 0x80) = c := by omega
      simp only [sequence]
      rw [if_neg (by omega), if_pos (by omega), hvalue, if_pos]
      unfold IsTail IsSurrogate
      omega
    exact fromUtf8_sequence (by omega) hseq
  · have hseq : sequence (0xF0 + c / 0x40000) ((0x80 + c / 0x1000 % 0x40) ::
        (0x80 + c / 0x40 % 0x40) :: (0x80 + c % 0x40) :: rest) = some (c, 3) := by
      have hvalue : (0xF0 + c / 0x40000 - 0xF0) * 0x40000 +
          (0x80 + c / 0x1000 % 0x40 - 0x80) * 0x1000 + (0x80 + c / 0x40 % 0x40 - 0x80) * 0x40 +
            (0x80 + c % 0x40 - 0x80) = c := by omega
      simp only [sequence]
      rw [if_neg (by omega), if_neg (by omega), if_pos (by omega), hvalue, if_pos]
      unfold IsTail
      omega
    exact fromUtf8_sequence (by omega) hseq

theorem fromUtf8_append {t : List ℕ} (h : ∀ c ∈ t, IsScalar c) (rest : List ℕ) :
    fromUtf8 (Encoding.utf8.text t ++ rest) = Encoding.utf16.text t ++ fromUtf8 rest := by
  induction t with
  | nil => rfl
  | cons c t ih =>
    rw [List.forall_mem_cons] at h
    rw [Encoding.text_cons, Encoding.text_cons, List.append_assoc, List.append_assoc, ← ih h.2]
    exact fromUtf8_char h.1 _

/-- A text is read back. -/
theorem fromUtf8_text {t : List ℕ} (h : ∀ c ∈ t, IsScalar c) :
    fromUtf8 (Encoding.utf8.text t) = Encoding.utf16.text t := by
  have happend := fromUtf8_append h []
  rwa [List.append_nil, show fromUtf8 [] = [] from rfl, List.append_nil] at happend

theorem fromUtf8_tails {bytes : List ℕ} (h : ∀ b ∈ bytes, IsTail b) :
    fromUtf8 bytes = List.replicate bytes.length replacement := by
  induction bytes with
  | nil => rfl
  | cons b rest ih =>
    rw [List.forall_mem_cons] at h
    obtain ⟨hlow, hhigh⟩ := h.1
    have hseq : sequence b rest = none := by
      unfold sequence
      rw [if_neg (by omega), if_neg (by omega), if_neg (by omega)]
    rw [fromUtf8_invalid hlow hseq, ih h.2]
    rfl

theorem fromUtf8_lead {a : ℕ} {tails : List ℕ} (ha : 0x80 ≤ a) (hseq : sequence a tails = none)
    (h : ∀ b ∈ tails, IsTail b) :
    fromUtf8 (a :: tails) = List.replicate (tails.length + 1) replacement := by
  rw [fromUtf8_invalid ha hseq, fromUtf8_tails h]
  rfl

def tailCount (a : ℕ) : ℕ := if a < 0xE0 then 1 else if a < 0xF0 then 2 else 3

theorem sequence_short {a : ℕ} {rest : List ℕ} (h : rest.length < tailCount a) :
    sequence a rest = none := by
  unfold tailCount at h
  unfold sequence
  match rest with
  | [] => split_ifs <;> rfl
  | [b] =>
    have hlong : ¬a < 0xE0 := fun hlt => by simp [hlt] at h
    rw [if_neg (by omega)]
    split_ifs <;> rfl
  | [b, c] =>
    have hlong : ¬a < 0xF0 := fun hlt => by
      rw [List.length_cons, List.length_cons, List.length_nil] at h
      split_ifs at h
      all_goals omega
    rw [if_neg (by omega), if_neg (by omega)]
    split_ifs <;> rfl
  | b :: c :: d :: rest =>
    rw [List.length_cons, List.length_cons, List.length_cons] at h
    split_ifs at h <;> omega

theorem utf8Units_wide {c : ℕ} (hc : 0x80 ≤ c) (hmax : c < 0x110000) : ∃ a tails,
    Encoding.utf8Units c = a :: tails ∧ 0x80 ≤ a ∧ tails.length = tailCount a ∧
      ∀ b ∈ tails, IsTail b := by
  have htail : ∀ n, IsTail (0x80 + n % 0x40) := fun n => by
    unfold IsTail
    omega
  unfold Encoding.utf8Units tailCount
  rw [if_neg (by omega)]
  split_ifs with h₁ h₂
  · refine ⟨_, _, rfl, by omega, ?_, by simp [htail]⟩
    rw [if_pos (by omega)]
    rfl
  · refine ⟨_, _, rfl, by omega, ?_, by simp [htail]⟩
    rw [if_neg (by omega), if_pos (by omega)]
    rfl
  · refine ⟨_, _, rfl, by omega, ?_, by simp [htail]⟩
    rw [if_neg (by omega), if_neg (by omega)]
    rfl

/-- The beginning of a character, without its end. -/
theorem fromUtf8_cut {c : ℕ} (hmax : c < 0x110000) {k : ℕ}
    (hk : k < (Encoding.utf8Units c).length) :
    fromUtf8 ((Encoding.utf8Units c).take k) = List.replicate k replacement := by
  cases k with
  | zero => rfl
  | succ k =>
    have hc : 0x80 ≤ c := by
      by_contra hascii
      have hone : Encoding.utf8Units c = [c] := if_pos (by omega)
      rw [hone, List.length_singleton] at hk
      omega
    obtain ⟨a, tails, hunits, ha, hlen, htails⟩ := utf8Units_wide hc hmax
    rw [hunits, List.length_cons] at hk
    have htake : (tails.take k).length = k := by
      rw [List.length_take]
      omega
    rw [hunits, List.take_succ_cons,
      fromUtf8_lead ha (sequence_short (by omega)) fun b hb => htails b (List.mem_of_mem_take hb),
      htake]

theorem fromUtf8_take {t : List ℕ} (h : ∀ c ∈ t, IsScalar c) : ∀ {k : ℕ},
    k < (Encoding.utf8.text t).length → ∃ before c after j, t = before ++ c :: after ∧
      j < (Encoding.utf8Units c).length ∧
      fromUtf8 ((Encoding.utf8.text t).take k) =
        Encoding.utf16.text before ++ List.replicate j replacement := by
  induction t with
  | nil => exact fun hk => absurd hk (Nat.not_lt_zero _)
  | cons c t ih =>
    intro k hk
    rw [List.forall_mem_cons] at h
    rw [Encoding.text_cons] at hk ⊢
    rcases Nat.lt_or_ge k (Encoding.utf8Units c).length with hin | hout
    · refine ⟨[], c, t, k, rfl, hin, ?_⟩
      have htake : (Encoding.utf8.encode c ++ Encoding.utf8.text t).take k =
          (Encoding.utf8Units c).take k := List.take_append_of_le_length (Nat.le_of_lt hin)
      rw [htake, fromUtf8_cut h.1.1 hin]
      rfl
    · obtain ⟨n, rfl⟩ := Nat.exists_eq_add_of_le hout
      rw [List.length_append] at hk
      obtain ⟨before, c', after, j, rfl, hj, hread⟩ :=
        ih h.2 (k := n) (Nat.lt_of_add_lt_add_left hk)
      refine ⟨c :: before, c', after, j, rfl, hj, ?_⟩
      have htake : (Encoding.utf8.encode c ++ Encoding.utf8.text (before ++ c' :: after)).take
          ((Encoding.utf8Units c).length + n) =
          Encoding.utf8Units c ++ (Encoding.utf8.text (before ++ c' :: after)).take n :=
        List.take_length_add_append _
      rw [htake, fromUtf8_char h.1, hread, Encoding.text_cons, List.append_assoc]
      rfl

theorem length_le_text (E : Encoding) (t : List ℕ) : t.length ≤ (E.text t).length := by
  induction t with
  | nil => exact Nat.le_refl 0
  | cons c t ih =>
    have hpos := List.length_pos_iff.mpr (E.encode_ne_nil c)
    rw [Encoding.text_cons, List.length_append, List.length_cons]
    omega

theorem length_utf8Units (c : ℕ) :
    (Encoding.utf8Units c).length ≤ (Encoding.utf16Units c).length + 2 := by
  unfold Encoding.utf8Units Encoding.utf16Units
  split_ifs <;> simp only [List.length_cons, List.length_nil] <;> omega

def EndsAscii (t : List ℕ) : Prop := ∃ body a b, t = body ++ [a, b] ∧ a < 0x80 ∧ b < 0x80

theorem behind_wide {t before after : List ℕ} {c : ℕ} (h : EndsAscii t)
    (ht : t = before ++ c :: after) (hc : 0x80 ≤ c) : 2 ≤ after.length := by
  obtain ⟨body, a, b, hbody, ha, hb⟩ := h
  have hreverse := congrArg List.reverse (ht.symm.trans hbody)
  match after with
  | [] =>
    simp only [List.reverse_append, List.reverse_cons, List.reverse_nil, List.nil_append,
      List.cons_append] at hreverse
    have hlast := (List.cons.inj hreverse).1
    omega
  | [d] =>
    simp only [List.reverse_append, List.reverse_cons, List.reverse_nil, List.nil_append,
      List.cons_append] at hreverse
    have hlast := (List.cons.inj (List.cons.inj hreverse).2).1
    omega
  | _ :: _ :: after =>
    rw [List.length_cons, List.length_cons]
    omega

theorem fromUtf8_take_length {t : List ℕ} (h : ∀ c ∈ t, IsScalar c) (hend : EndsAscii t) {k : ℕ}
    (hk : k < (Encoding.utf8.text t).length) :
    (fromUtf8 ((Encoding.utf8.text t).take k)).length < (Encoding.utf16.text t).length := by
  obtain ⟨before, c, after, j, ht, hj, hread⟩ := fromUtf8_take h hk
  have hwide := length_utf8Units c
  have hunits := List.length_pos_iff.mpr (Encoding.utf16.encode_ne_nil c)
  have hwhole : (Encoding.utf16.text t).length = (Encoding.utf16.text before).length +
      ((Encoding.utf16Units c).length + (Encoding.utf16.text after).length) := by
    rw [ht, Encoding.text_append, Encoding.text_cons, List.length_append, List.length_append]
    rfl
  have hunits : 0 < (Encoding.utf16Units c).length := hunits
  rw [hread, hwhole, List.length_append, List.length_replicate]
  rcases Nat.lt_or_ge c 0x80 with hc | hc
  · have hone : (Encoding.utf8Units c).length = 1 := congrArg List.length (Encoding.utf8.ascii c hc)
    omega
  · have hafter := (behind_wide hend ht hc).trans (length_le_text Encoding.utf16 after)
    omega

theorem head_utf16 {c u : ℕ} {us : List ℕ} (hc : Encoding.utf16.encode c = u :: us) :
    (c < 0x10000 ∧ u = c ∧ us = []) ∨
      (0x10000 ≤ c ∧ u = 0xD800 + (c - 0x10000) / 0x400 ∧
        us = [0xDC00 + (c - 0x10000) % 0x400]) := by
  have hc : Encoding.utf16Units c = u :: us := hc
  rw [Encoding.utf16Units] at hc
  split at hc
  · obtain ⟨rfl, rfl⟩ := List.cons.inj hc
    exact Or.inl ⟨‹_›, rfl, rfl⟩
  · obtain ⟨rfl, rfl⟩ := List.cons.inj hc
    exact Or.inr ⟨by omega, rfl, rfl⟩

theorem utf16_injective {s t : List ℕ} (hs : ∀ c ∈ s, IsScalar c) (ht : ∀ c ∈ t, IsScalar c)
    (h : Encoding.utf16.text s = Encoding.utf16.text t) : s = t := by
  induction s generalizing t with
  | nil => exact (Encoding.utf16.text_eq_nil.mp h.symm).symm
  | cons c s ih =>
    cases t with
    | nil => exact absurd (Encoding.utf16.text_eq_nil.mp h) (List.cons_ne_nil c s)
    | cons d t =>
      have hcs := hs c (List.mem_cons_self ..)
      have hdt := ht d (List.mem_cons_self ..)
      obtain ⟨u, us, hu⟩ := List.exists_cons_of_ne_nil (Encoding.utf16.encode_ne_nil c)
      obtain ⟨v, vs, hv⟩ := List.exists_cons_of_ne_nil (Encoding.utf16.encode_ne_nil d)
      rw [Encoding.text_cons, Encoding.text_cons, hu, hv, List.cons_append, List.cons_append] at h
      obtain ⟨rfl, hrest⟩ := List.cons.inj h
      have hc := hcs.2
      have hd := hdt.2
      have hcmax := hcs.1
      have hdmax := hdt.1
      unfold IsSurrogate at hc hd
      have hrec : us = vs → Encoding.utf16.text s = Encoding.utf16.text t := by
        rintro rfl
        exact List.append_cancel_left hrest
      have hih : Encoding.utf16.text s = Encoding.utf16.text t → s = t := fun h =>
        ih (fun e he => hs e (List.mem_cons_of_mem _ he))
          (fun e he => ht e (List.mem_cons_of_mem _ he)) h
      rcases head_utf16 hu with ⟨hcw, huc, rfl⟩ | ⟨hcw, huc, rfl⟩
      · rcases head_utf16 hv with ⟨hdw, hvd, rfl⟩ | ⟨hdw, hvd, rfl⟩
        · rw [← huc, ← hvd, hih (hrec rfl)]
        · omega
      · rcases head_utf16 hv with ⟨hdw, hvd, rfl⟩ | ⟨hdw, hvd, rfl⟩
        · omega
        · have hlow := (List.cons.inj hrest).1
          obtain rfl : c = d := by omega
          rw [hih (hrec rfl)]

theorem utf8_injective {s t : List ℕ} (hs : ∀ c ∈ s, IsScalar c) (ht : ∀ c ∈ t, IsScalar c)
    (h : Encoding.utf8.text s = Encoding.utf8.text t) : s = t := by
  refine utf16_injective hs ht ?_
  rw [← fromUtf8_text hs, ← fromUtf8_text ht, h]

def IsPair (a b : ℕ) : Prop := (0xD800 ≤ a ∧ a < 0xDC00) ∧ 0xDC00 ≤ b ∧ b < 0xE000

instance (a b : ℕ) : Decidable (IsPair a b) := by
  unfold IsPair
  infer_instance

def unitBytes (a : ℕ) : List ℕ := Encoding.utf8Units (if IsSurrogate a then replacement else a)

/-- Writing UTF-16 as UTF-8, for any units. -/
def toUtf8 : List ℕ → List ℕ
  | [] => []
  | [a] => unitBytes a
  | a :: b :: rest =>
    if IsPair a b then
      Encoding.utf8Units (0x10000 + (a - 0xD800) * 0x400 + (b - 0xDC00)) ++ toUtf8 rest
    else unitBytes a ++ toUtf8 (b :: rest)

theorem toUtf8_unit {c : ℕ} (h : ¬IsSurrogate c) (units : List ℕ) :
    toUtf8 (c :: units) = Encoding.utf8Units c ++ toUtf8 units := by
  have hunit : unitBytes c = Encoding.utf8Units c := by rw [unitBytes, if_neg h]
  cases units with
  | nil => rw [toUtf8, toUtf8, hunit, List.append_nil]
  | cons b rest =>
    have hpair : ¬IsPair c b := by
      unfold IsPair
      unfold IsSurrogate at h
      omega
    rw [toUtf8, if_neg hpair, hunit]

theorem toUtf8_text {t : List ℕ} (ht : ∀ c ∈ t, IsScalar c) :
    toUtf8 (Encoding.utf16.text t) = Encoding.utf8.text t := by
  induction t with
  | nil => rfl
  | cons c t ih =>
    have hc := ht c List.mem_cons_self
    have hrest := ih fun d hd => ht d (List.mem_cons_of_mem _ hd)
    rw [Encoding.text_cons, Encoding.text_cons, ← hrest]
    change toUtf8 (Encoding.utf16Units c ++ _) = Encoding.utf8Units c ++ _
    rw [Encoding.utf16Units]
    split
    · exact toUtf8_unit hc.2 _
    · have hmax := hc.1
      have hpair : IsPair (0xD800 + (c - 0x10000) / 0x400) (0xDC00 + (c - 0x10000) % 0x400) := by
        unfold IsPair
        omega
      have hvalue : 0x10000 + (0xD800 + (c - 0x10000) / 0x400 - 0xD800) * 0x400 +
          (0xDC00 + (c - 0x10000) % 0x400 - 0xDC00) = c := by omega
      rw [List.cons_append, List.cons_append, List.nil_append, toUtf8, if_pos hpair, hvalue]

theorem toUtf8_ascii {t : List ℕ} (ht : ∀ c ∈ t, c < 128) : toUtf8 t = t := by
  have hscalar : ∀ c ∈ t, IsScalar c := by
    intro c hc
    have hlt := ht c hc
    unfold IsScalar IsSurrogate
    omega
  calc toUtf8 t = toUtf8 (Encoding.utf16.text t) := by rw [Encoding.text_ascii _ ht]
    _ = Encoding.utf8.text t := toUtf8_text hscalar
    _ = t := Encoding.text_ascii _ ht

end Utf8Text

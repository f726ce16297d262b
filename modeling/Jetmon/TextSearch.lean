import Mathlib

/-! Searching and cutting strings by position, on lists of code units. A search that finds
nothing has the position `⊤`, as the largest value of an unsigned type is used in C++. Every
operation commutes with an encoding of characters that keeps the ASCII characters, so two
programs that work on different encodings of one text can be compared on the text. -/
namespace TextSearch

variable {α : Type*} [DecidableEq α]

def find (pat : List α) : List α → WithTop ℕ
  | [] => if pat = [] then 0 else ⊤
  | x :: xs => if pat.isPrefixOf (x :: xs) then 0 else find pat xs + 1

def findAny (set : List α) : List α → WithTop ℕ
  | [] => ⊤
  | x :: xs => if x ∈ set then 0 else findAny set xs + 1

/-- At most `n` units from `pos` on. -/
def substr (pos n : ℕ) (xs : List α) : List α := (xs.drop pos).take n

def erase (pos n : ℕ) (xs : List α) : List α := xs.take pos ++ xs.drop (pos + n)

/-- The text without the first occurrence of `pat`, if there is one. -/
def cut (pat xs : List α) : Option (List α) :=
  match find pat xs with
  | none => none
  | some i => some (erase i pat.length xs)

def clip (pos : WithTop ℕ) (n : ℕ) : ℕ :=
  match pos with
  | none => n
  | some i => min i n

theorem clip_le (pos : WithTop ℕ) (n : ℕ) : clip pos n ≤ n := by
  cases pos with
  | top => exact le_refl n
  | coe i => exact min_le_right i n

omit [DecidableEq α] in
theorem erase_clip (pos : WithTop ℕ) (xs : List α) :
    erase (clip pos xs.length) (xs.length - clip pos xs.length) xs =
      xs.take (clip pos xs.length) := by
  rw [erase, Nat.add_sub_cancel' (clip_le pos xs.length), List.drop_length, List.append_nil]

theorem find_at_start {pat xs : List α} (h : pat <+: xs) : find pat xs = 0 := by
  cases xs with
  | nil => simp [find, List.prefix_nil.mp h]
  | cons x xs => rw [find, if_pos (List.isPrefixOf_iff_prefix.mpr h)]

theorem find_cons {pat xs : List α} {x : α} (h : ¬pat <+: x :: xs) :
    find pat (x :: xs) = find pat xs + 1 := by
  rw [find, if_neg (mt List.isPrefixOf_iff_prefix.mp h)]

theorem prefix_of_find {pat xs : List α} {i : ℕ} (h : find pat xs = i) : pat <+: xs.drop i := by
  induction xs generalizing i with
  | nil =>
    by_cases hp : pat = []
    · rw [hp]
      exact List.nil_prefix
    · rw [find, if_neg hp] at h
      exact absurd h (WithTop.top_ne_coe)
  | cons x xs ih =>
    by_cases hp : pat <+: x :: xs
    · rw [find_at_start hp] at h
      obtain rfl : 0 = i := by exact_mod_cast h
      exact hp
    · rw [find_cons hp] at h
      cases i with
      | zero => exact absurd h (by simp)
      | succ i =>
        apply ih
        push_cast at h
        exact WithTop.add_right_cancel (by simp) h

theorem find_le {pat xs : List α} {i : ℕ} (h : find pat xs = i) : i ≤ xs.length := by
  induction xs generalizing i with
  | nil =>
    by_cases hp : pat = []
    · rw [find, if_pos hp] at h
      obtain rfl : 0 = i := by exact_mod_cast h
      exact Nat.le_refl 0
    · rw [find, if_neg hp] at h
      exact absurd h (WithTop.top_ne_coe)
  | cons x xs ih =>
    cases i with
    | zero => exact Nat.zero_le _
    | succ i =>
      by_cases hp : pat <+: x :: xs
      · rw [find_at_start hp] at h
        exact absurd h (by exact_mod_cast (Nat.succ_ne_zero i).symm)
      · rw [find_cons hp] at h
        push_cast at h
        exact Nat.succ_le_succ (ih (WithTop.add_right_cancel (by simp) h))

theorem split_of_find {pat xs : List α} {i : ℕ} (h : find pat xs = i) :
    xs = xs.take i ++ (pat ++ xs.drop (i + pat.length)) := by
  obtain ⟨rest, hrest⟩ := prefix_of_find h
  have hdrop : xs.drop (i + pat.length) = rest := by
    rw [← List.drop_drop, ← hrest, List.drop_left]
  rw [hdrop, hrest, List.take_append_drop]

theorem find_skip {p : α} {ps us : List α} (h : p ∉ us) (xs : List α) :
    find (p :: ps) (us ++ xs) = find (p :: ps) xs + us.length := by
  induction us with
  | nil => simp
  | cons u us ih =>
    rw [List.mem_cons, not_or] at h
    have hp : ¬(p :: ps) <+: u :: (us ++ xs) := fun hc => h.1 (List.cons_prefix_cons.mp hc).1
    rw [List.cons_append, find_cons hp, ih h.2, List.length_cons]
    push_cast
    rw [add_assoc]

/-- Nothing is found across a unit that the pattern does not have. -/
theorem find_across {pat us : List α} {c : α} (hc : c ∉ pat) (h : ¬pat <:+: us) (xs : List α) :
    find pat (us ++ c :: xs) = find pat (c :: xs) + us.length := by
  induction us with
  | nil => simp
  | cons u us ih =>
    rw [List.infix_cons_iff, not_or] at h
    have hp : ¬pat <+: u :: (us ++ c :: xs) := by
      intro hpre
      rcases Nat.lt_or_ge us.length.succ pat.length with hlong | hshort
      · have hwhole : u :: us ++ [c] <+: u :: (us ++ c :: xs) := ⟨xs, by simp⟩
        have hin := List.prefix_of_prefix_length_le hwhole hpre (by simpa using hlong)
        exact hc (hin.subset (by simp))
      · exact h.1 (List.prefix_of_prefix_length_le hpre (List.prefix_append (u :: us) _) hshort)
    rw [List.cons_append, find_cons hp, ih h.2, List.length_cons]
    push_cast
    rw [add_assoc]

/-- What has been found is found at the same place when more text follows. -/
theorem find_append {pat xs : List α} {i : ℕ} (h : find pat xs = i) (ys : List α) :
    find pat (xs ++ ys) = i := by
  induction xs generalizing i with
  | nil =>
    by_cases hp : pat = []
    · rw [find, if_pos hp] at h
      rw [← h, hp]
      exact find_at_start List.nil_prefix
    · rw [find, if_neg hp] at h
      exact absurd h WithTop.top_ne_coe
  | cons x xs ih =>
    by_cases hp : pat <+: x :: xs
    · rw [find_at_start hp] at h
      rw [← h]
      exact find_at_start (hp.trans (List.prefix_append _ _))
    · have hlen : pat.length ≤ (x :: xs).length :=
        (prefix_of_find h).length_le.trans (List.drop_sublist _ _).length_le
      have hmore : ¬pat <+: x :: (xs ++ ys) := fun hc =>
        hp (List.prefix_of_prefix_length_le hc (List.prefix_append (x :: xs) ys) hlen)
      rw [find_cons hp] at h
      cases i with
      | zero => exact absurd h (by simp)
      | succ i =>
        push_cast at h
        rw [List.cons_append, find_cons hmore, ih (WithTop.add_right_cancel (by simp) h)]
        push_cast
        rfl

theorem find_single_top {c : α} {xs : List α} : find [c] xs = ⊤ ↔ c ∉ xs := by
  induction xs with
  | nil => simp [find]
  | cons x xs ih =>
    by_cases hp : [c] <+: x :: xs
    · have hc : c = x := (List.cons_prefix_cons.mp hp).1
      rw [find_at_start hp, hc]
      simp
    · have hc : c ≠ x := fun hc => hp (hc ▸ List.cons_prefix_cons.mpr ⟨rfl, List.nil_prefix⟩)
      rw [find_cons hp, WithTop.add_eq_top]
      simp [ih, hc]

theorem find_lt_of_mem_take {c : α} {xs : List α} {i : ℕ} (h : c ∈ xs.take i) :
    find [c] xs < (i : WithTop ℕ) := by
  induction xs generalizing i with
  | nil => simp at h
  | cons x xs ih =>
    cases i with
    | zero => simp at h
    | succ i =>
      by_cases hp : [c] <+: x :: xs
      · rw [find_at_start hp]
        exact_mod_cast Nat.succ_pos i
      · have hc : c ≠ x := fun hc => hp (hc ▸ List.cons_prefix_cons.mpr ⟨rfl, List.nil_prefix⟩)
        rw [List.take_succ_cons, List.mem_cons] at h
        rw [find_cons hp]
        push_cast
        exact WithTop.add_lt_add_right (by simp) (ih (h.resolve_left hc))

theorem not_mem_take {c : α} {xs : List α} {i : ℕ} (h : (i : WithTop ℕ) ≤ find [c] xs) :
    c ∉ xs.take i := fun hm => absurd (find_lt_of_mem_take hm) (not_lt.mpr h)

theorem find_eq_top {pat xs : List α} : find pat xs = ⊤ ↔ ¬pat <:+: xs := by
  induction xs with
  | nil =>
    rw [find, List.infix_nil]
    by_cases hp : pat = []
    · simp [hp]
    · simp [hp]
  | cons x xs ih =>
    rw [List.infix_cons_iff, not_or]
    by_cases hp : pat <+: x :: xs
    · rw [find_at_start hp]
      exact iff_of_false WithTop.zero_ne_top fun h => h.1 hp
    · rw [find_cons hp, WithTop.add_eq_top, ← ih]
      simp [hp]

theorem cut_eq_none {pat xs : List α} : cut pat xs = none ↔ ¬pat <:+: xs := by
  rw [← find_eq_top]
  cases hf : find pat xs with
  | top => exact iff_of_true (by simp only [cut, hf]) rfl
  | coe i => exact iff_of_false (by simp [cut, hf]) WithTop.coe_ne_top

theorem cut_length {pat xs ys : List α} (h : cut pat xs = some ys) :
    ys.length + pat.length = xs.length := by
  cases hf : find pat xs with
  | top => simp [cut, hf] at h
  | coe i =>
    have hsplit := congrArg List.length (split_of_find hf)
    have hys : erase i pat.length xs = ys := by simpa [cut, hf] using h
    rw [← hys, erase, List.length_append]
    simp only [List.length_append] at hsplit
    omega

theorem cut_append {pat us xs : List α} (h : find pat (us ++ xs) = find pat xs + us.length) :
    cut pat (us ++ xs) = (cut pat xs).map (us ++ ·) := by
  cases hf : find pat xs with
  | top =>
    rw [hf, top_add] at h
    simp only [cut, h, hf]
    rfl
  | coe i =>
    have hpos : find pat (us ++ xs) = ((us.length + i : ℕ) : WithTop ℕ) := by
      rw [h, hf, add_comm]
      push_cast
      rfl
    have herase : erase (us.length + i) pat.length (us ++ xs) = us ++ erase i pat.length xs := by
      rw [erase, erase, List.take_length_add_append, add_assoc, List.drop_length_add_append,
        List.append_assoc]
    simp only [cut, hpos, hf]
    exact congrArg some herase

theorem cut_start (pat xs : List α) : cut pat (pat ++ xs) = some xs := by
  have hstart : find pat (pat ++ xs) = ((0 : ℕ) : WithTop ℕ) :=
    find_at_start (List.prefix_append pat xs)
  simp only [cut, hstart]
  simp [erase]

structure Cut {β : Type*} (text : List β) where
  first : List β
  later : List (List β)
  first_ne : first ≠ []
  later_ne : ∀ chunk ∈ later, chunk ≠ []
  whole : first ++ later.flatten = text

namespace Cut

variable {β : Type*} {text : List β} (cut : Cut text)

def chunks : List (List β) := cut.first :: cut.later

theorem first_eq : cut.first = text.take cut.first.length := by
  have hwhole := congrArg (List.take cut.first.length) cut.whole
  rwa [List.take_left] at hwhole

theorem later_eq : cut.later.flatten = text.drop cut.first.length := by
  have hwhole := congrArg (List.drop cut.first.length) cut.whole
  rwa [List.drop_left] at hwhole

end Cut

/-- How a character is written in code units. ASCII characters keep their value, and no other
character uses a unit that is one. -/
structure Encoding where
  encode : ℕ → List ℕ
  ascii : ∀ c < 128, encode c = [c]
  wide : ∀ c, 128 ≤ c → encode c ≠ [] ∧ ∀ u ∈ encode c, 128 ≤ u

namespace Encoding

def points : Encoding where
  encode c := [c]
  ascii _ _ := rfl
  wide c hc := ⟨List.cons_ne_nil c [], fun u hu => by rw [List.mem_singleton.mp hu]; exact hc⟩

def utf8Units (c : ℕ) : List ℕ :=
  if c < 0x80 then [c]
  else if c < 0x800 then [0xC0 + c / 0x40, 0x80 + c % 0x40]
  else if c < 0x10000 then [0xE0 + c / 0x1000, 0x80 + c / 0x40 % 0x40, 0x80 + c % 0x40]
  else [0xF0 + c / 0x40000, 0x80 + c / 0x1000 % 0x40, 0x80 + c / 0x40 % 0x40, 0x80 + c % 0x40]

def utf16Units (c : ℕ) : List ℕ :=
  if c < 0x10000 then [c] else [0xD800 + (c - 0x10000) / 0x400, 0xDC00 + (c - 0x10000) % 0x400]

def utf8 : Encoding where
  encode := utf8Units
  ascii c hc := if_pos hc
  wide c hc := by
    rw [utf8Units, if_neg (by omega)]
    split
    · refine ⟨List.cons_ne_nil _ _, ?_⟩
      simp only [List.mem_cons, List.not_mem_nil, or_false]
      omega
    · split <;> refine ⟨List.cons_ne_nil _ _, ?_⟩ <;>
        simp only [List.mem_cons, List.not_mem_nil, or_false] <;> omega

def utf16 : Encoding where
  encode := utf16Units
  ascii c hc := if_pos (by omega)
  wide c hc := by
    rw [utf16Units]
    split <;> refine ⟨List.cons_ne_nil _ _, ?_⟩ <;>
      simp only [List.mem_cons, List.not_mem_nil, or_false] <;> omega

variable (E : Encoding) {t : List ℕ}

def text (t : List ℕ) : List ℕ := t.flatMap E.encode

def offset (t : List ℕ) (i : ℕ) : ℕ := (E.text (t.take i)).length

def pos (t : List ℕ) (i : WithTop ℕ) : WithTop ℕ := i.map (E.offset t)

theorem text_append (s t : List ℕ) : E.text (s ++ t) = E.text s ++ E.text t :=
  List.flatMap_append

theorem text_cons (c : ℕ) (t : List ℕ) : E.text (c :: t) = E.encode c ++ E.text t := rfl

theorem points_text (t : List ℕ) : points.text t = t := by
  induction t with
  | nil => rfl
  | cons c t ih => rw [text_cons, ih]; rfl

theorem text_ascii {pat : List ℕ} (hp : ∀ p ∈ pat, p < 128) : E.text pat = pat := by
  induction pat with
  | nil => rfl
  | cons p ps ih =>
    rw [text_cons, E.ascii p (hp p (List.mem_cons_self ..)),
      ih fun q hq => hp q (List.mem_cons_of_mem _ hq)]
    rfl

theorem encode_ne_nil (c : ℕ) : E.encode c ≠ [] := by
  by_cases hc : c < 128
  · rw [E.ascii c hc]
    exact List.cons_ne_nil c []
  · exact (E.wide c (by omega)).1

theorem text_eq_nil {t : List ℕ} : E.text t = [] ↔ t = [] := by
  cases t with
  | nil => exact Iff.rfl
  | cons c t =>
    rw [text_cons, List.append_eq_nil_iff]
    exact iff_of_false (fun h => E.encode_ne_nil c h.1) (List.cons_ne_nil c t)

theorem not_mem_wide {c p : ℕ} (hc : ¬c < 128) (hp : p < 128) : p ∉ E.encode c := by
  intro hm
  have hu := (E.wide c (by omega)).2 p hm
  omega

theorem head_encode {c u : ℕ} {us : List ℕ} (h : E.encode c = u :: us) (hu : u < 128) : u = c := by
  by_cases hc : c < 128
  · rw [E.ascii c hc] at h
    exact (List.cons.inj h).1.symm
  · exact absurd (h ▸ List.mem_cons_self ..) (E.not_mem_wide hc hu)

theorem mem_text {p : ℕ} (hp : p < 128) : p ∈ E.text t ↔ p ∈ t := by
  induction t with
  | nil => exact Iff.rfl
  | cons c t ih =>
    rw [text_cons, List.mem_append, List.mem_cons, ih]
    apply or_congr_left
    by_cases hc : c < 128
    · rw [E.ascii c hc, List.mem_singleton]
    · refine iff_of_false (E.not_mem_wide hc hp) ?_
      rintro rfl
      exact hc hp

theorem prefix_text {pat : List ℕ} (hp : ∀ p ∈ pat, p < 128) : pat <+: E.text t ↔ pat <+: t := by
  induction pat generalizing t with
  | nil => exact iff_of_true List.nil_prefix List.nil_prefix
  | cons p ps ih =>
    cases t with
    | nil => exact Iff.rfl
    | cons c t =>
      have hpc := hp p (List.mem_cons_self ..)
      have hps := ih (t := t) fun q hq => hp q (List.mem_cons_of_mem _ hq)
      rw [text_cons]
      by_cases hc : c < 128
      · rw [E.ascii c hc, List.singleton_append, List.cons_prefix_cons, List.cons_prefix_cons, hps]
      · refine iff_of_false (fun h => ?_) fun h => ?_
        · obtain ⟨u, us, hu⟩ := List.exists_cons_of_ne_nil (E.encode_ne_nil c)
          rw [hu, List.cons_append, List.cons_prefix_cons] at h
          exact E.not_mem_wide hc hpc (hu ▸ h.1 ▸ List.mem_cons_self ..)
        · obtain rfl : p = c := (List.cons_prefix_cons.mp h).1
          exact hc hpc

theorem offset_succ (c i : ℕ) (t : List ℕ) :
    E.offset (c :: t) (i + 1) = (E.encode c).length + E.offset t i := by
  rw [offset, List.take_succ_cons, text_cons, List.length_append, offset]

theorem pos_succ (c : ℕ) (t : List ℕ) (i : WithTop ℕ) :
    E.pos (c :: t) (i + 1) = E.pos t i + (E.encode c).length := by
  cases i with
  | top => rfl
  | coe i =>
    have h := E.offset_succ c i t
    change ((E.offset (c :: t) (i + 1) : ℕ) : WithTop ℕ) = ((E.offset t i : ℕ) : WithTop ℕ) + _
    rw [h, add_comm]
    push_cast
    rfl

/-- An ASCII pattern is found in the encoded text where it is found in the text. -/
theorem find_text {pat : List ℕ} (hne : pat ≠ []) (hp : ∀ p ∈ pat, p < 128) (t : List ℕ) :
    find pat (E.text t) = E.pos t (find pat t) := by
  obtain ⟨p, ps, rfl⟩ := List.exists_cons_of_ne_nil hne
  induction t with
  | nil => rfl
  | cons c t ih =>
    by_cases h : p :: ps <+: c :: t
    · rw [find_at_start h, find_at_start ((E.prefix_text hp).mpr h)]
      rfl
    · have h' := mt (E.prefix_text hp).mp h
      rw [find_cons h, pos_succ, ← ih, text_cons]
      by_cases hc : c < 128
      · rw [text_cons, E.ascii c hc] at h'
        rw [E.ascii c hc]
        exact find_cons h'
      · exact find_skip (E.not_mem_wide hc (hp p (List.mem_cons_self ..))) _

theorem text_take_drop (t : List ℕ) (i : ℕ) :
    E.text t = E.text (t.take i) ++ E.text (t.drop i) := by
  rw [← text_append, List.take_append_drop]

theorem take_offset (t : List ℕ) (i : ℕ) : (E.text t).take (E.offset t i) = E.text (t.take i) := by
  rw [E.text_take_drop t i, offset, List.take_left]

theorem drop_offset (t : List ℕ) (i : ℕ) : (E.text t).drop (E.offset t i) = E.text (t.drop i) := by
  rw [E.text_take_drop t i, offset, List.drop_left]

theorem offset_length (t : List ℕ) : E.offset t t.length = (E.text t).length := by
  rw [offset, List.take_length]

theorem offset_add (t : List ℕ) (i j : ℕ) :
    E.offset t (i + j) = E.offset t i + E.offset (t.drop i) j := by
  rw [offset, List.take_add, text_append, List.length_append, offset, offset]

theorem offset_mono (t : List ℕ) : Monotone (E.offset t) := by
  intro i j hij
  obtain ⟨k, rfl⟩ := Nat.exists_eq_add_of_le hij
  rw [offset_add]
  exact Nat.le_add_right _ _

theorem offset_lt {i j : ℕ} (hij : i < j) (hj : j ≤ t.length) : E.offset t i < E.offset t j := by
  have hstep : 0 < E.offset (t.drop i) 1 := by
    rw [List.drop_eq_getElem_cons (by omega), offset_succ]
    have hlen := List.length_pos_iff.mpr (E.encode_ne_nil t[i])
    omega
  have hnext : E.offset t (i + 1) ≤ E.offset t j := E.offset_mono t hij
  rw [offset_add] at hnext
  omega

def Within (t : List ℕ) (i : WithTop ℕ) : Prop := ∀ n : ℕ, i = n → n ≤ t.length

theorem find_within (pat t : List ℕ) : Within t (find pat t) := fun _ h => find_le h

theorem pos_some (t : List ℕ) (i : ℕ) :
    E.pos t (WithTop.some i) = WithTop.some (E.offset t i) := rfl

theorem pos_lt_iff {i j : WithTop ℕ} (hi : Within t i) (hj : Within t j) :
    E.pos t i < E.pos t j ↔ i < j := by
  cases i with
  | top => exact iff_of_false not_top_lt not_top_lt
  | coe i =>
    cases j with
    | top => exact iff_of_true (WithTop.coe_lt_top _) (WithTop.coe_lt_top _)
    | coe j =>
      rw [pos_some, pos_some, WithTop.coe_lt_coe, WithTop.coe_lt_coe]
      refine ⟨fun h => ?_, fun h => E.offset_lt h (hj j rfl)⟩
      by_contra hle
      exact absurd (E.offset_mono t (Nat.le_of_not_lt hle)) (Nat.not_le.mpr h)

theorem pos_min {i j : WithTop ℕ} (hi : Within t i) (hj : Within t j) :
    E.pos t (min i j) = min (E.pos t i) (E.pos t j) := by
  rcases lt_or_ge i j with h | h
  · rw [min_eq_left (le_of_lt h), min_eq_left (le_of_lt ((E.pos_lt_iff hi hj).mpr h))]
  · have hle : E.pos t j ≤ E.pos t i := not_lt.mp (mt (E.pos_lt_iff hi hj).mp (not_lt.mpr h))
    rw [min_eq_right h, min_eq_right hle]

theorem pos_eq_top {i : WithTop ℕ} : E.pos t i = ⊤ ↔ i = ⊤ := by
  cases i with
  | top => exact Iff.rfl
  | coe i => exact iff_of_false (WithTop.coe_ne_top) (WithTop.coe_ne_top)

theorem pos_untopD (t : List ℕ) (i : WithTop ℕ) :
    (E.pos t i).untopD 0 = E.offset t (i.untopD 0) := by
  cases i with
  | top => exact Eq.refl 0
  | coe i => exact Eq.refl (E.offset t i)

theorem clip_pos {i : WithTop ℕ} (hi : Within t i) :
    clip (E.pos t i) (E.text t).length = E.offset t (clip i t.length) := by
  cases i with
  | top => exact (E.offset_length t).symm
  | coe i =>
    have hle := E.offset_mono t (hi i rfl)
    rw [offset_length] at hle
    change min (E.offset t i) _ = E.offset t (min i _)
    rw [Nat.min_eq_left hle, Nat.min_eq_left (hi i rfl)]

theorem erase_find {pat : List ℕ} (hp : ∀ p ∈ pat, p < 128) {i : ℕ} (h : find pat t = i) :
    erase (E.offset t i) pat.length (E.text t) = E.text (erase i pat.length t) := by
  obtain ⟨rest, hrest⟩ := prefix_of_find h
  have hdrop : (E.text t).drop (E.offset t i + pat.length) =
      E.text (t.drop (i + pat.length)) := by
    rw [← List.drop_drop, drop_offset, ← List.drop_drop, ← hrest, text_append, E.text_ascii hp,
      List.drop_left, List.drop_left]
  rw [erase, erase, text_append, take_offset, hdrop]

theorem cut_text {pat : List ℕ} (hne : pat ≠ []) (hp : ∀ p ∈ pat, p < 128) (t : List ℕ) :
    cut pat (E.text t) = (cut pat t).map E.text := by
  have hfind := E.find_text hne hp t
  cases hi : find pat t with
  | top =>
    rw [hi] at hfind
    simp only [cut, hfind, hi]
    rfl
  | coe i =>
    rw [hi] at hfind
    simp only [cut, hfind, hi]
    exact congrArg some (E.erase_find hp hi)

theorem erase_between (t : List ℕ) {i j : ℕ} (hij : i ≤ j) :
    erase (E.offset t i) (E.offset t j - E.offset t i) (E.text t) =
      E.text (erase i (j - i) t) := by
  have hle := E.offset_mono t hij
  rw [erase, erase, text_append, take_offset, Nat.add_sub_cancel' hle, Nat.add_sub_cancel' hij,
    drop_offset]

end Encoding

end TextSearch

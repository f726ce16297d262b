import Jetmon.TextSearch

/-! Reading a decimal number from text. One reader takes the longest leading number and
wraps around, the other takes the whole text or nothing. -/
namespace NumberText

open TextSearch

def isSpace (u : ℕ) : Bool := u == 32 || (decide (9 ≤ u) && decide (u ≤ 13))

def isDigit (u : ℕ) : Bool := decide (48 ≤ u) && decide (u ≤ 57)

def isSign (u : ℕ) : Bool := u == 45 || u == 43

def signOf (xs : List ℕ) : ℤ := if xs.head? = some 45 then -1 else 1

def unsigned (xs : List ℕ) : List ℕ := if xs.head?.any isSign then xs.tail else xs

def value (digits : List ℕ) : ℕ := digits.foldl (fun n u => 10 * n + (u - 48)) 0

theorem unsigned_cons (x : ℕ) (xs : List ℕ) :
    unsigned (x :: xs) = if isSign x then xs else x :: xs := rfl

def leading (xs : List ℕ) : ℤ :=
  let ys := xs.dropWhile isSpace
  signOf ys * value ((unsigned ys).takeWhile isDigit)

/-- `(int) strtol( s, NULL, 10 )`, with a long of 64 bits. -/
def atoi (xs : List ℕ) : ℤ := (max (-2 ^ 63) (min (2 ^ 63 - 1) (leading xs))).bmod (2 ^ 32)

def Decimal (xs : List ℕ) : Prop := unsigned xs ≠ [] ∧ (unsigned xs).all isDigit = true

instance (xs : List ℕ) : Decidable (Decimal xs) := by
  unfold Decimal
  infer_instance

def decimal (xs : List ℕ) : ℤ := signOf xs * value (unsigned xs)

def IsInt (xs : List ℕ) : Prop := Decimal xs ∧ -2 ^ 31 ≤ decimal xs ∧ decimal xs < 2 ^ 31

instance (xs : List ℕ) : Decidable (IsInt xs) := by
  unfold IsInt
  infer_instance

/-- QString::toInt. -/
def toInt (xs : List ℕ) : ℤ := if IsInt xs then decimal xs else 0

theorem isDigit_lt {u : ℕ} (h : isDigit u = true) : u < 128 := by
  simp only [isDigit, Bool.and_eq_true, decide_eq_true_eq] at h
  omega

theorem isSpace_lt {u : ℕ} (h : isSpace u = true) : u < 128 := by
  simp only [isSpace, Bool.or_eq_true, Bool.and_eq_true, decide_eq_true_eq, beq_iff_eq] at h
  omega

theorem isSign_lt {u : ℕ} (h : isSign u = true) : u < 128 := by
  simp only [isSign, Bool.or_eq_true, beq_iff_eq] at h
  omega

theorem decimal_head {xs : List ℕ} (h : Decimal xs) : xs.dropWhile isSpace = xs := by
  cases xs with
  | nil => rfl
  | cons x xs =>
    apply List.dropWhile_cons_of_neg
    intro hx
    have hsign : isSign x = false := by
      by_contra hs
      simp only [isSign, isSpace] at hs hx
      grind
    have hu : unsigned (x :: xs) = x :: xs := by simp [unsigned, hsign]
    have hd := h.2
    rw [hu, List.all_cons, Bool.and_eq_true] at hd
    have hd := hd.1
    simp only [isDigit, isSpace] at hd hx
    grind

theorem leading_of_decimal {xs : List ℕ} (h : Decimal xs) : leading xs = decimal xs := by
  have hall : (unsigned xs).takeWhile isDigit = unsigned xs :=
    List.takeWhile_eq_self_iff.mpr (List.all_eq_true.mp h.2)
  rw [leading, decimal_head h, decimal, hall]

theorem atoi_of_isInt {xs : List ℕ} (h : IsInt xs) : atoi xs = decimal xs := by
  obtain ⟨hd, hlo, hhi⟩ := h
  rw [atoi, leading_of_decimal hd, min_eq_right (by omega), max_eq_right (by omega)]
  exact Int.bmod_eq_of_le (by omega) (by omega)

theorem toInt_of_isInt {xs : List ℕ} (h : IsInt xs) : toInt xs = atoi xs := by
  rw [toInt, if_pos h, atoi_of_isInt h]

theorem toInt_of_not {xs : List ℕ} (h : ¬IsInt xs) : toInt xs = 0 := if_neg h

theorem unsigned_digits {digits : List ℕ} (h : digits.all isDigit = true) :
    unsigned digits = digits := by
  cases digits with
  | nil => rfl
  | cons d ds =>
    rw [List.all_cons, Bool.and_eq_true] at h
    have hd := h.1
    have hsign : isSign d = false := by
      simp only [isDigit, isSign, Bool.and_eq_true, decide_eq_true_eq, Bool.or_eq_false_iff,
        beq_eq_false_iff_ne] at hd ⊢
      omega
    rw [unsigned_cons, hsign]
    rfl

theorem decimal_digits {digits : List ℕ} (h : digits.all isDigit = true) :
    decimal digits = value digits := by
  have hsign : digits.head? ≠ some 45 := by
    intro hhead
    obtain ⟨ds, rfl⟩ := List.head?_eq_some_iff.mp hhead
    rw [List.all_cons, Bool.and_eq_true] at h
    exact absurd h.1 (by decide)
  rw [decimal, unsigned_digits h, signOf, if_neg hsign, one_mul]

theorem isInt_digits {digits : List ℕ} (h : digits.all isDigit = true) (hne : digits ≠ [])
    (hmax : value digits < 2 ^ 31) : IsInt digits := by
  refine ⟨⟨?_, ?_⟩, ?_, ?_⟩
  · rw [unsigned_digits h]
    exact hne
  · rw [unsigned_digits h]
    exact h
  · rw [decimal_digits h]
    omega
  · rw [decimal_digits h]
    omega

section Encoded

variable (E : Encoding) {t : List ℕ} {P : ℕ → Bool}

theorem takeWhile_text (hP : ∀ u, P u = true → u < 128) (t : List ℕ) :
    (E.text t).takeWhile P = t.takeWhile P := by
  induction t with
  | nil => rfl
  | cons c t ih =>
    rw [E.text_cons]
    by_cases hc : P c = true
    · rw [E.ascii c (hP c hc), List.singleton_append, List.takeWhile_cons_of_pos hc, ih,
        List.takeWhile_cons_of_pos hc]
    · obtain ⟨u, us, hu⟩ := List.exists_cons_of_ne_nil (E.encode_ne_nil c)
      have hPu : ¬P u = true := fun h => hc (E.head_encode hu (hP u h) ▸ h)
      rw [hu, List.cons_append, List.takeWhile_cons_of_neg hPu, List.takeWhile_cons_of_neg hc]

theorem dropWhile_text (hP : ∀ u, P u = true → u < 128) (t : List ℕ) :
    (E.text t).dropWhile P = E.text (t.dropWhile P) := by
  induction t with
  | nil => rfl
  | cons c t ih =>
    rw [E.text_cons]
    by_cases hc : P c = true
    · rw [E.ascii c (hP c hc), List.singleton_append, List.dropWhile_cons_of_pos hc, ih,
        List.dropWhile_cons_of_pos hc]
    · obtain ⟨u, us, hu⟩ := List.exists_cons_of_ne_nil (E.encode_ne_nil c)
      have hPu : ¬P u = true := fun h => hc (E.head_encode hu (hP u h) ▸ h)
      rw [List.dropWhile_cons_of_neg hc, E.text_cons, hu, List.cons_append,
        List.dropWhile_cons_of_neg hPu]

theorem head_text {p : ℕ} (hp : p < 128) : (E.text t).head? = some p ↔ t.head? = some p := by
  cases t with
  | nil => exact Iff.rfl
  | cons c t =>
    obtain ⟨u, us, hu⟩ := List.exists_cons_of_ne_nil (E.encode_ne_nil c)
    rw [E.text_cons, hu, List.cons_append, List.head?_cons, List.head?_cons, Option.some_inj,
      Option.some_inj]
    constructor
    · rintro rfl
      exact (E.head_encode hu hp).symm
    · rintro rfl
      rw [E.ascii c hp] at hu
      exact (List.cons.inj hu).1.symm

theorem signOf_text (t : List ℕ) : signOf (E.text t) = signOf t := by
  simp only [signOf, head_text E (show 45 < 128 by decide)]

theorem unsigned_text (t : List ℕ) : unsigned (E.text t) = E.text (unsigned t) := by
  have hsign : (E.text t).head?.any isSign = t.head?.any isSign := by
    rw [Bool.eq_iff_iff, Option.any_eq_true, Option.any_eq_true]
    constructor
    · rintro ⟨u, hu, hs⟩
      exact ⟨u, (head_text E (isSign_lt hs)).mp hu, hs⟩
    · rintro ⟨u, hu, hs⟩
      exact ⟨u, (head_text E (isSign_lt hs)).mpr hu, hs⟩
  simp only [unsigned, hsign]
  split
  · rename_i h
    obtain ⟨c, hc, hs⟩ := (Option.any_eq_true _ _).mp h
    obtain ⟨t, rfl⟩ := List.head?_eq_some_iff.mp hc
    rw [E.text_cons, E.ascii c (isSign_lt hs)]
    exact List.tail_cons
  · exact Eq.refl _

theorem leading_text (t : List ℕ) : leading (E.text t) = leading t := by
  simp only [leading]
  rw [dropWhile_text E (fun _ => isSpace_lt), unsigned_text, signOf_text,
    takeWhile_text E (fun _ => isDigit_lt)]

theorem atoi_text (t : List ℕ) : atoi (E.text t) = atoi t := by
  rw [atoi, leading_text, atoi]

theorem text_of_digits (h : t.all isDigit = true) : E.text t = t :=
  E.text_ascii fun u hu => isDigit_lt (List.all_eq_true.mp h u hu)

theorem all_isDigit_text (t : List ℕ) : (E.text t).all isDigit = t.all isDigit := by
  induction t with
  | nil => rfl
  | cons c t ih =>
    rw [E.text_cons, List.all_append, List.all_cons, ih]
    by_cases hc : c < 128
    · rw [E.ascii c hc, List.all_cons, List.all_nil, Bool.and_true]
    · obtain ⟨u, us, hu⟩ := List.exists_cons_of_ne_nil (E.encode_ne_nil c)
      have hdc : isDigit c = false := by simpa using mt isDigit_lt hc
      have hdu : isDigit u = false := by
        by_contra hd
        have hd : isDigit u = true := by simpa using hd
        exact hc (E.head_encode hu (isDigit_lt hd) ▸ isDigit_lt hd)
      rw [hu, List.all_cons, hdu, hdc, Bool.false_and]

theorem decimal_text_iff (t : List ℕ) : Decimal (E.text t) ↔ Decimal t := by
  have hnil : E.text (unsigned t) ≠ [] ↔ unsigned t ≠ [] := not_congr E.text_eq_nil
  rw [Decimal, Decimal, unsigned_text, all_isDigit_text, hnil]

theorem decimal_text (h : Decimal t) : decimal (E.text t) = decimal t := by
  rw [decimal, decimal, signOf_text, unsigned_text, text_of_digits E h.2]

theorem isInt_text (t : List ℕ) : IsInt (E.text t) ↔ IsInt t := by
  rw [IsInt, IsInt, decimal_text_iff]
  refine and_congr_right fun h => ?_
  rw [decimal_text E h]

theorem toInt_text (t : List ℕ) : toInt (E.text t) = toInt t := by
  by_cases h : IsInt t
  · rw [toInt, if_pos ((isInt_text E t).mpr h), toInt, if_pos h, decimal_text E h.1]
  · rw [toInt_of_not h, toInt_of_not (mt (isInt_text E t).mp h)]

end Encoded

def Stops (u : ℕ) : Prop := isSpace u = false ∧ isSign u = false ∧ isDigit u = false

instance (u : ℕ) : Decidable (Stops u) := by
  unfold Stops
  infer_instance

theorem takeWhile_stop {P : ℕ → Bool} {u : ℕ} (hu : P u = false) (pre post : List ℕ) :
    (pre ++ u :: post).takeWhile P = pre.takeWhile P := by
  induction pre with
  | nil => exact List.takeWhile_cons_of_neg (by simp [hu])
  | cons c pre ih =>
    rw [List.cons_append, List.takeWhile_cons, List.takeWhile_cons, ih]

theorem dropWhile_stop {P : ℕ → Bool} {u : ℕ} (hu : P u = false) (pre post : List ℕ) :
    (pre ++ u :: post).dropWhile P = pre.dropWhile P ++ u :: post := by
  induction pre with
  | nil => exact List.dropWhile_cons_of_neg (by simp [hu])
  | cons c pre ih =>
    rw [List.cons_append, List.dropWhile_cons, List.dropWhile_cons, ih]
    split
    · rfl
    · rw [List.cons_append]

theorem sign_stop {u : ℕ} (hu : isSign u = false) (pre post : List ℕ) :
    signOf (pre ++ u :: post) = signOf pre ∧
      unsigned (pre ++ u :: post) = unsigned pre ++ u :: post := by
  cases pre with
  | nil =>
    have hne : u ≠ 45 := by
      rintro rfl
      exact absurd hu (by decide)
    simp [signOf, unsigned, hu, hne]
  | cons c pre =>
    refine ⟨rfl, ?_⟩
    rw [List.cons_append, unsigned_cons, unsigned_cons]
    by_cases hc : isSign c = true
    · rw [if_pos hc, if_pos hc]
    · rw [if_neg hc, if_neg hc, List.cons_append]

theorem atoi_stop {u : ℕ} (hu : Stops u) (pre post : List ℕ) :
    atoi (pre ++ u :: post) = atoi pre := by
  obtain ⟨hspace, hsign, hdigit⟩ := hu
  have hlead : leading (pre ++ u :: post) = leading pre := by
    simp only [leading]
    rw [dropWhile_stop hspace]
    obtain ⟨hs, hun⟩ := sign_stop hsign (pre.dropWhile isSpace) post
    rw [hs, hun, takeWhile_stop hdigit]
  rw [atoi, hlead, atoi]

theorem not_isInt_of_mem {u : ℕ} (hu : Stops u) {xs : List ℕ} (h : u ∈ xs) : ¬IsInt xs := by
  rintro ⟨⟨_, hall⟩, _⟩
  rw [List.all_eq_true] at hall
  have hd : u ∉ unsigned xs := fun hm => by
    have hdigit := hu.2.2
    rw [hall u hm] at hdigit
    contradiction
  apply hd
  cases xs with
  | nil => exact h
  | cons c xs =>
    rw [unsigned_cons]
    by_cases hc : isSign c = true
    · rw [if_pos hc]
      refine (List.mem_cons.mp h).resolve_left ?_
      rintro rfl
      exact absurd (hu.2.1.symm.trans hc) (by decide)
    · rw [if_neg hc]
      exact h

theorem value_lt {digits : List ℕ} (h : ∀ d ∈ digits, isDigit d = true) :
    value digits < 10 ^ digits.length := by
  have hfold : ∀ (ds : List ℕ) (n : ℕ), (∀ d ∈ ds, isDigit d = true) →
      ds.foldl (fun n u => 10 * n + (u - 48)) n < (n + 1) * 10 ^ ds.length := by
    intro ds
    induction ds with
    | nil => intro n _; simp
    | cons d ds ih =>
      intro n hd
      have hdigit := hd d (List.mem_cons_self ..)
      simp only [isDigit, Bool.and_eq_true, decide_eq_true_eq] at hdigit
      have hrest := ih (10 * n + (d - 48)) fun u hu => hd u (List.mem_cons_of_mem _ hu)
      have hle : 10 * n + (d - 48) + 1 ≤ (n + 1) * 10 := by omega
      calc ds.foldl (fun n u => 10 * n + (u - 48)) (10 * n + (d - 48))
          < (10 * n + (d - 48) + 1) * 10 ^ ds.length := hrest
        _ ≤ (n + 1) * 10 * 10 ^ ds.length := Nat.mul_le_mul_right _ hle
        _ = (n + 1) * 10 ^ (d :: ds).length := by rw [List.length_cons, pow_succ]; ring
  have hvalue := hfold digits 0 h
  rwa [zero_add, one_mul] at hvalue

theorem unsigned_length (xs : List ℕ) : (unsigned xs).length ≤ xs.length := by
  cases xs with
  | nil => exact Nat.le_refl 0
  | cons x xs =>
    rw [unsigned_cons]
    split
    · exact Nat.le_succ _
    · exact Nat.le_refl _

def digitsRead (xs : List ℕ) : List ℕ := (unsigned (xs.dropWhile isSpace)).takeWhile isDigit

theorem digitsRead_length (xs : List ℕ) : (digitsRead xs).length ≤ xs.length :=
  (List.takeWhile_sublist _).length_le.trans
    ((unsigned_length _).trans (List.dropWhile_sublist _).length_le)

theorem value_digitsRead_lt (xs : List ℕ) : value (digitsRead xs) < 10 ^ (digitsRead xs).length :=
  value_lt fun _ hd => List.mem_takeWhile_imp hd

theorem leading_eq (xs : List ℕ) :
    leading xs = signOf (xs.dropWhile isSpace) * value (digitsRead xs) := rfl

theorem leading_bounds (xs : List ℕ) :
    leading xs = value (digitsRead xs) ∨ leading xs = -value (digitsRead xs) := by
  rw [leading_eq, signOf]
  split
  · exact Or.inr (neg_one_mul _)
  · exact Or.inl (one_mul _)

theorem atoi_of_short {xs : List ℕ} (h : xs.length ≤ 3) : atoi xs = leading xs := by
  have hpow : 10 ^ (digitsRead xs).length ≤ 10 ^ 3 :=
    Nat.pow_le_pow_right (by decide) ((digitsRead_length xs).trans h)
  have hlt := value_digitsRead_lt xs
  have hbound : -1000 < leading xs ∧ leading xs < 1000 := by
    rcases leading_bounds xs with he | he <;> omega
  rw [atoi, min_eq_right (by omega), max_eq_right (by omega)]
  exact Int.bmod_eq_of_le (by omega) (by omega)

theorem isInt_of_short {xs : List ℕ} (h : xs.length ≤ 3) (hlarge : 99 < atoi xs) : IsInt xs := by
  rw [atoi_of_short h] at hlarge
  have hlt := value_digitsRead_lt xs
  have hlen : 3 ≤ (digitsRead xs).length := by
    by_contra hshort
    have hpow : 10 ^ (digitsRead xs).length ≤ 10 ^ 2 :=
      Nat.pow_le_pow_right (by decide) (by omega)
    rcases leading_bounds xs with he | he <;> omega
  have hdrop : xs.dropWhile isSpace = xs := by
    refine (List.dropWhile_sublist _).eq_of_length_le ?_
    have htake := (List.takeWhile_sublist (l := unsigned (xs.dropWhile isSpace)) isDigit).length_le
    exact h.trans (hlen.trans (htake.trans (unsigned_length _)))
  have hall : (unsigned xs).takeWhile isDigit = unsigned xs := by
    refine (List.takeWhile_sublist _).eq_of_length_le ?_
    rw [digitsRead, hdrop] at hlen
    exact (unsigned_length xs).trans (h.trans hlen)
  have hdecimal : Decimal xs := by
    refine ⟨fun hnil => ?_, List.all_eq_true.mpr (List.takeWhile_eq_self_iff.mp hall)⟩
    rw [digitsRead, hdrop, hnil] at hlen
    exact absurd hlen (by decide)
  refine ⟨hdecimal, ?_⟩
  rw [← leading_of_decimal hdecimal]
  have hpow : 10 ^ (digitsRead xs).length ≤ 10 ^ 3 :=
    Nat.pow_le_pow_right (by decide) ((digitsRead_length xs).trans h)
  rcases leading_bounds xs with he | he <;> omega

end NumberText

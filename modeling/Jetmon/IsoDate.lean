import Mathlib

/-! Dates of the Gregorian calendar and their texts: Date.prototype.toISOString. Times are
milliseconds from the start of 1970. -/
namespace IsoDate

@[ext] structure Civil where
  year : ℤ
  month : ℤ
  day : ℤ
  deriving DecidableEq, Repr

/-- A day by the 400 years it is in, the centuries, four years and years that have passed of
them, and the days of its year. Years begin in March here, so that the day that some have more
is their last one. -/
structure Parts where
  era : ℤ
  century : ℤ
  four : ℤ
  year : ℤ
  day : ℤ

/-- The parts of a day that is counted from the 1 March of a year 0. -/
def parts (n : ℤ) : Parts :=
  let ofEra := n % 146097
  let century := min 3 (ofEra / 36524)
  let ofCentury := ofEra - 36524 * century
  let year := min 3 (ofCentury % 1461 / 365)
  ⟨n / 146097, century, ofCentury / 1461, year, ofCentury % 1461 - 365 * year⟩

def Parts.date (p : Parts) : Civil :=
  let year := 400 * p.era + 100 * p.century + 4 * p.four + p.year
  let march := (5 * p.day + 2) / 153
  let day := p.day - (153 * march + 2) / 5 + 1
  if march < 10 then ⟨year, march + 3, day⟩ else ⟨year + 1, march - 9, day⟩

/-- The date of a day that is counted from 1 January 1970. -/
def civil (n : ℤ) : Civil := (parts (n + 719468)).date

def Civil.number (c : Civil) : ℤ :=
  let march := if c.month ≤ 2 then c.month + 9 else c.month - 3
  let year := if c.month ≤ 2 then c.year - 1 else c.year
  let ofEra := year % 400
  146097 * (year / 400) + (365 * ofEra + ofEra / 4 - ofEra / 100) +
    ((153 * march + 2) / 5 + c.day - 1) - 719468

structure Parts.Proper (p : Parts) : Prop where
  century : 0 ≤ p.century ∧ p.century ≤ 3
  four : 0 ≤ p.four ∧ p.four ≤ 24
  year : 0 ≤ p.year ∧ p.year ≤ 3
  day : 0 ≤ p.day ∧ p.day ≤ 365

def Parts.total (p : Parts) : ℤ :=
  146097 * p.era + 36524 * p.century + 1461 * p.four + 365 * p.year + p.day

theorem parts_total (n : ℤ) : (parts n).total = n := by
  simp only [parts, Parts.total]
  omega

theorem parts_proper (n : ℤ) : (parts n).Proper := by
  constructor <;> simp only [parts] <;> omega

theorem number_date {p : Parts} (h : p.Proper) : p.date.number = p.total - 719468 := by
  obtain ⟨era, century, four, year, day⟩ := p
  obtain ⟨hcentury, hfour, hyear, hday⟩ := h
  dsimp only at hcentury hfour hyear hday
  have hera : (400 * era + 100 * century + 4 * four + year) / 400 = era ∧
      (400 * era + 100 * century + 4 * four + year) % 400 = 100 * century + 4 * four + year := by
    omega
  have hmarch : 0 ≤ (5 * day + 2) / 153 ∧ (5 * day + 2) / 153 ≤ 11 := by omega
  simp only [Parts.date, Parts.total]
  split
  · have hmonth : ¬(5 * day + 2) / 153 + 3 ≤ 2 := by omega
    simp only [Civil.number, if_neg hmonth, hera.1, hera.2, Int.add_sub_cancel]
    omega
  · have hmonth : (5 * day + 2) / 153 - 9 ≤ 2 := by omega
    simp only [Civil.number, if_pos hmonth, Int.add_sub_cancel, hera.1, hera.2,
      Int.sub_add_cancel]
    omega

/-- A day is read back from its date. -/
theorem number_civil (n : ℤ) : (civil n).number = n := by
  rw [civil, number_date (parts_proper _), parts_total]
  omega

example : civil 0 = ⟨1970, 1, 1⟩ ∧ civil 19782 = ⟨2024, 2, 29⟩ := by decide

def pad : ℕ → ℕ → List Char
  | 0, _ => []
  | width + 1, n => pad width (n / 10) ++ [Nat.digitChar (n % 10)]

def digitValue (c : Char) : ℕ := c.toNat - 48

def value (cs : List Char) : ℕ := cs.foldl (fun n c => 10 * n + digitValue c) 0

theorem pad_length (width n : ℕ) : (pad width n).length = width := by
  induction width generalizing n with
  | zero => rfl
  | succ width ih => rw [pad, List.length_append, ih, List.length_singleton]

theorem digitValue_digitChar : ∀ n < 10, digitValue (Nat.digitChar n) = n := by decide

theorem value_pad (width n : ℕ) : value (pad width n) = n % 10 ^ width := by
  induction width generalizing n with
  | zero => rw [Nat.pow_zero, Nat.mod_one]; rfl
  | succ width ih =>
    have hlast : value (pad (width + 1) n) = 10 * value (pad width (n / 10)) + n % 10 := by
      rw [pad, value, List.foldl_append, List.foldl_cons, List.foldl_nil,
        digitValue_digitChar _ (Nat.mod_lt _ (by decide))]
      rfl
    rw [hlast, ih, Nat.pow_succ', Nat.mod_mul, Nat.add_comm]

theorem pad_inj {width m n : ℕ} (hm : m < 10 ^ width) (hn : n < 10 ^ width)
    (h : pad width m = pad width n) : m = n := by
  have hvalue := congrArg value h
  rwa [value_pad, value_pad, Nat.mod_eq_of_lt hm, Nat.mod_eq_of_lt hn] at hvalue

def sign (year : ℤ) : Char := if year < 0 then '-' else '+'

/-- Six digits with a sign for a year that four digits do not hold. -/
def yearText (year : ℤ) : List Char :=
  if 0 ≤ year ∧ year ≤ 9999 then pad 4 year.toNat else sign year :: pad 6 year.natAbs

def dayText (c : Civil) : List Char := '-' :: (pad 2 c.month.toNat ++ '-' :: pad 2 c.day.toNat)

def clockText (ms : ℕ) : List Char :=
  'T' :: (pad 2 (ms / 3600000) ++ ':' :: (pad 2 (ms / 60000 % 60) ++
    ':' :: (pad 2 (ms / 1000 % 60) ++ '.' :: (pad 3 (ms % 1000) ++ ['Z']))))

def dayOf (t : ℤ) : ℤ := t / 86400000

def msOf (t : ℤ) : ℕ := (t % 86400000).toNat

def toISOString (t : ℤ) : List Char :=
  yearText (civil (dayOf t)).year ++ (dayText (civil (dayOf t)) ++ clockText (msOf t))

/-- A time that a Date can hold. -/
def Valid (t : ℤ) : Prop := t.natAbs ≤ 8640000000000000

instance (t : ℤ) : Decidable (Valid t) := Nat.decLe _ _

theorem yearText_short {y : ℤ} (h : 0 ≤ y ∧ y ≤ 9999) : yearText y = pad 4 y.toNat := if_pos h

theorem yearText_long {y : ℤ} (h : ¬(0 ≤ y ∧ y ≤ 9999)) :
    yearText y = sign y :: pad 6 y.natAbs :=
  if_neg h

theorem sign_inj {y z : ℤ} (h : sign y = sign z) : y < 0 ↔ z < 0 := by
  unfold sign at h
  split at h <;> split at h
  · omega
  · contradiction
  · contradiction
  · omega

theorem yearText_lengths {y z : ℤ} (hshort : 0 ≤ y ∧ y ≤ 9999) (hlong : ¬(0 ≤ z ∧ z ≤ 9999)) :
    yearText y ≠ yearText z := by
  intro h
  have hlength := congrArg List.length h
  simp [yearText_short hshort, yearText_long hlong, pad_length] at hlength

theorem yearText_inj {y z : ℤ} (hy : y.natAbs < 1000000) (hz : z.natAbs < 1000000)
    (h : yearText y = yearText z) : y = z := by
  by_cases hshort : 0 ≤ y ∧ y ≤ 9999 <;> by_cases hshort' : 0 ≤ z ∧ z ≤ 9999
  · rw [yearText_short hshort, yearText_short hshort'] at h
    have hnat := pad_inj (by omega) (by omega) h
    omega
  · exact absurd h (yearText_lengths hshort hshort')
  · exact absurd h.symm (yearText_lengths hshort' hshort)
  · rw [yearText_long hshort, yearText_long hshort'] at h
    obtain ⟨hsign, hdigits⟩ := List.cons.inj h
    have hnat := pad_inj hy hz hdigits
    have hneg := sign_inj hsign
    omega

theorem dayText_length (c : Civil) : (dayText c).length = 6 := by
  simp only [dayText, List.length_cons, List.length_append, pad_length]

theorem clockText_length (ms : ℕ) : (clockText ms).length = 14 := by
  simp only [clockText, List.length_cons, List.length_append, pad_length, List.length_nil]

theorem parts_inj {width m n : ℕ} {c : Char} {cs ds : List Char} (hm : m < 10 ^ width)
    (hn : n < 10 ^ width) (h : pad width m ++ c :: cs = pad width n ++ c :: ds) :
    m = n ∧ cs = ds := by
  obtain ⟨hpad, hrest⟩ := List.append_inj h (by rw [pad_length, pad_length])
  exact ⟨pad_inj hm hn hpad, (List.cons.inj hrest).2⟩

theorem dayText_inj {c d : Civil}
    (hc : 0 ≤ c.month ∧ c.month < 100 ∧ 0 ≤ c.day ∧ c.day < 100)
    (hd : 0 ≤ d.month ∧ d.month < 100 ∧ 0 ≤ d.day ∧ d.day < 100) (h : dayText c = dayText d) :
    c.month = d.month ∧ c.day = d.day := by
  obtain ⟨hmonth, hday⟩ := parts_inj (by omega) (by omega) (List.cons.inj h).2
  have hday := pad_inj (by omega) (by omega) hday
  omega

theorem clockText_inj {m n : ℕ} (hm : m < 86400000) (hn : n < 86400000)
    (h : clockText m = clockText n) : m = n := by
  obtain ⟨hhours, h⟩ := parts_inj (by omega) (by omega) (List.cons.inj h).2
  obtain ⟨hminutes, h⟩ := parts_inj (by omega) (by omega) h
  obtain ⟨hseconds, h⟩ := parts_inj (by omega) (by omega) h
  obtain ⟨hrest, -⟩ := parts_inj (by omega) (by omega) h
  omega

theorem date_bounds {p : Parts} (h : p.Proper) :
    1 ≤ p.date.month ∧ p.date.month ≤ 12 ∧ 1 ≤ p.date.day ∧ p.date.day ≤ 31 ∧
      400 * p.era ≤ p.date.year ∧ p.date.year ≤ 400 * p.era + 400 := by
  obtain ⟨hcentury, hfour, hyear, hday⟩ := h
  simp only [Parts.date]
  split <;> dsimp only <;> omega

/-- A time is read back from its text. -/
theorem toISOString_inj {t u : ℤ} (ht : Valid t) (hu : Valid u)
    (h : toISOString t = toISOString u) : t = u := by
  have hbounds : ∀ t, Valid t → (civil (dayOf t)).year.natAbs < 1000000 := by
    intro t ht
    obtain ⟨-, -, -, -, hlow, hhigh⟩ := date_bounds (parts_proper (dayOf t + 719468))
    have hera : (parts (dayOf t + 719468)).era = (t / 86400000 + 719468) / 146097 := rfl
    unfold Valid at ht
    unfold civil
    omega
  have hlengths : ∀ t u, (dayText (civil (dayOf t)) ++ clockText (msOf t)).length =
      (dayText (civil (dayOf u)) ++ clockText (msOf u)).length := by
    intro t u
    rw [List.length_append, List.length_append, dayText_length, dayText_length, clockText_length,
      clockText_length]
  obtain ⟨hyear, hrest⟩ := List.append_inj' h (hlengths t u)
  have hyear := yearText_inj (hbounds t ht) (hbounds u hu) hyear
  obtain ⟨hday, hclock⟩ := List.append_inj hrest (by rw [dayText_length, dayText_length])
  have hmonths : ∀ n, 0 ≤ (civil n).month ∧ (civil n).month < 100 ∧ 0 ≤ (civil n).day ∧
      (civil n).day < 100 := by
    intro n
    obtain ⟨h₁, h₂, h₃, h₄, -⟩ := date_bounds (parts_proper (n + 719468))
    unfold civil
    omega
  obtain ⟨hmonth, hday⟩ := dayText_inj (hmonths _) (hmonths _) hday
  have hcivil : civil (dayOf t) = civil (dayOf u) := Civil.ext hyear hmonth hday
  have hdays := congrArg Civil.number hcivil
  rw [number_civil, number_civil] at hdays
  have hms : msOf t = msOf u := by
    apply clockText_inj _ _ hclock <;> unfold msOf <;> omega
  unfold dayOf at hdays
  unfold msOf at hms
  omega

example : toISOString 1709210096789 = "2024-02-29T12:34:56.789Z".toList := by decide

end IsoDate

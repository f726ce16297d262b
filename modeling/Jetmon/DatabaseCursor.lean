import Mathlib
import Jetmon.SiteModel

/-! The bucket cursor of lib/database.js: the ranges put in the batch queries, rounds of
calls to getNextBatch, and the error branch of its callback. A query error is delivered
after getNextBatch has returned, as the pool's asynchronous calls do. -/
namespace DatabaseCursor

open SiteModel

section

variable {α : Type*} [LinearOrder α]

def block (h : ℕ → α) (i : ℕ) : Set α := Set.Ico (h i) (h (i + 1))

theorem block_disjoint {h : ℕ → α} (hm : Monotone h) {i j : ℕ} (hij : i ≠ j) :
    Disjoint (block h i) (block h j) :=
  hm.pairwise_disjoint_on_Ico_succ hij

theorem block_union {h : ℕ → α} (hm : Monotone h) (n : ℕ) :
    ⋃ i ∈ Finset.range n, block h i = Set.Ico (h 0) (h n) := by
  apply Set.Subset.antisymm
  · intro x hx
    simp only [Set.mem_iUnion, Finset.mem_range] at hx
    obtain ⟨i, hi, hx⟩ := hx
    exact ⟨(hm (Nat.zero_le i)).trans hx.1, hx.2.trans_le (hm hi)⟩
  · exact Ico_subset_biUnion_Ico n h

end

structure Cursor where
  fromBucketNo : ℤ
  toBucketNo : ℤ
  deriving DecidableEq, Repr

/-- The WHERE clause of a batch query. The interval condition on MOD(MINUTE(NOW()) + id)
is present when variable check intervals are used. -/
structure Query where
  fromBucketNo : ℤ
  toBucketNo : ℤ
  variableIntervals : Bool
  deriving DecidableEq, Repr

def Query.buckets (q : Query) : Set ℤ := Set.Icc q.fromBucketNo q.toBucketNo

def Cursor.initial (cfg : Config) : Cursor :=
  ⟨cfg.bucketNoMin, cfg.bucketNoMin + cfg.batchSize - 1⟩

def Cursor.query (cfg : Config) (c : Cursor) : Query :=
  ⟨c.fromBucketNo, c.toBucketNo, cfg.useVariableCheckIntervals⟩

/-- The statements of getNextBatch after the call of execQuery. -/
def Cursor.advance (cfg : Config) (c : Cursor) : Cursor :=
  let next := c.fromBucketNo + cfg.batchSize
  let fromBucketNo := if cfg.bucketNoMax ≤ next then cfg.bucketNoMin else next
  let toBucketNo := fromBucketNo + cfg.batchSize - 1
  ⟨fromBucketNo, if cfg.bucketNoMax < toBucketNo then cfg.bucketNoMax else toBucketNo⟩

/-- The error branch of the query callback. -/
def Cursor.restore (cfg : Config) (c : Cursor) : Cursor :=
  ⟨c.fromBucketNo - cfg.batchSize, c.toBucketNo - cfg.batchSize⟩

/-- The query, the advanced cursor and the returned flag. -/
def getNextBatch (cfg : Config) (c : Cursor) : Query × Cursor × Bool :=
  (c.query cfg, c.advance cfg, decide (cfg.bucketNoMin = (c.advance cfg).fromBucketNo))

variable {cfg : Config}

theorem advance_from (c : Cursor) : (c.advance cfg).fromBucketNo =
    if cfg.bucketNoMax ≤ c.fromBucketNo + cfg.batchSize then cfg.bucketNoMin
    else c.fromBucketNo + cfg.batchSize := rfl

theorem advance_to (c : Cursor) : (c.advance cfg).toBucketNo =
    min ((c.advance cfg).fromBucketNo + cfg.batchSize - 1) cfg.bucketNoMax := by
  simp only [Cursor.advance]
  omega

def cursorAt (cfg : Config) : ℕ → Cursor
  | 0 => Cursor.initial cfg
  | k + 1 => (getNextBatch cfg (cursorAt cfg k)).2.1

def returned (cfg : Config) (k : ℕ) : Bool := (getNextBatch cfg (cursorAt cfg k)).2.2

def queried (cfg : Config) (k : ℕ) : Set ℤ := (getNextBatch cfg (cursorAt cfg k)).1.buckets

def RoundStarts (cfg : Config) (a : ℕ) : Prop := a = 0 ∨ ∃ k, a = k + 1 ∧ returned cfg k = true

/-- The round from call `a` ends, its ranges do not overlap, and together they are
the host's inclusive bucket range. -/
def RoundCovered (cfg : Config) (a : ℕ) : Prop :=
  ∃ n, a ≤ n ∧ returned cfg n = true ∧ (∀ k, a ≤ k → k < n → returned cfg k = false) ∧
    (∀ i j, a ≤ i → i < j → j ≤ n → Disjoint (queried cfg i) (queried cfg j)) ∧
    ⋃ k ∈ Set.Icc a n, queried cfg k = Set.Icc cfg.bucketNoMin cfg.bucketNoMax

theorem cursorAt_succ (k : ℕ) : cursorAt cfg (k + 1) = (cursorAt cfg k).advance cfg := rfl

theorem returned_iff (k : ℕ) :
    returned cfg k = true ↔ cfg.bucketNoMin = (cursorAt cfg (k + 1)).fromBucketNo := by
  simp [returned, getNextBatch, cursorAt_succ]

theorem round_starts_at_min {a : ℕ} (h : RoundStarts cfg a) :
    (cursorAt cfg a).fromBucketNo = cfg.bucketNoMin := by
  rcases h with rfl | ⟨k, rfl, hk⟩
  · rfl
  · exact ((returned_iff k).mp hk).symm

def lastCall (cfg : Config) : ℕ :=
  ((cfg.bucketNoMax - cfg.bucketNoMin - 1) / cfg.batchSize).toNat

def rangeStart (cfg : Config) (j : ℕ) : ℤ := cfg.bucketNoMin + j * cfg.batchSize

theorem rangeStart_succ (j : ℕ) : rangeStart cfg (j + 1) = rangeStart cfg j + cfg.batchSize := by
  unfold rangeStart
  push_cast
  ring

theorem rangeStart_mono (hb : 1 ≤ cfg.batchSize) : Monotone (rangeStart cfg) :=
  monotone_nat_of_le_succ fun j => by rw [rangeStart_succ]; omega

theorem last_call_reaches (hb : 1 ≤ cfg.batchSize) :
    cfg.bucketNoMax ≤ rangeStart cfg (lastCall cfg + 1) := by
  have hlt := Int.lt_ediv_add_one_mul_self (cfg.bucketNoMax - cfg.bucketNoMin - 1)
    (show 0 < cfg.batchSize by omega)
  have hL : (cfg.bucketNoMax - cfg.bucketNoMin - 1) / cfg.batchSize ≤ (lastCall cfg : ℤ) :=
    Int.self_le_toNat _
  have hm := mul_le_mul_of_nonneg_right (add_le_add_left hL 1)
    (show 0 ≤ cfg.batchSize by omega)
  unfold rangeStart
  push_cast
  linarith

theorem before_last_call (hb : 1 ≤ cfg.batchSize) {j : ℕ} (hj : j < lastCall cfg) :
    rangeStart cfg (j + 1) < cfg.bucketNoMax := by
  have hle := Int.ediv_mul_le (cfg.bucketNoMax - cfg.bucketNoMin - 1)
    (show cfg.batchSize ≠ 0 by omega)
  have hL : ((j + 1 : ℕ) : ℤ) ≤ (cfg.bucketNoMax - cfg.bucketNoMin - 1) / cfg.batchSize := by
    unfold lastCall at hj
    omega
  have hm := mul_le_mul_of_nonneg_right hL (show 0 ≤ cfg.batchSize by omega)
  unfold rangeStart
  linarith

theorem round_from (hb : 1 ≤ cfg.batchSize) {a : ℕ}
    (ha : (cursorAt cfg a).fromBucketNo = cfg.bucketNoMin) {j : ℕ} (hj : j ≤ lastCall cfg) :
    (cursorAt cfg (a + j)).fromBucketNo = rangeStart cfg j := by
  induction j with
  | zero => simp [rangeStart, ha]
  | succ j ih =>
    have hlt := before_last_call hb (show j < lastCall cfg by omega)
    rw [rangeStart_succ] at hlt ⊢
    rw [← Nat.add_assoc, cursorAt_succ, advance_from, ih (by omega), if_neg (by omega)]

theorem round_continues (hb : 1 ≤ cfg.batchSize) {a : ℕ}
    (ha : (cursorAt cfg a).fromBucketNo = cfg.bucketNoMin) {j : ℕ} (hj : j < lastCall cfg) :
    returned cfg (a + j) = false := by
  have hf := round_from hb ha (show j + 1 ≤ lastCall cfg by omega)
  rw [Bool.eq_false_iff, Ne, returned_iff, Nat.add_assoc, hf, rangeStart_succ]
  have := rangeStart_mono hb (Nat.zero_le j)
  simp only [rangeStart, Nat.cast_zero, zero_mul, add_zero] at this ⊢
  omega

theorem round_ends (hb : 1 ≤ cfg.batchSize) {a : ℕ}
    (ha : (cursorAt cfg a).fromBucketNo = cfg.bucketNoMin) :
    returned cfg (a + lastCall cfg) = true := by
  have hr := last_call_reaches hb
  rw [rangeStart_succ, ← round_from hb ha le_rfl] at hr
  rw [returned_iff, cursorAt_succ, advance_from, if_pos hr]

theorem round_to (hb : 1 ≤ cfg.batchSize) {a : ℕ}
    (ha : (cursorAt cfg a).fromBucketNo = cfg.bucketNoMin) {j : ℕ} (hj : j < lastCall cfg) :
    (cursorAt cfg (a + j)).toBucketNo = rangeStart cfg (j + 1) - 1 := by
  have hlt := before_last_call hb hj
  have hf := round_from hb ha (show j ≤ lastCall cfg by omega)
  rw [rangeStart_succ] at hlt ⊢
  cases hk : a + j with
  | zero =>
    rw [hk] at hf
    change cfg.bucketNoMin = _ at hf
    change cfg.bucketNoMin + cfg.batchSize - 1 = _
    omega
  | succ k =>
    rw [hk] at hf
    rw [cursorAt_succ] at hf ⊢
    rw [advance_to, hf]
    omega

def endPoint (cfg : Config) (a j : ℕ) : ℤ :=
  if j ≤ lastCall cfg then rangeStart cfg j else (cursorAt cfg (a + lastCall cfg)).toBucketNo + 1

theorem queried_eq_block (hb : 1 ≤ cfg.batchSize) {a : ℕ}
    (ha : (cursorAt cfg a).fromBucketNo = cfg.bucketNoMin) {j : ℕ} (hj : j ≤ lastCall cfg) :
    queried cfg (a + j) = block (endPoint cfg a) j := by
  have hf := round_from hb ha hj
  ext x
  simp only [queried, getNextBatch, Query.buckets, Cursor.query, block, endPoint, if_pos hj,
    Set.mem_Icc, Set.mem_Ico, hf]
  rcases Nat.lt_or_eq_of_le hj with hlt | rfl
  · rw [if_pos (by omega), round_to hb ha hlt]
    omega
  · rw [if_neg (by omega)]
    omega

theorem last_to_ge (hr : cfg.bucketNoMin ≤ cfg.bucketNoMax) (hb : 1 ≤ cfg.batchSize) {a : ℕ}
    (ha : (cursorAt cfg a).fromBucketNo = cfg.bucketNoMin) :
    rangeStart cfg (lastCall cfg) ≤ (cursorAt cfg (a + lastCall cfg)).toBucketNo + 1 := by
  have hf := round_from hb ha le_rfl
  cases hk : a + lastCall cfg with
  | zero =>
    rw [hk] at hf
    change cfg.bucketNoMin = _ at hf
    change _ ≤ cfg.bucketNoMin + cfg.batchSize - 1 + 1
    omega
  | succ k =>
    rw [hk] at hf
    rw [cursorAt_succ] at hf ⊢
    rw [advance_to, hf]
    have hmax : rangeStart cfg (lastCall cfg) ≤ cfg.bucketNoMax := by
      cases hL : lastCall cfg with
      | zero => simpa [rangeStart] using hr
      | succ m => exact (before_last_call hb (by omega)).le
    omega

theorem endPoint_mono (hr : cfg.bucketNoMin ≤ cfg.bucketNoMax) (hb : 1 ≤ cfg.batchSize) {a : ℕ}
    (ha : (cursorAt cfg a).fromBucketNo = cfg.bucketNoMin) : Monotone (endPoint cfg a) := by
  have hlast := last_to_ge hr hb ha
  refine monotone_nat_of_le_succ fun j => ?_
  unfold endPoint
  by_cases h₁ : j + 1 ≤ lastCall cfg
  · rw [if_pos h₁, if_pos (by omega)]
    exact rangeStart_mono hb (Nat.le_succ j)
  · rw [if_neg h₁]
    by_cases h₂ : j ≤ lastCall cfg
    · have hj : j = lastCall cfg := by omega
      rw [if_pos h₂, hj]
      exact hlast
    · rw [if_neg h₂]

theorem round_disjoint (hr : cfg.bucketNoMin ≤ cfg.bucketNoMax) (hb : 1 ≤ cfg.batchSize) {a : ℕ}
    (ha : (cursorAt cfg a).fromBucketNo = cfg.bucketNoMin) {i j : ℕ} (hi : a ≤ i) (hij : i < j)
    (hj : j ≤ a + lastCall cfg) : Disjoint (queried cfg i) (queried cfg j) := by
  obtain ⟨i, rfl⟩ := Nat.exists_eq_add_of_le hi
  obtain ⟨j, rfl⟩ := Nat.exists_eq_add_of_le (hi.trans hij.le)
  rw [queried_eq_block hb ha (by omega), queried_eq_block hb ha (by omega)]
  exact block_disjoint (endPoint_mono hr hb ha) (by omega)

theorem round_union (hr : cfg.bucketNoMin ≤ cfg.bucketNoMax) (hb : 1 ≤ cfg.batchSize) {a : ℕ}
    (ha : (cursorAt cfg a).fromBucketNo = cfg.bucketNoMin) :
    ⋃ k ∈ Set.Icc a (a + lastCall cfg), queried cfg k =
      Set.Icc cfg.bucketNoMin (cursorAt cfg (a + lastCall cfg)).toBucketNo := by
  have hu := block_union (endPoint_mono hr hb ha) (lastCall cfg + 1)
  have h₀ : endPoint cfg a 0 = cfg.bucketNoMin := by simp [endPoint, rangeStart]
  have h₁ : endPoint cfg a (lastCall cfg + 1) =
      (cursorAt cfg (a + lastCall cfg)).toBucketNo + 1 := by simp [endPoint]
  rw [h₀, h₁] at hu
  ext x
  have hx := Set.ext_iff.mp hu x
  simp only [Set.mem_iUnion, Finset.mem_range, Set.mem_Ico, Set.mem_Icc, exists_prop] at hx ⊢
  constructor
  · rintro ⟨k, ⟨hak, hkn⟩, hq⟩
    obtain ⟨j, rfl⟩ := Nat.exists_eq_add_of_le hak
    rw [queried_eq_block hb ha (by omega)] at hq
    have := hx.mp ⟨j, by omega, hq⟩
    omega
  · rintro ⟨h₁, h₂⟩
    obtain ⟨j, hj, hq⟩ := hx.mpr ⟨h₁, by omega⟩
    refine ⟨a + j, ⟨by omega, by omega⟩, ?_⟩
    rw [queried_eq_block hb ha (by omega)]
    exact hq

theorem round_length_unique {a n m : ℕ} (hn : returned cfg n = true) (hm : returned cfg m = true)
    (han : a ≤ n) (ham : a ≤ m) (bn : ∀ k, a ≤ k → k < n → returned cfg k = false)
    (bm : ∀ k, a ≤ k → k < m → returned cfg k = false) : n = m := by
  rcases Nat.lt_trichotomy n m with h | h | h
  · rw [bm n han h] at hn
    contradiction
  · exact h
  · rw [bn m ham h] at hm
    contradiction

/-- A round covers the host's range exactly when its last range ends at BUCKET_NO_MAX. -/
theorem round_covered_iff (hr : cfg.bucketNoMin ≤ cfg.bucketNoMax) (hb : 1 ≤ cfg.batchSize)
    {a : ℕ} (ha : RoundStarts cfg a) : RoundCovered cfg a ↔
      (cursorAt cfg (a + lastCall cfg)).toBucketNo = cfg.bucketNoMax := by
  have hmin := round_starts_at_min ha
  have hcont : ∀ k, a ≤ k → k < a + lastCall cfg → returned cfg k = false := by
    intro k hak hk
    obtain ⟨j, rfl⟩ := Nat.exists_eq_add_of_le hak
    exact round_continues hb hmin (by omega)
  constructor
  · rintro ⟨n, han, hn, hbefore, _, hunion⟩
    obtain rfl := round_length_unique hn (round_ends hb hmin) han (Nat.le_add_right _ _)
      hbefore hcont
    rw [round_union hr hb hmin] at hunion
    have hlast := (Set.ext_iff.mp hunion cfg.bucketNoMax).mpr ⟨hr, le_rfl⟩
    have hmax := (Set.ext_iff.mp hunion
      (cursorAt cfg (a + lastCall cfg)).toBucketNo).mp ⟨hlast.1.trans hlast.2, le_rfl⟩
    exact le_antisymm hmax.2 hlast.2
  · intro hto
    refine ⟨_, Nat.le_add_right _ _, round_ends hb hmin, hcont,
      fun i j => round_disjoint hr hb hmin, ?_⟩
    rw [round_union hr hb hmin, hto]

theorem last_call_below (hr : cfg.bucketNoMin < cfg.bucketNoMax) (hb : 1 ≤ cfg.batchSize) :
    rangeStart cfg (lastCall cfg) < cfg.bucketNoMax := by
  cases hL : lastCall cfg with
  | zero => simpa [rangeStart] using hr
  | succ m => exact before_last_call hb (by omega)

/-- The wrap test fires on BUCKET_NO_MAX itself exactly when the batches fill the range
but for its last bucket. -/
theorem wraps_at_max_iff (hb : 1 ≤ cfg.batchSize) :
    rangeStart cfg (lastCall cfg + 1) = cfg.bucketNoMax ↔
      cfg.bucketNoMin < cfg.bucketNoMax ∧
        cfg.batchSize ∣ cfg.bucketNoMax - cfg.bucketNoMin := by
  constructor
  · intro h
    have hm := rangeStart_mono hb (Nat.zero_le (lastCall cfg))
    have hs := @rangeStart_succ cfg (lastCall cfg)
    simp only [rangeStart, Nat.cast_zero, zero_mul, add_zero] at hm hs h
    refine ⟨by omega, (lastCall cfg + 1 : ℕ), ?_⟩
    rw [← h]
    ring
  · rintro ⟨hlt, q, hq⟩
    have hlow := last_call_below hlt hb
    have hhigh := last_call_reaches hb
    unfold rangeStart at hlow hhigh ⊢
    have h₁ : (lastCall cfg : ℤ) * cfg.batchSize < q * cfg.batchSize := by linarith
    have h₂ : q * cfg.batchSize ≤ ((lastCall cfg + 1 : ℕ) : ℤ) * cfg.batchSize := by linarith
    have hL := lt_of_mul_lt_mul_right h₁ (show 0 ≤ cfg.batchSize by omega)
    have hR := le_of_mul_le_mul_right h₂ (show 0 < cfg.batchSize by omega)
    have hq' : q = ((lastCall cfg + 1 : ℕ) : ℤ) := by omega
    rw [← hq']
    linarith

theorem last_to_eq (hb : 1 ≤ cfg.batchSize) {a : ℕ}
    (ha : (cursorAt cfg a).fromBucketNo = cfg.bucketNoMin) (hne : a + lastCall cfg ≠ 0) :
    (cursorAt cfg (a + lastCall cfg)).toBucketNo =
      min (rangeStart cfg (lastCall cfg + 1) - 1) cfg.bucketNoMax := by
  have hf := round_from hb ha le_rfl
  obtain ⟨k, hk⟩ := Nat.exists_eq_succ_of_ne_zero hne
  rw [hk] at hf ⊢
  rw [cursorAt_succ] at hf ⊢
  rw [advance_to, hf, rangeStart_succ]

/-- Every round covers BUCKET_NO_MIN..BUCKET_NO_MAX without overlap exactly when the
first, uncut range fits and BATCH_SIZE does not divide the distance of the two bounds. -/
theorem bucket_coverage_iff (hr : cfg.bucketNoMin ≤ cfg.bucketNoMax) (hb : 1 ≤ cfg.batchSize) :
    (∀ a, RoundStarts cfg a → RoundCovered cfg a) ↔
      cfg.batchSize ≤ cfg.bucketNoMax - cfg.bucketNoMin + 1 ∧
        (cfg.bucketNoMin = cfg.bucketNoMax ∨
          ¬ cfg.batchSize ∣ cfg.bucketNoMax - cfg.bucketNoMin) := by
  have hreach := last_call_reaches hb
  have hwrap := wraps_at_max_iff hb
  constructor
  · intro h
    have h₀ := (round_covered_iff hr hb (Or.inl rfl)).mp (h 0 (Or.inl rfl))
    by_cases hL : lastCall cfg = 0
    · rw [hL] at h₀
      change cfg.bucketNoMin + cfg.batchSize - 1 = _ at h₀
      refine ⟨by omega, ?_⟩
      by_cases he : cfg.bucketNoMin = cfg.bucketNoMax
      · exact Or.inl he
      · refine Or.inr fun hd => ?_
        have := Int.le_of_dvd (by omega) hd
        omega
    · rw [last_to_eq hb rfl (by omega)] at h₀
      have hbefore := before_last_call hb (show 0 < lastCall cfg by omega)
      rw [rangeStart_succ] at hbefore
      simp only [rangeStart, Nat.cast_zero, zero_mul, add_zero] at hbefore
      refine ⟨by omega, Or.inr fun hd => ?_⟩
      have := hwrap.mpr ⟨by omega, hd⟩
      omega
  · rintro ⟨hfit, hdvd⟩ a ha
    have hmin := round_starts_at_min ha
    rw [round_covered_iff hr hb ha]
    by_cases hz : a + lastCall cfg = 0
    · obtain ⟨rfl, hL⟩ : a = 0 ∧ lastCall cfg = 0 := by omega
      rw [hL] at hreach ⊢
      rw [rangeStart_succ] at hreach
      simp only [rangeStart, Nat.cast_zero, zero_mul, add_zero] at hreach
      change cfg.bucketNoMin + cfg.batchSize - 1 = _
      by_contra hne
      have heq : cfg.batchSize = cfg.bucketNoMax - cfg.bucketNoMin := by omega
      rcases hdvd with he | hd
      · omega
      · exact hd ⟨1, by omega⟩
    · rw [last_to_eq hb hmin hz]
      have hne : rangeStart cfg (lastCall cfg + 1) ≠ cfg.bucketNoMax := by
        intro he
        obtain ⟨hlt, hd⟩ := hwrap.mp he
        rcases hdvd with he | hn
        · omega
        · exact hn hd
      omega

theorem bucket_coverage_thirty : RoundCovered { sampleConfig with batchSize := 30 } 0 :=
  (bucket_coverage_iff (by decide) (by decide)).mpr (by decide) 0 (Or.inl rfl)

/-- With the shipped values bucket 512 belongs to the range and to no query of a round. -/
theorem bucket_coverage_fails_for_sample :
    sampleConfig.bucketNoMin ≤ sampleConfig.bucketNoMax ∧ 1 ≤ sampleConfig.batchSize ∧
      RoundStarts sampleConfig 0 ∧ ¬ RoundCovered sampleConfig 0 := by
  refine ⟨by decide, by decide, Or.inl rfl, ?_⟩
  rw [round_covered_iff (by decide) (by decide) (Or.inl rfl)]
  decide

def call (cfg : Config) (c : Cursor) (failed : Bool) : Cursor :=
  let next := (getNextBatch cfg c).2.1
  if failed then next.restore cfg else next

/-- Along the calls, every failed range is put in the next query again, and no query
starts below BUCKET_NO_MIN. -/
def Retried (cfg : Config) (c : Cursor) : List Bool → Prop
  | [] => cfg.bucketNoMin ≤ (c.query cfg).fromBucketNo
  | failed :: rest => cfg.bucketNoMin ≤ (c.query cfg).fromBucketNo ∧
      (failed = true → ((call cfg c failed).query cfg).buckets = (c.query cfg).buckets) ∧
      Retried cfg (call cfg c failed) rest

/-- The advance from `c` neither wraps to BUCKET_NO_MIN nor is cut off at BUCKET_NO_MAX. -/
def Inside (cfg : Config) (c : Cursor) : Prop :=
  c.fromBucketNo + cfg.batchSize < cfg.bucketNoMax ∧
    c.fromBucketNo + 2 * cfg.batchSize - 1 ≤ cfg.bucketNoMax

def FailsInside (cfg : Config) (c : Cursor) : List Bool → Prop
  | [] => True
  | failed :: rest => (failed = true → Inside cfg c) ∧ FailsInside cfg (call cfg c failed) rest

structure Regular (cfg : Config) (c : Cursor) : Prop where
  from_ge : cfg.bucketNoMin ≤ c.fromBucketNo
  from_le : c.fromBucketNo ≤ cfg.bucketNoMax
  to_eq : c.toBucketNo = c.fromBucketNo + cfg.batchSize - 1 ∨
    c.toBucketNo = min (c.fromBucketNo + cfg.batchSize - 1) cfg.bucketNoMax

theorem initial_regular (hr : cfg.bucketNoMin ≤ cfg.bucketNoMax) :
    Regular cfg (Cursor.initial cfg) := ⟨le_rfl, hr, Or.inl rfl⟩

theorem advance_regular (hr : cfg.bucketNoMin ≤ cfg.bucketNoMax) (hb : 1 ≤ cfg.batchSize)
    {c : Cursor} (hc : Regular cfg c) : Regular cfg (c.advance cfg) := by
  have hge := hc.from_ge
  refine ⟨?_, ?_, Or.inr (advance_to c)⟩ <;> rw [advance_from] <;> split <;> omega

theorem advance_inside {c : Cursor} (hi : Inside cfg c) :
    c.advance cfg = ⟨c.fromBucketNo + cfg.batchSize, c.fromBucketNo + 2 * cfg.batchSize - 1⟩ := by
  obtain ⟨h₁, h₂⟩ := hi
  have hf : (c.advance cfg).fromBucketNo = c.fromBucketNo + cfg.batchSize := by
    rw [advance_from, if_neg (by omega)]
  have ht := @advance_to cfg c
  cases h : c.advance cfg with
  | mk f t =>
    rw [h] at hf ht
    dsimp only at hf ht
    rw [hf, ht, hf]
    congr 1
    omega

theorem restore_inside {c : Cursor} (hc : Regular cfg c) (hi : Inside cfg c) :
    call cfg c true = c := by
  have hto := hc.to_eq
  obtain ⟨h₁, h₂⟩ := id hi
  simp only [call, getNextBatch, ↓reduceIte, Cursor.restore, advance_inside hi]
  cases c with
  | mk f t =>
    dsimp only at hto h₁ h₂ ⊢
    congr 1 <;> omega

theorem regular_nonempty (hb : 1 ≤ cfg.batchSize) {c : Cursor} (hc : Regular cfg c) :
    c.fromBucketNo ≤ c.toBucketNo := by
  have h₁ := hc.from_le
  have h₂ := hc.to_eq
  omega

/-- Outside, the range of the next query is a different one: it starts below
BUCKET_NO_MIN after a wrap and ends too early after a cut. -/
theorem restore_outside (hb : 1 ≤ cfg.batchSize) {c : Cursor} (hc : Regular cfg c)
    (ho : ¬ Inside cfg c) :
    ((call cfg c true).query cfg).buckets ≠ (c.query cfg).buckets := by
  have hge := hc.from_ge
  have hto := hc.to_eq
  have hne := regular_nonempty hb hc
  have hadv := @advance_to cfg c
  intro heq
  simp only [call, getNextBatch, ↓reduceIte, Cursor.restore, Cursor.query, Query.buckets] at heq
  obtain ⟨hf, ht⟩ : (c.advance cfg).fromBucketNo - cfg.batchSize = c.fromBucketNo ∧
      (c.advance cfg).toBucketNo - cfg.batchSize = c.toBucketNo := by
    have hlow := (Set.ext_iff.mp heq c.fromBucketNo).mpr ⟨le_rfl, hne⟩
    have hhigh := (Set.ext_iff.mp heq c.toBucketNo).mpr ⟨hne, le_rfl⟩
    have hlow' := (Set.ext_iff.mp heq _).mp ⟨le_rfl, hlow.1.trans hlow.2⟩
    have hhigh' := (Set.ext_iff.mp heq _).mp ⟨hhigh.1.trans hhigh.2, le_rfl⟩
    exact ⟨le_antisymm hlow.1 hlow'.1, le_antisymm hhigh'.2 hhigh.2⟩
  rw [advance_from] at hf
  split at hf
  · omega
  · rename_i hnowrap
    rw [hadv, advance_from, if_neg hnowrap] at ht
    exact ho ⟨by omega, by omega⟩

theorem retried_iff_from (hr : cfg.bucketNoMin ≤ cfg.bucketNoMax) (hb : 1 ≤ cfg.batchSize)
    (outcomes : List Bool) : ∀ {c : Cursor}, Regular cfg c →
      (Retried cfg c outcomes ↔ FailsInside cfg c outcomes) := by
  induction outcomes with
  | nil => intro c hc; exact ⟨fun _ => trivial, fun _ => hc.from_ge⟩
  | cons failed rest ih =>
    intro c hc
    cases failed with
    | false =>
      have ih := ih (advance_regular hr hb hc)
      exact ⟨fun h => ⟨nofun, ih.mp h.2.2⟩, fun h => ⟨hc.from_ge, nofun, ih.mpr h.2⟩⟩
    | true =>
      constructor
      · rintro ⟨_, hsame, hrest⟩
        have hi : Inside cfg c := by
          by_contra ho
          exact restore_outside hb hc ho (hsame rfl)
        refine ⟨fun _ => hi, ?_⟩
        rw [restore_inside hc hi] at hrest ⊢
        exact (ih hc).mp hrest
      · rintro ⟨hi, hrest⟩
        have hsame := restore_inside hc (hi rfl)
        rw [hsame] at hrest
        refine ⟨hc.from_ge, fun _ => by rw [hsame], ?_⟩
        rw [hsame]
        exact (ih hc).mpr hrest

/-- For every sequence of outcomes: failed batches are retried as they were exactly when
every failing call is one whose advance neither wrapped nor was cut off. -/
theorem failed_fetch_retried_iff (hr : cfg.bucketNoMin ≤ cfg.bucketNoMax)
    (hb : 1 ≤ cfg.batchSize) (outcomes : List Bool) :
    Retried cfg (Cursor.initial cfg) outcomes ↔
      FailsInside cfg (Cursor.initial cfg) outcomes :=
  retried_iff_from hr hb outcomes (initial_regular hr)

theorem failed_fetch_retried_sample : Retried sampleConfig (Cursor.initial sampleConfig)
    [true, false, true, true, false] :=
  (failed_fetch_retried_iff (by decide) (by decide) _).mpr (by
    simp [FailsInside, Inside, call, getNextBatch, Cursor.initial, Cursor.advance,
      Cursor.restore, sampleConfig])

/-- A failure of the first round's last batch, buckets 480 to 511, makes the next query
ask for buckets -32 to -1. -/
theorem failed_fetch_leaves_range :
    ¬ Retried sampleConfig (Cursor.initial sampleConfig) (List.replicate 15 false ++ [true]) ∧
      (List.replicate 15 false ++ [true]).foldl (call sampleConfig)
        (Cursor.initial sampleConfig) = ⟨-32, -1⟩ := by
  refine ⟨?_, by decide⟩
  rw [retried_iff_from (by decide) (by decide) _ (initial_regular (by decide))]
  simp [FailsInside, Inside, call, getNextBatch, Cursor.initial, Cursor.advance, sampleConfig,
    List.replicate]

end DatabaseCursor

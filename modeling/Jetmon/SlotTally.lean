import Mathlib

/-! Counters kept beside a list of items: counter `i` is to be the number of items that
occupy slot `i`. The counters are integers, so that they could become negative. -/
namespace SlotTally

variable {α : Type*} (slot : α → Option ℕ)

structure Tally (items : List α) (counters : List ℤ) : Prop where
  exact : ∀ i (h : i < counters.length), counters[i] = items.countP (slot · = some i)
  bounded : ∀ x ∈ items, ∀ i, slot x = some i → i < counters.length

theorem sum_modify {counters : List ℤ} {i : ℕ} (h : i < counters.length) (k : ℤ) :
    (counters.modify i (· + k)).sum = counters.sum + k := by
  have hsplit : counters.sum =
      ((counters.take i).sum + counters[i]) + (counters.drop (i + 1)).sum := by
    conv_lhs => rw [← List.take_append_drop (i + 1) counters]
    rw [List.sum_append, List.sum_take_succ _ _ h]
  rw [List.modify_eq_take_cons_drop h, List.sum_append, List.sum_cons, hsplit]
  omega

theorem exists_lt_of_sum_lt {counters : List ℤ} {bound : ℤ}
    (h : counters.sum < counters.length * bound) : ∃ c ∈ counters, c < bound := by
  by_contra hall
  push Not at hall
  have hsum := List.card_nsmul_le_sum counters bound hall
  rw [nsmul_eq_mul] at hsum
  omega

variable {slot}

theorem tally_nonneg {items : List α} {counters : List ℤ} (h : Tally slot items counters) :
    ∀ c ∈ counters, 0 ≤ c := by
  intro c hc
  obtain ⟨i, hi, rfl⟩ := List.getElem_of_mem hc
  rw [h.exact i hi]
  omega

theorem tally_start {counters : List ℤ} (h : ∀ c ∈ counters, c = 0) : Tally slot [] counters where
  exact i hi := by rw [h _ (List.getElem_mem hi), List.countP_nil, Nat.cast_zero]
  bounded _ hx := absurd hx List.not_mem_nil

theorem tally_append {items : List α} {counters : List ℤ} (h : Tally slot items counters) {x : α}
    (hx : slot x = none) : Tally slot (items ++ [x]) counters where
  exact i hi := by
    rw [List.countP_append, h.exact i hi]
    simp [hx]
  bounded y hy j hj := by
    rcases List.mem_append.mp hy with hy | hy
    · exact h.bounded y hy j hj
    · rw [List.mem_singleton.mp hy, hx] at hj
      contradiction

theorem tally_replace {before after : List α} {counters : List ℤ} {x x' : α}
    (h : Tally slot (before ++ x :: after) counters) (hx : slot x = slot x') :
    Tally slot (before ++ x' :: after) counters where
  exact i hi := by
    rw [h.exact i hi]
    simp [List.countP_cons, hx]
  bounded y hy j hj := by
    rcases List.mem_append.mp hy with hy | hy
    · exact h.bounded y (List.mem_append_left _ hy) j hj
    · rcases List.mem_cons.mp hy with rfl | hy
      · exact h.bounded x (List.mem_append_right _ List.mem_cons_self) j (hx ▸ hj)
      · exact h.bounded y (List.mem_append_right _ (List.mem_cons_of_mem _ hy)) j hj

theorem tally_occupy {before after : List α} {counters : List ℤ} {x x' : α} {k : ℕ}
    (h : Tally slot (before ++ x :: after) counters) (hx : slot x = none)
    (hx' : slot x' = some k) (hk : k < counters.length) :
    Tally slot (before ++ x' :: after) (counters.modify k (· + 1)) where
  exact i hi := by
    rw [List.length_modify] at hi
    have hold := h.exact i hi
    rw [List.getElem_modify, hold]
    by_cases hki : k = i
    · subst hki
      simp [hx, hx']
      omega
    · simp [hx, hx', hki]
  bounded y hy j hj := by
    rw [List.length_modify]
    rcases List.mem_append.mp hy with hy | hy
    · exact h.bounded y (List.mem_append_left _ hy) j hj
    · rcases List.mem_cons.mp hy with rfl | hy
      · rw [hx'] at hj
        exact Option.some.inj hj ▸ hk
      · exact h.bounded y (List.mem_append_right _ (List.mem_cons_of_mem _ hy)) j hj

theorem tally_release {before after : List α} {counters : List ℤ} {x : α} {k : ℕ}
    (h : Tally slot (before ++ x :: after) counters) (hx : slot x = some k) :
    Tally slot (before ++ after) (counters.modify k (· - 1)) where
  exact i hi := by
    rw [List.length_modify] at hi
    have hold := h.exact i hi
    rw [List.getElem_modify, hold]
    by_cases hki : k = i
    · subst hki
      simp [hx]
      omega
    · simp [hx, hki]
  bounded y hy j hj := by
    rw [List.length_modify]
    apply h.bounded y _ j hj
    rcases List.mem_append.mp hy with hy | hy
    · exact List.mem_append_left _ hy
    · exact List.mem_append_right _ (List.mem_cons_of_mem _ hy)

end SlotTally

import Mathlib.Data.Nat.Find

/-! Loops that need not end. A step either goes on with a new state or ends with a result; the
loop returns what it ends with, if it ends. -/
namespace Iteration

variable {σ ρ : Type*} (step : σ → σ ⊕ ρ)

def run : ℕ → σ → Option ρ
  | 0, _ => none
  | fuel + 1, s =>
    match step s with
    | .inl s' => run fuel s'
    | .inr r => some r

inductive Returns : σ → ρ → Prop where
  | done {s r} : step s = .inr r → Returns s r
  | more {s s' r} : step s = .inl s' → Returns s' r → Returns s r

variable {step}

theorem returns_of_run {fuel : ℕ} {s : σ} {r : ρ} (h : run step fuel s = some r) :
    Returns step s r := by
  induction fuel generalizing s with
  | zero => contradiction
  | succ fuel ih =>
    rw [run] at h
    cases hs : step s with
    | inl s' =>
      rw [hs] at h
      exact .more hs (ih h)
    | inr r' =>
      rw [hs] at h
      exact .done (hs.trans (congrArg _ (Option.some.inj h)))

/-- Enough fuel gives the result, and no amount gives another. -/
theorem returns_iff_run {s : σ} {r : ρ} :
    Returns step s r ↔ ∃ fuel, run step fuel s = some r := by
  constructor
  · intro h
    induction h with
    | done hs => exact ⟨1, by rw [run, hs]⟩
    | more hs _ ih =>
      obtain ⟨fuel, hfuel⟩ := ih
      exact ⟨fuel + 1, by rw [run, hs]; exact hfuel⟩
  · rintro ⟨fuel, h⟩
    exact returns_of_run h

theorem Returns.of_more {s s' : σ} {r : ρ} (h : Returns step s r) (hs : step s = .inl s') :
    Returns step s' r := by
  cases h with
  | done hr =>
    rw [hs] at hr
    contradiction
  | more hs' hr =>
    rw [hs] at hs'
    exact Sum.inl.inj hs' ▸ hr

theorem Returns.of_done {s : σ} {r r' : ρ} (h : Returns step s r) (hs : step s = .inr r') :
    r = r' := by
  cases h with
  | done hr =>
    rw [hs] at hr
    exact (Sum.inr.inj hr).symm
  | more hs' _ =>
    rw [hs] at hs'
    contradiction

/-- A loop that keeps a condition under which it goes on does not end. -/
theorem not_returns {P : σ → Prop} (hP : ∀ s, P s → ∃ s', step s = .inl s' ∧ P s') {s : σ} (h : P s)
    (r : ρ) : ¬Returns step s r := by
  intro hr
  induction hr with
  | done hs =>
    obtain ⟨s', hs', -⟩ := hP _ h
    rw [hs] at hs'
    contradiction
  | more hs _ ih =>
    obtain ⟨s', hs', hP'⟩ := hP _ h
    rw [hs] at hs'
    exact ih (Sum.inl.inj hs' ▸ hP')

end Iteration

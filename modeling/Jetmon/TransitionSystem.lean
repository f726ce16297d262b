import Mathlib.Data.List.Induction
import Mathlib.Tactic.TypeStar

/-! Guarded runs of event-driven machines. An event determines its successor state,
so every machine can be executed on a list of events. A run condition `C` restricts
which events may be taken in which states; invariants are proved for all runs that
respect it. Fairness and infinite runs are not needed for safety. -/
namespace TransitionSystem

structure Machine (σ ε : Type*) where
  start : σ → Prop
  enabled : σ → ε → Prop
  next : σ → ε → σ

variable {σ ε τ δ : Type*}

/-- States reached by finite runs whose every step meets `C`. -/
inductive Reachable (M : Machine σ ε) (C : σ → ε → Prop) : σ → Prop where
  | start {s} : M.start s → Reachable M C s
  | step {s e} : Reachable M C s → M.enabled s e → C s e → Reachable M C (M.next s e)

/-- The run condition that every run meets. -/
def Unrestricted : σ → ε → Prop := fun _ _ => True

instance (s : σ) (e : ε) : Decidable (Unrestricted s e) := isTrue trivial

theorem reachable_mono {M : Machine σ ε} {C D : σ → ε → Prop}
    (h : ∀ s e, C s e → D s e) {s : σ} (hr : Reachable M C s) : Reachable M D s := by
  induction hr with
  | start h₀ => exact .start h₀
  | step _ he hc ih => exact .step ih he (h _ _ hc)

/-- The induction rule for invariants. The step case may use reachability itself,
so invariants that were proved earlier can be cited in it. -/
theorem reachable_invariant {M : Machine σ ε} {C : σ → ε → Prop} {I : σ → Prop}
    (init : ∀ s, M.start s → I s)
    (step : ∀ s e, Reachable M C s → I s → M.enabled s e → C s e → I (M.next s e))
    {s : σ} (hr : Reachable M C s) : I s := by
  induction hr with
  | start h₀ => exact init _ h₀
  | step hr he hc ih => exact step _ _ hr ih he hc

def Machine.exec (M : Machine σ ε) (s : σ) : List ε → σ
  | [] => s
  | e :: es => M.exec (M.next s e) es

def Machine.Valid (M : Machine σ ε) (C : σ → ε → Prop) (s : σ) : List ε → Prop
  | [] => True
  | e :: es => (M.enabled s e ∧ C s e) ∧ M.Valid C (M.next s e) es

instance instDecidableValid {M : Machine σ ε} {C : σ → ε → Prop} [∀ s e, Decidable (M.enabled s e)]
    [∀ s e, Decidable (C s e)] : ∀ s es, Decidable (M.Valid C s es)
  | _, [] => isTrue trivial
  | s, e :: es =>
    have : Decidable (M.Valid C (M.next s e) es) := instDecidableValid _ es
    inferInstanceAs (Decidable ((M.enabled s e ∧ C s e) ∧ M.Valid C (M.next s e) es))

theorem exec_append (M : Machine σ ε) (s : σ) (es fs : List ε) :
    M.exec s (es ++ fs) = M.exec (M.exec s es) fs := by
  induction es generalizing s with
  | nil => rfl
  | cons e es ih => exact ih _

theorem valid_append {M : Machine σ ε} {C : σ → ε → Prop} {s : σ} {es fs : List ε} :
    M.Valid C s (es ++ fs) ↔ M.Valid C s es ∧ M.Valid C (M.exec s es) fs := by
  induction es generalizing s with
  | nil => simp [Machine.Valid, Machine.exec]
  | cons e es ih => simp only [List.cons_append, Machine.Valid, Machine.exec, ih, and_assoc]

theorem valid_iff_forall {M : Machine σ ε} {C : σ → ε → Prop} {p : ε → Prop}
    (h : ∀ s e, M.enabled s e ∧ C s e ↔ p e) {s : σ} {es : List ε} :
    M.Valid C s es ↔ ∀ e ∈ es, p e := by
  induction es generalizing s with
  | nil => exact iff_of_true trivial fun e he => absurd he List.not_mem_nil
  | cons e es ih => rw [Machine.Valid, h, ih, List.forall_mem_cons]

theorem exec_reachable {M : Machine σ ε} {C : σ → ε → Prop} {s : σ} {es : List ε}
    (hr : Reachable M C s) (hv : M.Valid C s es) : Reachable M C (M.exec s es) := by
  induction es generalizing s with
  | nil => exact hr
  | cons e es ih => exact ih (.step hr hv.1.1 hv.1.2) hv.2

theorem exec_invariant {M : Machine σ ε} {C : σ → ε → Prop} {I : σ → Prop}
    (step : ∀ s e, I s → M.enabled s e → C s e → I (M.next s e)) {s : σ} {es : List ε}
    (h : I s) (hv : M.Valid C s es) : I (M.exec s es) := by
  induction es generalizing s with
  | nil => exact h
  | cons e es ih => exact ih (step s e h hv.1.1 hv.1.2) hv.2

theorem reachable_iff_exec {M : Machine σ ε} {C : σ → ε → Prop} {s : σ} :
    Reachable M C s ↔ ∃ s₀ es, M.start s₀ ∧ M.Valid C s₀ es ∧ s = M.exec s₀ es := by
  constructor
  · intro hr
    induction hr with
    | start h₀ => exact ⟨_, [], h₀, trivial, rfl⟩
    | @step s e _ he hc ih =>
      obtain ⟨s₀, es, h₀, hv, rfl⟩ := ih
      refine ⟨s₀, es ++ [e], h₀, valid_append.mpr ⟨hv, ⟨he, hc⟩, trivial⟩, ?_⟩
      rw [exec_append]
      rfl
  · rintro ⟨s₀, es, h₀, hv, rfl⟩
    exact exec_reachable (.start h₀) hv

/-- The induction rule for what a state says about the events that led to it. -/
theorem exec_history {M : Machine σ ε} {C : σ → ε → Prop} {P : List ε → σ → Prop} {s₀ : σ}
    (init : P [] s₀)
    (step : ∀ es e, P es (M.exec s₀ es) → M.enabled (M.exec s₀ es) e → C (M.exec s₀ es) e →
      P (es ++ [e]) (M.next (M.exec s₀ es) e))
    {es : List ε} (hv : M.Valid C s₀ es) : P es (M.exec s₀ es) := by
  induction es using List.reverseRecOn with
  | nil => exact init
  | append_singleton es e ih =>
    obtain ⟨hes, ⟨he, hc⟩, -⟩ := valid_append.mp hv
    rw [exec_append]
    exact step es e (ih hes) he hc

/-- `P` holds in every state of the run, the first one included. -/
def Machine.Always (M : Machine σ ε) (P : σ → Prop) (s : σ) : List ε → Prop
  | [] => P s
  | e :: es => P s ∧ M.Always P (M.next s e) es

theorem always_last {M : Machine σ ε} {P : σ → Prop} {s : σ} {es : List ε}
    (h : M.Always P s es) : P (M.exec s es) := by
  induction es generalizing s with
  | nil => exact h
  | cons e es ih => exact ih h.2

/-- A run condition `C` that is exact for `P` among the runs that meet `D`: meeting it
keeps an invariant stronger than `P`, and the first step that does not meet it leaves `P`. -/
theorem always_iff_valid {M : Machine σ ε} {C D : σ → ε → Prop} {P I : σ → Prop}
    (holds : ∀ s, I s → P s)
    (keep : ∀ s e, I s → M.enabled s e → D s e → C s e → I (M.next s e))
    (leave : ∀ s e, I s → M.enabled s e → D s e → ¬C s e → ¬P (M.next s e))
    {s : σ} (h : I s) {es : List ε} (hv : M.Valid D s es) :
    M.Always P s es ↔ M.Valid C s es := by
  induction es generalizing s with
  | nil => exact iff_of_true (holds s h) trivial
  | cons e es ih =>
    obtain ⟨⟨he, hd⟩, hv⟩ := hv
    by_cases hc : C s e
    · have hrest := ih (keep s e h he hd hc) hv
      simp only [Machine.Always, Machine.Valid, holds s h, he, hc, hrest, true_and]
    · refine iff_of_false (fun ha => leave s e h he hd hc ?_) (fun hv => hc hv.1.2)
      have ha := ha.2
      cases es with
      | nil => exact ha
      | cons _ _ => exact ha.1

/-- A forward simulation along an abstraction function. One concrete step is
answered by a list of abstract events; the empty list is a stuttering step. That the
answer is valid may be shown with the help of the abstract machine's own invariants. -/
structure Simulation (M : Machine σ ε) (C : σ → ε → Prop)
    (N : Machine τ δ) (D : τ → δ → Prop) where
  abs : σ → τ
  answer : σ → ε → List δ
  start : ∀ s, M.start s → N.start (abs s)
  valid : ∀ s e, Reachable M C s → Reachable N D (abs s) → M.enabled s e → C s e →
    N.Valid D (abs s) (answer s e)
  commutes : ∀ s e, Reachable M C s → M.enabled s e → C s e →
    abs (M.next s e) = N.exec (abs s) (answer s e)

theorem Simulation.reachable {M : Machine σ ε} {C : σ → ε → Prop} {N : Machine τ δ}
    {D : τ → δ → Prop} (S : Simulation M C N D) {s : σ} (hr : Reachable M C s) :
    Reachable N D (S.abs s) := by
  induction hr with
  | start h₀ => exact .start (S.start _ h₀)
  | @step s e hr he hc ih =>
    rw [S.commutes s e hr he hc]
    exact exec_reachable ih (S.valid s e hr ih he hc)

end TransitionSystem

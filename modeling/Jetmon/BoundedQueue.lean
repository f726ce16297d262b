import Mathlib.Data.List.Perm.Basic
import Jetmon.TransitionSystem

/-! A first-in first-out queue whose jobs run in parallel and finish in any order. Order
and conservation hold in every run. That at most `cap` jobs run at a time holds in the
runs that start within the bound and keep it. The histories `submitted`, `started` and
`done` only grow. -/
namespace BoundedQueue

open TransitionSystem

variable {α : Type*}

structure State (α : Type*) where
  cap : ℕ
  submitted : List α
  started : List α
  waiting : List α
  active : List α
  done : List α

inductive Event (α : Type*) where
  | submit (jobs : List α)
  | start
  | finish (k : ℕ)
  | resize (cap : ℕ)

def Enabled (s : State α) : Event α → Prop
  | .submit _ | .resize _ => True
  | .start => s.waiting ≠ []
  | .finish k => k < s.active.length

/-- The run condition under which the bound is kept. -/
def Capped (s : State α) : Event α → Prop
  | .start => s.active.length < s.cap
  | .resize cap => cap = s.cap
  | .submit _ | .finish _ => True

def next (s : State α) : Event α → State α
  | .submit jobs => { s with submitted := s.submitted ++ jobs, waiting := s.waiting ++ jobs }
  | .start =>
    match s.waiting with
    | [] => s
    | job :: rest =>
      { s with started := s.started ++ [job], waiting := rest, active := s.active ++ [job] }
  | .finish k => { s with active := s.active.eraseIdx k, done := s.done ++ s.active[k]?.toList }
  | .resize cap => { s with cap := cap }

def empty (cap : ℕ) : State α := ⟨cap, [], [], [], [], []⟩

def machine (α : Type*) : Machine (State α) (Event α) :=
  ⟨fun s => ∃ cap, s = empty cap, Enabled, next⟩

structure Invariant (s : State α) : Prop where
  in_order : s.submitted = s.started ++ s.waiting
  conserved : s.started.Perm (s.done ++ s.active)

theorem empty_invariant (cap : ℕ) : Invariant (empty cap : State α) := ⟨rfl, List.Perm.refl _⟩

theorem perm_finish (xs : List α) {k : ℕ} (hk : k < xs.length) :
    xs.Perm (xs[k]?.toList ++ xs.eraseIdx k) := by
  rw [List.getElem?_eq_getElem hk]
  exact (List.getElem_cons_eraseIdx_perm hk).symm

theorem step_preserves_invariant {s : State α} {e : Event α} (h : Invariant s)
    (he : Enabled s e) : Invariant (next s e) := by
  obtain ⟨ho, hc⟩ := h
  cases e with
  | submit jobs => exact ⟨by simp [next, ho], hc⟩
  | start =>
    cases hs : s.waiting with
    | nil => exact absurd hs he
    | cons job rest =>
      simp only [next, hs]
      refine ⟨by simp [ho, hs], ?_⟩
      rw [← List.append_assoc]
      exact hc.append_right [job]
  | finish k =>
    refine ⟨ho, ?_⟩
    rw [next, List.append_assoc]
    exact hc.trans ((perm_finish s.active he).append_left s.done)
  | resize cap => exact ⟨ho, hc⟩

theorem reachable_queue {C : State α → Event α → Prop} {s : State α}
    (hr : Reachable (machine α) C s) : Invariant s := by
  refine reachable_invariant ?_ ?_ hr
  · rintro s ⟨cap, rfl⟩
    exact empty_invariant cap
  · intro s e _ hi he _
    exact step_preserves_invariant hi he

theorem reachable_bounded {s : State α} (hr : Reachable (machine α) Capped s) :
    s.active.length ≤ s.cap := by
  refine reachable_invariant (I := fun s => s.active.length ≤ s.cap) ?_ ?_ hr
  · rintro s ⟨cap, rfl⟩
    exact Nat.zero_le _
  · intro s e _ hb he hc
    cases e with
    | submit jobs => exact hb
    | start =>
      cases hs : s.waiting with
      | nil => exact absurd hs he
      | cons job rest => simpa [machine, next, hs, Capped, Nat.succ_le_iff] using hc
    | finish k => exact Nat.le_trans (List.length_eraseIdx_le _ _) hb
    | resize cap => exact Nat.le_trans hb (Nat.le_of_eq (Eq.symm hc))

/-- Jobs are started in the order of submission, each at most once. -/
theorem started_prefix {s : State α} (h : Invariant s) :
    s.started <+: s.submitted := ⟨s.waiting, h.in_order.symm⟩

/-- A queue with nothing waiting and nothing active has finished every job once. -/
theorem all_done {s : State α} (h : Invariant s) (hw : s.waiting = [])
    (ha : s.active = []) : s.started = s.submitted ∧ s.submitted.Perm s.done := by
  obtain ⟨ho, hc⟩ := h
  rw [hw, List.append_nil] at ho
  rw [ha, List.append_nil] at hc
  exact ⟨ho.symm, ho ▸ hc⟩

theorem exec_starts (n : ℕ) : ∀ s : State α, n ≤ s.waiting.length →
    (machine α).exec s (List.replicate n .start) =
      { s with
        started := s.started ++ s.waiting.take n
        waiting := s.waiting.drop n
        active := s.active ++ s.waiting.take n } := by
  induction n with
  | zero => intro s _; simp [Machine.exec]
  | succ n ih =>
    intro s hn
    cases hs : s.waiting with
    | nil => simp [hs] at hn
    | cons job rest =>
      have hlen : n ≤ rest.length := by simpa [hs] using hn
      rw [List.replicate_succ, Machine.exec]
      simp only [machine, next, hs] at ih ⊢
      rw [ih _ hlen]
      simp

def Event.jobs : Event α → List α
  | .submit jobs => jobs
  | .start | .finish _ | .resize _ => []

theorem exec_submitted (es : List (Event α)) : ∀ s : State α,
    ((machine α).exec s es).submitted = s.submitted ++ es.flatMap Event.jobs := by
  induction es with
  | nil => intro s; simp [Machine.exec]
  | cons e es ih =>
    intro s
    have hnext : ((machine α).next s e).submitted = s.submitted ++ e.jobs := by
      cases e with
      | submit jobs => rfl
      | start =>
        simp only [machine, next, Event.jobs, List.append_nil]
        split <;> rfl
      | finish | resize => exact (List.append_nil _).symm
    rw [Machine.exec, ih, hnext, List.flatMap_cons, List.append_assoc]

theorem valid_starts {C : State α → Event α → Prop} (n : ℕ) : ∀ s : State α,
    n ≤ s.waiting.length → (∀ j < n, C ((machine α).exec s (List.replicate j .start)) .start) →
    (machine α).Valid C s (List.replicate n .start) := by
  induction n with
  | zero => intro s _ _; trivial
  | succ n ih =>
    intro s hn hcap
    cases hs : s.waiting with
    | nil => simp [hs] at hn
    | cons job rest =>
      have hlen : n ≤ rest.length := by simpa [hs] using hn
      rw [List.replicate_succ, Machine.Valid]
      refine ⟨⟨by simp [machine, Enabled, hs], hcap 0 (Nat.succ_pos n)⟩, ih _ ?_ ?_⟩
      · simpa only [machine, next, hs] using hlen
      · intro j hj
        exact hcap (j + 1) (Nat.succ_lt_succ hj)

def Saturated (s : State α) : Prop :=
  s.active.length = min s.cap (s.active.length + s.waiting.length)

theorem saturated_submit {s : State α} (h : Saturated s) {jobs : List α} (hjobs : jobs ≠ []) :
    Saturated (next s (.submit jobs)) ↔ s.active.length = s.cap := by
  have hpos := List.length_pos_of_ne_nil hjobs
  simp only [Saturated, next, List.length_append] at h ⊢
  omega

theorem saturated_starts {s : State α} (hidle : s.active = []) {n : ℕ}
    (hn : n = min s.cap s.waiting.length) :
    Saturated ((machine α).exec s (List.replicate n .start)) := by
  rw [exec_starts n s (by omega)]
  simp only [Saturated, hidle, List.nil_append, List.length_take, List.length_drop]
  omega

theorem saturated_finish {s : State α} (h : Saturated s) {k : ℕ} (hk : k < s.active.length) :
    Saturated
      ((machine α).exec s (.finish k :: if 0 < s.waiting.length then [.start] else [])) := by
  have herase := List.length_eraseIdx_add_one hk
  cases hw : s.waiting with
  | nil =>
    simp only [Saturated, hw, List.length_nil, Nat.lt_irrefl, ↓reduceIte, Machine.exec, machine,
      next] at h ⊢
    omega
  | cons job rest =>
    simp only [Saturated, hw, List.length_cons, Nat.zero_lt_succ, ↓reduceIte, Machine.exec, machine,
      next, List.length_append, List.length_nil] at h ⊢
    omega

end BoundedQueue

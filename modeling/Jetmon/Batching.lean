import Mathlib
import Jetmon.TransitionSystem

/-! Items are collected and sent in batches. A batch is sent before an item that would bring it
to the limit, and at any other time. The history `added` only grows. -/
namespace Batching

open TransitionSystem

variable {α M : Type*}

structure State (α : Type*) where
  added : List α
  sent : List (List α)
  current : List α

inductive Event (α : Type*) where
  | add (x : α)
  | flush

def State.empty : State α := ⟨[], [], []⟩

def State.flush (s : State α) : State α :=
  if s.current.isEmpty then s else { s with sent := s.sent ++ [s.current], current := [] }

def Event.items : Event α → List α
  | .add x => [x]
  | .flush => []

def total [AddMonoid M] (size : α → M) (xs : List α) : M := (xs.map size).sum

theorem total_append [AddMonoid M] (size : α → M) (xs : List α) (x : α) :
    total size (xs ++ [x]) = total size xs + size x := by
  simp [total]

variable [AddMonoid M] [LinearOrder M] (size : α → M) (limit : M)

def State.add (x : α) (s : State α) : State α :=
  let s := if limit ≤ total size s.current + size x then s.flush else s
  { s with added := s.added ++ [x], current := s.current ++ [x] }

def next (s : State α) : Event α → State α
  | .add x => s.add size limit x
  | .flush => s.flush

def machine : Machine (State α) (Event α) :=
  ⟨fun s => s = .empty, fun _ _ => True, next size limit⟩

/-- The run condition: no item reaches the limit by itself. -/
def Fits (_ : State α) (e : Event α) : Prop := ∀ x ∈ e.items, size x < limit

structure Invariant (s : State α) : Prop where
  in_order : s.added = s.sent.flatten ++ s.current
  filled : ∀ batch ∈ s.sent, batch ≠ []
  within : ∀ batch ∈ s.sent, total size batch < limit
  open_within : s.current = [] ∨ total size s.current < limit

variable {size limit} {s : State α}

theorem empty_invariant : Invariant size limit (.empty : State α) :=
  ⟨rfl, fun _ h => absurd h List.not_mem_nil, fun _ h => absurd h List.not_mem_nil, .inl rfl⟩

theorem flush_invariant (h : Invariant size limit s) : Invariant size limit s.flush := by
  unfold State.flush
  split
  · exact h
  · rename_i hne
    have hcurrent : s.current ≠ [] := fun heq => hne (List.isEmpty_iff.mpr heq)
    refine ⟨?_, ?_, ?_, .inl rfl⟩
    · rw [h.in_order]
      simp
    · intro batch hbatch
      rcases List.mem_append.mp hbatch with hsent | hlast
      · exact h.filled batch hsent
      · rw [List.mem_singleton.mp hlast]
        exact hcurrent
    · intro batch hbatch
      rcases List.mem_append.mp hbatch with hsent | hlast
      · exact h.within batch hsent
      · rw [List.mem_singleton.mp hlast]
        exact h.open_within.resolve_left hcurrent

theorem flush_current (s : State α) : s.flush.current = [] := by
  unfold State.flush
  split
  · rename_i hempty
    exact List.isEmpty_iff.mp hempty
  · rfl

theorem append_invariant (h : Invariant size limit s) {x : α}
    (hx : total size s.current + size x < limit) :
    Invariant size limit { s with added := s.added ++ [x], current := s.current ++ [x] } where
  in_order := by rw [h.in_order, List.append_assoc]
  filled := h.filled
  within := h.within
  open_within := .inr (by rw [total_append]; exact hx)

theorem add_invariant (h : Invariant size limit s) {x : α} (hx : size x < limit) :
    Invariant size limit (s.add size limit x) := by
  unfold State.add
  split
  · refine append_invariant (flush_invariant h) ?_
    rw [flush_current]
    simpa [total] using hx
  · rename_i hroom
    exact append_invariant h (not_le.mp hroom)

theorem next_invariant (h : Invariant size limit s) {e : Event α} (he : Fits size limit s e) :
    Invariant size limit (next size limit s e) := by
  cases e with
  | add x => exact add_invariant h (he x List.mem_cons_self)
  | flush => exact flush_invariant h

theorem exec_batches {es : List (Event α)}
    (hv : (machine size limit).Valid (Fits size limit) .empty es) :
    Invariant size limit ((machine size limit).exec .empty es) :=
  exec_invariant (I := Invariant size limit) (fun _ _ h _ he => next_invariant h he)
    empty_invariant hv

theorem next_added (s : State α) (e : Event α) :
    (next size limit s e).added = s.added ++ e.items := by
  have hflush : s.flush.added = s.added := by
    unfold State.flush
    split <;> rfl
  cases e with
  | add x =>
    simp only [next, State.add, Event.items]
    split
    · rw [hflush]
    · rfl
  | flush => simp [next, Event.items, hflush]

theorem exec_added (s : State α) (es : List (Event α)) :
    ((machine size limit).exec s es).added = s.added ++ es.flatMap Event.items := by
  induction es generalizing s with
  | nil => simp [Machine.exec]
  | cons e es ih =>
    rw [Machine.exec, ih, List.flatMap_cons, ← List.append_assoc]
    exact congrArg (· ++ _) (next_added s e)

theorem valid_iff (s : State α) (es : List (Event α)) :
    (machine size limit).Valid (Fits size limit) s es ↔
      ∀ x ∈ es.flatMap Event.items, size x < limit := by
  have hstep : ∀ s e, (machine size limit).enabled s e ∧ Fits size limit s e ↔
      ∀ x ∈ e.items, size x < limit := fun _ _ => and_iff_right trivial
  refine (valid_iff_forall hstep).trans ?_
  constructor
  · intro h x hx
    obtain ⟨e, he, hxe⟩ := List.mem_flatMap.mp hx
    exact h e he x hxe
  · intro h e he x hx
    exact h x (List.mem_flatMap.mpr ⟨e, he, hx⟩)

end Batching

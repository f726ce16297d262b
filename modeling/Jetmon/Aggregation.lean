import Mathlib.Data.List.Forall2
import Mathlib.Data.List.Perm.Basic
import Mathlib.Tactic.TypeStar

/-! Summaries of collections that can be put together from the summaries of parts, in any
order. -/
namespace Aggregation

variable {α β : Type*}

structure Aggregate (α β : Type*) where
  of : List α → β
  merge : β → β → β
  append : ∀ xs ys, of (xs ++ ys) = merge (of xs) (of ys)
  perm : ∀ {xs ys : List α}, xs.Perm ys → of xs = of ys

theorem exists_perm_map {f : α → β} {bs : List β} {as : List α} (h : bs.Perm (as.map f)) :
    ∃ as' : List α, as'.Perm as ∧ bs = as'.map f := by
  have himage : List.Forall₂ (fun b a => b = f a) (as.map f) as := by
    rw [List.forall₂_map_left_iff, List.forall₂_same]
    exact fun _ _ => rfl
  obtain ⟨as', hrel, hperm⟩ := List.perm_comp_forall₂ h himage
  refine ⟨as', hperm, ?_⟩
  clear himage hperm h
  induction hrel with
  | nil => rfl
  | cons heq _ ih => rw [heq, ih, List.map_cons]

namespace Aggregate

variable (A : Aggregate α β)

theorem foldl_merge (parts : List (List α)) : ∀ xs,
    (parts.map A.of).foldl A.merge (A.of xs) = A.of (xs ++ parts.flatten) := by
  induction parts with
  | nil => simp
  | cons part rest ih =>
    intro xs
    rw [List.map_cons, List.foldl_cons, ← A.append, ih, List.flatten_cons, List.append_assoc]

theorem foldl_insert {insert : β → α → β} (h : ∀ b a, insert b a = A.merge b (A.of [a]))
    (ys : List α) : ∀ xs, ys.foldl insert (A.of xs) = A.of (xs ++ ys) := by
  induction ys with
  | nil => simp
  | cons y rest ih =>
    intro xs
    rw [List.foldl_cons, h, ← A.append, ih, List.append_assoc, List.singleton_append]

theorem foldl_merge_perm {summaries : List β} {parts : List (List α)}
    (h : summaries.Perm (parts.map A.of)) {xs : List α} (hxs : xs.Perm parts.flatten) :
    summaries.foldl A.merge (A.of []) = A.of xs := by
  obtain ⟨parts', hparts, rfl⟩ := exists_perm_map h
  rw [foldl_merge, List.nil_append]
  exact A.perm (hparts.flatten.trans hxs.symm)

end Aggregate

end Aggregation

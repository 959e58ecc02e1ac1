import Mathlib.Data.List.Induction

/-! # The last write

What a sequence of steps leaves in one place is what the last step that writes there has
written. -/

namespace Foundation

open List

variable {σ : Type u} {α : Type v} {β : Type w}

def findLast? (test : α → Bool) (list : List α) : Option α := list.reverse.find? test

variable {test other : α → Bool} {list : List α} {element : α}

theorem findLast?_append_singleton :
    findLast? test (list ++ [element]) =
      if test element then some element else findLast? test list := by
  rw [findLast?, reverse_append, reverse_singleton, singleton_append,
    find?_cons]
  split
  · rename_i passed
    rw [if_pos passed]
  · rename_i failed
    rw [if_neg (by simp [failed])]
    rfl

theorem findLast?_eq_none_iff :
    findLast? test list = none ↔ ∀ element ∈ list, ¬ test element = true := by
  simp [findLast?]

theorem test_of_findLast? (found : findLast? test list = some element) : test element = true :=
  find?_some found

theorem findLast?_and_eq_none (nothing : findLast? test list = none) :
    findLast? (fun element => test element && other element) list = none := by
  rw [findLast?_eq_none_iff] at nothing ⊢
  intro element member both
  rw [Bool.and_eq_true] at both
  exact nothing element member both.1

theorem findLast?_and (found : findLast? test list = some element) (passes : other element = true) :
    findLast? (fun element => test element && other element) list = some element := by
  rw [findLast?, find?_eq_some_iff_append] at found ⊢
  rcases found with ⟨passed, before, after, split, failed⟩
  refine ⟨by simp [passed, passes], before, after, split, fun earlier member => ?_⟩
  simp only [Bool.not_eq_eq_eq_not, Bool.not_true] at failed ⊢
  rw [failed earlier member, Bool.false_and]

theorem foldl_eq_findLast? (place : σ → β) {step : σ → α → σ} {result : α → β}
    (writes : ∀ state element, place (step state element) =
      if test element then result element else place state) (start : σ) (list : List α) :
    place (list.foldl step start) = ((findLast? test list).map result).getD (place start) := by
  induction list using List.reverseRecOn with
  | nil => rfl
  | append_singleton earlier last induction =>
    rw [foldl_append, foldl_cons, foldl_nil, writes, findLast?_append_singleton]
    split
    · rfl
    · exact induction

end Foundation

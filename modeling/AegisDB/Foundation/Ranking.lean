import Mathlib.Data.List.Sort
import Mathlib.Order.Bounds.Basic
import Mathlib.Order.Lattice

/-! # Ranks

The values of a list from the greatest to the least. The value at a rank is the
greatest bound that so many values reach. -/

namespace Foundation

open List

variable {α : Type u} [LinearOrder α]

def ranked (values : List α) : List α := (values.insertionSort (· ≤ ·)).reverse

theorem ranked_perm (values : List α) : (ranked values).Perm values :=
  (reverse_perm _).trans (perm_insertionSort _ values)

theorem ranked_descending (values : List α) : (ranked values).Pairwise (· ≥ ·) := by
  rw [ranked, pairwise_reverse]
  exact pairwise_insertionSort (· ≤ ·) values

@[simp] theorem length_ranked (values : List α) : (ranked values).length = values.length :=
  (ranked_perm values).length_eq

def reach (values : List α) (bound : α) : Nat := values.countP fun value => bound ≤ value

theorem reach_le_length (values : List α) (bound : α) : reach values bound ≤ values.length :=
  countP_le_length

theorem reach_ranked (values : List α) (bound : α) :
    reach (ranked values) bound = reach values bound :=
  (ranked_perm values).countP_eq _

variable {values : List α} {rank : Nat} {value : α}

theorem le_iff_lt_reach_of_descending (descending : values.Pairwise (· ≥ ·))
    (found : values[rank]? = some value) (bound : α) :
    bound ≤ value ↔ rank < reach values bound := by
  induction values generalizing rank with
  | nil => cases found
  | cons head rest induction =>
    rcases pairwise_cons.mp descending with ⟨headGreatest, restDescending⟩
    by_cases reached : bound ≤ head
    · have count : reach (head :: rest) bound = reach rest bound + 1 := by
        rw [reach, countP_cons_of_pos (by simpa using reached)]
        rfl
      rw [count]
      cases rank with
      | zero =>
        rcases Option.some.inj found with rfl
        exact iff_of_true reached (Nat.succ_pos _)
      | succ rank =>
        rw [Nat.add_lt_add_iff_right]
        exact induction restDescending found
    · -- nothing behind a head below the bound reaches it
      have none : reach (head :: rest) bound = 0 := by
        rw [reach, countP_eq_zero]
        intro other member
        rcases mem_cons.mp member with rfl | inRest
        · simpa using reached
        · simpa using lt_of_le_of_lt (headGreatest other inRest) (not_le.mp reached)
      rw [none]
      refine iff_of_false ?_ (Nat.not_lt_zero rank)
      have member : value ∈ head :: rest := mem_of_getElem? found
      rcases mem_cons.mp member with rfl | inRest
      · exact reached
      · exact fun reaches => reached (reaches.trans (headGreatest value inRest))

theorem ranked_eq_some_iff :
    (ranked values)[rank]? = some value ↔ IsGreatest {bound | rank < reach values bound} value := by
  have spec {found : α} (isFound : (ranked values)[rank]? = some found) :
      IsGreatest {bound | rank < reach values bound} found := by
    have reached (bound : α) : bound ≤ found ↔ rank < reach values bound := by
      rw [← reach_ranked]
      exact le_iff_lt_reach_of_descending (ranked_descending values) isFound bound
    exact ⟨(reached found).mp le_rfl, fun bound => (reached bound).mpr⟩
  constructor
  · exact spec
  · intro greatest
    have inside : rank < (ranked values).length := by
      rw [length_ranked]
      exact lt_of_lt_of_le greatest.1 (reach_le_length values value)
    have isFound := getElem?_eq_getElem inside
    rw [isFound, (spec isFound).unique greatest]

end Foundation

import Mathlib.Data.List.Sort

/-! # Sorting by a comparison

A sort by a comparison function is stable. What comes out is settled only if the comparison
is consistent on what is sorted: reflexive, with opposite results in opposite directions, and
transitive. -/

namespace Foundation

open List

universe u v

variable {α : Type u}

structure ConsistentOn (comparison : α → α → Ordering) (list : List α) : Prop where
  refl : ∀ element ∈ list, comparison element element = .eq
  opposite : ∀ left ∈ list, ∀ right ∈ list, comparison right left = (comparison left right).swap
  trans : ∀ left ∈ list, ∀ middle ∈ list, ∀ right ∈ list, comparison left middle ≠ .gt →
    comparison middle right ≠ .gt → comparison left right ≠ .gt

namespace ConsistentOn

variable {comparison : α → α → Ordering} {list : List α}

theorem total (consistent : ConsistentOn comparison list) {left right : α}
    (leftMember : left ∈ list) (rightMember : right ∈ list) :
    comparison left right ≠ .gt ∨ comparison right left ≠ .gt := by
  rw [consistent.opposite left leftMember right rightMember]
  cases comparison left right <;> simp

theorem eq_trans (consistent : ConsistentOn comparison list) {left middle right : α}
    (leftMember : left ∈ list) (middleMember : middle ∈ list) (rightMember : right ∈ list)
    (first : comparison left middle = .eq) (second : comparison middle right = .eq) :
    comparison left right = .eq := by
  have forth := consistent.trans left leftMember middle middleMember right rightMember
    (by simp [first]) (by simp [second])
  have back := consistent.trans right rightMember middle middleMember left leftMember
    (by simp [consistent.opposite middle middleMember right rightMember, second])
    (by simp [consistent.opposite left leftMember middle middleMember, first])
  rw [consistent.opposite left leftMember right rightMember] at back
  cases result : comparison left right with
  | lt => simp [result] at back
  | eq => rfl
  | gt => exact absurd result forth

theorem of_key {κ : Type v} [LinearOrder κ] (key : α → κ)
    (byKey : ∀ left ∈ list, ∀ right ∈ list,
      comparison left right = compare (key right) (key left)) :
    ConsistentOn comparison list where
  refl element member := by
    rw [byKey element member element member]
    exact compare_eq_iff_eq.mpr rfl
  opposite left leftMember right rightMember := by
    rw [byKey left leftMember right rightMember, byKey right rightMember left leftMember]
    exact Std.OrientedCmp.eq_swap
  trans left leftMember middle middleMember right rightMember := by
    rw [byKey left leftMember middle middleMember, byKey middle middleMember right rightMember,
      byKey left leftMember right rightMember, compare_le_iff_le, compare_le_iff_le,
      compare_le_iff_le]
    exact fun first second => second.trans first

theorem of_forall_eq (equal : ∀ left ∈ list, ∀ right ∈ list, comparison left right = .eq) :
    ConsistentOn comparison list where
  refl element member := equal element member element member
  opposite left leftMember right rightMember := by
    rw [equal left leftMember right rightMember, equal right rightMember left leftMember]
    rfl
  trans left leftMember _ _ right rightMember _ _ := by
    rw [equal left leftMember right rightMember]
    decide

end ConsistentOn

/-! ## Stable sorting -/

def stableSort (comparison : α → α → Ordering) (list : List α) : List α :=
  list.insertionSort fun left right => comparison left right ≠ .gt

variable {comparison : α → α → Ordering} {list : List α} {element : α}

theorem stableSort_perm (comparison : α → α → Ordering) (list : List α) :
    (stableSort comparison list).Perm list :=
  perm_insertionSort _ list

theorem mem_stableSort : element ∈ stableSort comparison list ↔ element ∈ list :=
  (stableSort_perm comparison list).mem_iff

theorem stableSort_eq_self (equal : ∀ left ∈ list, ∀ right ∈ list, comparison left right = .eq) :
    stableSort comparison list = list := by
  apply List.Pairwise.insertionSort_eq
  apply pairwise_of_forall_mem_list
  intro left leftMember right rightMember
  rw [equal left leftMember right rightMember]
  decide

theorem ConsistentOn.pairwise_stableSort (consistent : ConsistentOn comparison list) :
    (stableSort comparison list).Pairwise fun left right => comparison left right ≠ .gt := by
  let below (left right : {element // element ∈ list}) : Prop := comparison left right ≠ .gt
  have total : Std.Total below := ⟨fun left right => consistent.total left.2 right.2⟩
  have trans : IsTrans _ below :=
    ⟨fun left middle right =>
      consistent.trans left left.2 middle middle.2 right right.2⟩
  have sorted := pairwise_insertionSort below list.attach
  have values : (list.attach.insertionSort below).map Subtype.val = stableSort comparison list := by
    have mapped := map_insertionSort below (fun left right => comparison left right ≠ .gt)
      Subtype.val list.attach (fun _ _ _ _ => Iff.rfl)
    rw [attach_map_subtype_val] at mapped
    exact mapped
  rw [← values]
  exact pairwise_map.mpr sorted

theorem ConsistentOn.comparison_head_ne_gt (consistent : ConsistentOn comparison list) {first : α}
    (isFirst : (stableSort comparison list).head? = some first) (member : element ∈ list) :
    comparison first element ≠ .gt := by
  have sorted := consistent.pairwise_stableSort
  have inSorted : element ∈ stableSort comparison list := mem_stableSort.mpr member
  cases split : stableSort comparison list with
  | nil =>
    rw [split] at isFirst
    cases isFirst
  | cons head rest =>
    rw [split] at isFirst sorted inSorted
    rcases Option.some.inj isFirst with rfl
    rcases mem_cons.mp inSorted with rfl | inRest
    · have same := consistent.refl element member
      simp [same]
    · exact rel_of_pairwise_cons sorted inRest

structure SortBy (α : Type u) where
  sort : (α → α → Ordering) → List α → List α
  perm : ∀ comparison list, (sort comparison list).Perm list
  stable : ∀ comparison list, ConsistentOn comparison list →
    sort comparison list = stableSort comparison list

def SortBy.standard : SortBy α where
  sort := stableSort
  perm := stableSort_perm
  stable _ _ _ := rfl

/-! ## The least element -/

def firstLeast (comparison : α → α → Ordering) : List α → Option α
  | [] => none
  | first :: rest =>
    some (rest.foldl (fun least other => if comparison least other = .gt then other else least)
      first)

theorem mem_of_firstLeast (least : firstLeast comparison list = some element) : element ∈ list := by
  have kept : ∀ (rest : List α) (first : α),
      rest.foldl (fun least other => if comparison least other = .gt then other else least) first ∈
        first :: rest := by
    intro rest
    induction rest with
    | nil => exact fun first => mem_cons_self
    | cons other rest induction =>
      intro first
      rw [foldl_cons]
      have later := induction (if comparison first other = .gt then other else first)
      split at later <;> grind
  cases list with
  | nil => cases least
  | cons first rest =>
    rw [← Option.some.inj least]
    exact kept rest first

end Foundation

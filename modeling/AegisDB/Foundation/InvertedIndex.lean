import AegisDB.Foundation.OrderedMap
import Mathlib.Data.Finset.Basic

/-! # Inverted indexes

Items belong to groups that can be read off their values. An inverted index keeps the items
of each group beside the map of the values, and must be changed along with it. -/

namespace Foundation

open OrderedMap

universe u v w

abbrev InvertedIndex (γ : Type u) (ι : Type v) [LinearOrder γ] := OrderedMap γ (Finset ι)

namespace InvertedIndex

variable {γ : Type u} {ι : Type v} {ν : Type w} [LinearOrder γ] [LinearOrder ι]
  {index : InvertedIndex γ ι} {group : γ} {item other : ι} {groups : List γ}

def items (index : InvertedIndex γ ι) (group : γ) : Finset ι := (index.get? group).getD ∅

def drop (index : InvertedIndex γ ι) (item : ι) (groups : List γ) : InvertedIndex γ ι :=
  groups.foldl (fun index group =>
    match index.get? group with
    | some members => index.insert group (members.erase item)
    | none => index) index

def add (index : InvertedIndex γ ι) (item : ι) (groups : List γ) : InvertedIndex γ ι :=
  groups.foldl (fun index group => index.insert group (insert item (index.items group))) index

theorem get?_drop :
    (index.drop item groups).get? group =
      (index.get? group).map fun members =>
        if group ∈ groups then members.erase item else members := by
  induction groups generalizing index with
  | nil => simp [drop]
  | cons first rest induction =>
    rw [drop, List.foldl_cons]
    refine induction.trans ?_
    by_cases same : group = first
    · subst same
      cases found : index.get? group with
      | none => simp [found]
      | some members =>
        by_cases inRest : group ∈ rest <;> simp [inRest]
    · cases found : index.get? first with
      | none => simp [same]
      | some members => simp [get?_insert_other _ _ same, same]

theorem get?_add :
    (index.add item groups).get? group =
      if group ∈ groups then some (insert item (index.items group)) else index.get? group := by
  induction groups generalizing index with
  | nil => simp [add]
  | cons first rest induction =>
    rw [add, List.foldl_cons]
    refine induction.trans ?_
    by_cases same : group = first
    · subst same
      by_cases inRest : group ∈ rest <;> simp [inRest, items]
    · simp [items, get?_insert_other _ _ same, same]

theorem mem_items_drop :
    other ∈ (index.drop item groups).items group ↔
      other ∈ index.items group ∧ ¬ (other = item ∧ group ∈ groups) := by
  rw [items, get?_drop, items]
  cases index.get? group with
  | none => simp
  | some members =>
    by_cases inGroups : group ∈ groups
    · simp [inGroups, and_comm]
    · simp [inGroups]

theorem mem_items_add :
    other ∈ (index.add item groups).items group ↔
      other ∈ index.items group ∨ (other = item ∧ group ∈ groups) := by
  rw [items, get?_add]
  by_cases inGroups : group ∈ groups
  · simp [inGroups, or_comm]
  · simp [inGroups, items]

theorem add_drop_of_mem (present : ∀ group ∈ groups, item ∈ index.items group) :
    (index.drop item groups).add item groups = index := by
  apply ext
  intro group
  rw [get?_add, items, get?_drop]
  by_cases inGroups : group ∈ groups
  · have member := present group inGroups
    rw [items] at member
    cases found : index.get? group with
    | none => simp [found] at member
    | some members =>
      simp only [found, Option.getD_some] at member
      simp [inGroups, Finset.insert_erase member]
  · simp [inGroups]

def groupsOf? (groupsOf : ν → List γ) (value : Option ν) : List γ := (value.map groupsOf).getD []

def ExactAt (index : InvertedIndex γ ι) (values : OrderedMap ι ν) (groupsOf : ν → List γ)
    (item : ι) : Prop :=
  ∀ group, item ∈ index.items group ↔ group ∈ groupsOf? groupsOf (values.get? item)

section Exact

variable {values : OrderedMap ι ν} {groupsOf : ν → List γ}

theorem ExactAt.empty : ExactAt (.empty : InvertedIndex γ ι) .empty groupsOf item := by
  intro group
  simp [items, groupsOf?]

theorem ExactAt.put (value : ν) (exact : ExactAt index values groupsOf other) :
    ExactAt ((index.drop item (groupsOf? groupsOf (values.get? item))).add item (groupsOf value))
      (values.insert item value) groupsOf other := by
  intro group
  rw [mem_items_add, mem_items_drop, exact group, get?_insert]
  by_cases same : other = item
  · simp [same, groupsOf?]
  · simp [same]

end Exact

end InvertedIndex

end Foundation

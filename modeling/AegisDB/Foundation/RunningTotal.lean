import Mathlib.Tactic.Common

/-! # Running totals

Scans of a list that add up the sizes of its elements: up to the first element with which the
total exceeds a limit, and for the element with which it exceeds one. -/

namespace Foundation

open List

variable {α : Type u} (size : α → Nat)

def totalSize : List α → Nat
  | [] => 0
  | element :: rest => size element + totalSize rest

def upToExcess (limit : Nat) : (soFar : Nat) → List α → List α
  | _, [] => []
  | soFar, element :: rest =>
    if limit < soFar + size element then [element]
    else element :: upToExcess limit (soFar + size element) rest

def firstBeyond (limit : Nat) : (soFar : Nat) → List α → Option α
  | _, [] => none
  | soFar, element :: rest =>
    if limit < soFar + size element then some element
    else firstBeyond limit (soFar + size element) rest

variable {size} {limit threshold soFar : Nat} {list : List α} {element : α}

@[simp] theorem totalSize_nil : totalSize size [] = 0 := rfl

@[simp] theorem totalSize_cons (element : α) (rest : List α) :
    totalSize size (element :: rest) = size element + totalSize size rest := rfl

theorem totalSize_congr {other : α → Nat} (same : ∀ element ∈ list, size element = other element) :
    totalSize size list = totalSize other list := by
  induction list with
  | nil => rfl
  | cons first rest induction =>
    rw [totalSize_cons, totalSize_cons, same first mem_cons_self,
      induction fun element member => same element (mem_cons_of_mem first member)]

theorem totalSize_perm {other : List α} (order : list.Perm other) :
    totalSize size list = totalSize size other := by
  induction order with
  | nil => rfl
  | cons first _ induction => rw [totalSize_cons, totalSize_cons, induction]
  | swap first second rest =>
    rw [totalSize_cons, totalSize_cons, totalSize_cons, totalSize_cons]
    omega
  | trans _ _ first second => exact first.trans second

theorem size_le_totalSize (member : element ∈ list) : size element ≤ totalSize size list := by
  induction list with
  | nil => cases member
  | cons first rest induction =>
    rw [totalSize_cons]
    rcases mem_cons.mp member with rfl | inRest
    · exact Nat.le_add_right _ _
    · exact Nat.le_trans (induction inRest) (Nat.le_add_left _ _)

theorem totalSize_map {β : Type v} {size : β → Nat} (change : α → β) :
    totalSize size (list.map change) = totalSize (fun element => size (change element)) list := by
  induction list with
  | nil => rfl
  | cons first rest induction => rw [map_cons, totalSize_cons, totalSize_cons, induction]

theorem totalSize_one : totalSize (fun _ => 1) list = list.length := by
  induction list with
  | nil => rfl
  | cons first rest induction => rw [totalSize_cons, induction, length_cons, Nat.add_comm]

/-! ## Parts of a list -/

section Parts

variable {part whole : α → Bool}

theorem totalSize_filter :
    totalSize size (list.filter part) =
      totalSize (fun element => if part element then size element else 0) list := by
  induction list with
  | nil => rfl
  | cons first rest induction =>
    rw [filter_cons, totalSize_cons]
    split
    · rw [totalSize_cons, induction]
    · rw [induction, Nat.zero_add]

theorem totalSize_filter_le (inside : ∀ element, part element = true → whole element = true) :
    totalSize size (list.filter part) ≤ totalSize size (list.filter whole) := by
  induction list with
  | nil => exact Nat.le_refl _
  | cons first rest induction =>
    rw [filter_cons, filter_cons]
    by_cases inPart : part first = true
    · rw [if_pos inPart, if_pos (inside first inPart), totalSize_cons, totalSize_cons]
      omega
    · rw [if_neg inPart]
      split
      · rw [totalSize_cons]
        omega
      · exact induction

theorem size_eq_zero_of_filter (inside : ∀ element, part element = true → whole element = true)
    (same : totalSize size (list.filter part) = totalSize size (list.filter whole))
    (member : element ∈ list) (inWhole : whole element = true)
    (notInPart : ¬ part element = true) : size element = 0 := by
  induction list with
  | nil => cases member
  | cons first rest induction =>
    have restLe : totalSize size (rest.filter part) ≤ totalSize size (rest.filter whole) :=
      totalSize_filter_le inside
    rw [filter_cons, filter_cons] at same
    by_cases inPart : part first = true
    · rw [if_pos inPart, if_pos (inside first inPart), totalSize_cons, totalSize_cons] at same
      rcases mem_cons.mp member with isFirst | inRest
      · rw [isFirst] at notInPart
        exact absurd inPart notInPart
      · exact induction (by omega) inRest
    · rw [if_neg inPart] at same
      by_cases firstInWhole : whole first = true
      · rw [if_pos firstInWhole, totalSize_cons] at same
        rcases mem_cons.mp member with isFirst | inRest
        · rw [isFirst]
          omega
        · exact induction (by omega) inRest
      · rw [if_neg firstInWhole] at same
        rcases mem_cons.mp member with isFirst | inRest
        · rw [isFirst] at inWhole
          exact absurd inWhole firstInWhole
        · exact induction same inRest

end Parts

/-! ## The elements that are counted -/

theorem upToExcess_eq_self (within : soFar + totalSize size list ≤ limit) :
    upToExcess size limit soFar list = list := by
  induction list generalizing soFar with
  | nil => rfl
  | cons element rest induction =>
    rw [totalSize_cons] at within
    rw [upToExcess, if_neg (by omega), induction (by omega)]

theorem lt_totalSize_upToExcess (beyond : limit < soFar + totalSize size list) :
    limit < soFar + totalSize size (upToExcess size limit soFar list) := by
  induction list generalizing soFar with
  | nil => exact beyond
  | cons element rest induction =>
    rw [totalSize_cons] at beyond
    rw [upToExcess]
    split_ifs with here
    · rw [totalSize_cons, totalSize_nil]
      exact here
    · have restBeyond : limit < soFar + size element + totalSize size rest := by omega
      have later := induction restBeyond
      rw [totalSize_cons]
      omega

/-! ## The element at which a limit is exceeded -/

theorem firstBeyond_eq_none_iff (started : soFar ≤ limit) :
    firstBeyond size limit soFar list = none ↔ soFar + totalSize size list ≤ limit := by
  induction list generalizing soFar with
  | nil => simpa [firstBeyond] using started
  | cons element rest induction =>
    rw [firstBeyond, totalSize_cons, ← Nat.add_assoc]
    split_ifs with here
    · have beyond : ¬ soFar + size element + totalSize size rest ≤ limit := by omega
      simp [beyond]
    · exact induction (Nat.not_lt.mp here)

theorem mem_of_firstBeyond (found : firstBeyond size limit soFar list = some element) :
    element ∈ list := by
  induction list generalizing soFar with
  | nil => cases found
  | cons first rest induction =>
    rw [firstBeyond] at found
    split at found
    · rw [← Option.some.inj found]
      exact mem_cons_self
    · exact mem_cons_of_mem first (induction found)

theorem firstBeyond_upToExcess (ordered : threshold ≤ limit) :
    firstBeyond size threshold soFar (upToExcess size limit soFar list) =
      firstBeyond size threshold soFar list := by
  induction list generalizing soFar with
  | nil => rfl
  | cons element rest induction =>
    rw [upToExcess]
    by_cases stops : limit < soFar + size element
    · have exceeds : threshold < soFar + size element := by omega
      rw [if_pos stops, firstBeyond, if_pos exceeds, firstBeyond, if_pos exceeds]
    · rw [if_neg stops, firstBeyond, firstBeyond, induction]

end Foundation

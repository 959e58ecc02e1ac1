import Mathlib.Data.List.Basic
import Mathlib.Order.Lattice

/-! # Scanning elements in groups

One pass over elements that come sorted by a key. The first element of a key that decides
about the key is the only one that counts; the pass remembers the key it has decided last and
skips the rest of its elements. -/

namespace Foundation

open List

inductive Judgement (β : Type w) where
  | pass
  | hide
  | reveal (value : β)

/-! ## Elements sorted by key -/

section Order

variable {α : Type u} {κ : Type v} [LinearOrder κ] {keyOf : α → Option κ} {current : Option κ}
  {element : α} {elements : List α}

def Grouped (keyOf : α → Option κ) (elements : List α) : Prop :=
  elements.Pairwise fun left right => ∀ key ∈ keyOf left, ∀ later ∈ keyOf right, key ≤ later

def Beyond (keyOf : α → Option κ) (current : Option κ) (elements : List α) : Prop :=
  ∀ key ∈ current, ∀ element ∈ elements, ∀ later ∈ keyOf element, key ≤ later

theorem Beyond.tail (beyond : Beyond keyOf current (element :: elements)) :
    Beyond keyOf current elements :=
  fun key isCurrent other member => beyond key isCurrent other (mem_cons_of_mem _ member)

theorem Grouped.beyond (grouped : Grouped keyOf (element :: elements)) {key : κ}
    (ofKey : keyOf element = some key) : Beyond keyOf (some key) elements := by
  intro decided isKey other member
  cases isKey
  exact (pairwise_cons.mp grouped).1 other member _ ofKey

end Order

section Scan

variable {α : Type u} {κ : Type v} {β : Type w} [DecidableEq κ] (keyOf : α → Option κ)
  (judge : κ → α → Judgement β)

def settleGroup (key : κ) : List α → Option β
  | [] => none
  | element :: rest =>
    if keyOf element = some key then
      match judge key element with
      | .pass => settleGroup key rest
      | .hide => none
      | .reveal value => some value
    else
      settleGroup key rest

def scanGroups (current : Option κ) : List α → List (κ × β)
  | [] => []
  | element :: rest =>
    match keyOf element with
    | none => scanGroups current rest
    | some key =>
      if current = some key then
        scanGroups current rest
      else
        match judge key element with
        | .pass => scanGroups current rest
        | .hide => scanGroups (some key) rest
        | .reveal value => (key, value) :: scanGroups (some key) rest

variable {keyOf judge}

/-! ## One key -/

theorem settleGroup_of_absent {key : κ} {elements : List α}
    (absent : ∀ element ∈ elements, keyOf element ≠ some key) :
    settleGroup keyOf judge key elements = none := by
  induction elements with
  | nil => rfl
  | cons element rest induction =>
    rw [settleGroup, if_neg (absent element mem_cons_self)]
    exact induction fun other member => absent other (mem_cons_of_mem _ member)

theorem settleGroup_filter {key : κ} {elements : List α} {keep : α → Bool}
    (silent : ∀ element ∈ elements, keep element = false → keyOf element = some key →
      judge key element = .pass) :
    settleGroup keyOf judge key (elements.filter keep) = settleGroup keyOf judge key elements := by
  induction elements with
  | nil => rfl
  | cons element rest induction =>
    have restSame := induction fun other member => silent other (mem_cons_of_mem _ member)
    cases kept : keep element with
    | true =>
      rw [filter_cons_of_pos kept, settleGroup, settleGroup, restSame]
    | false =>
      rw [filter_cons_of_neg (by simp [kept]), restSame, settleGroup]
      by_cases ofKey : keyOf element = some key
      · rw [if_pos ofKey, silent element mem_cons_self kept ofKey]
      · rw [if_neg ofKey]

/-! ## The whole pass -/

section Rounds

variable {current : Option κ} {element : α} {rest : List α} {key : κ}

theorem scanGroups_of_none (noKey : keyOf element = none) :
    scanGroups keyOf judge current (element :: rest) = scanGroups keyOf judge current rest := by
  rw [scanGroups, noKey]

variable (ofKey : keyOf element = some key)

include ofKey

theorem scanGroups_of_current :
    scanGroups keyOf judge (some key) (element :: rest) =
      scanGroups keyOf judge (some key) rest := by
  simp [scanGroups, ofKey]

theorem scanGroups_of_pass (notCurrent : current ≠ some key) (judged : judge key element = .pass) :
    scanGroups keyOf judge current (element :: rest) = scanGroups keyOf judge current rest := by
  simp [scanGroups, ofKey, notCurrent, judged]

theorem scanGroups_of_hide (notCurrent : current ≠ some key) (judged : judge key element = .hide) :
    scanGroups keyOf judge current (element :: rest) =
      scanGroups keyOf judge (some key) rest := by
  simp [scanGroups, ofKey, notCurrent, judged]

theorem scanGroups_of_reveal {value : β}
    (notCurrent : current ≠ some key) (judged : judge key element = .reveal value) :
    scanGroups keyOf judge current (element :: rest) =
      (key, value) :: scanGroups keyOf judge (some key) rest := by
  simp [scanGroups, ofKey, notCurrent, judged]

end Rounds

variable [LinearOrder κ] {current : Option κ} {elements : List α}

theorem settleGroup_of_passed {key larger : κ} (beyond : Beyond keyOf (some larger) elements)
    (isLarger : key < larger) : settleGroup keyOf judge key elements = none := by
  apply settleGroup_of_absent
  intro other member ofKey
  exact absurd (beyond larger rfl other member key ofKey) (not_le.mpr isLarger)

theorem mem_scanGroups_iff (grouped : Grouped keyOf elements)
    (beyond : Beyond keyOf current elements) {key : κ} {value : β} :
    (key, value) ∈ scanGroups keyOf judge current elements ↔
      current ≠ some key ∧ settleGroup keyOf judge key elements = some value := by
  induction elements generalizing current with
  | nil => simp [scanGroups, settleGroup]
  | cons element rest induction =>
    have restGrouped : Grouped keyOf rest := (pairwise_cons.mp grouped).2
    have goesOn := induction restGrouped beyond.tail
    rw [scanGroups, settleGroup]
    cases ofKey : keyOf element with
    | none => simpa using goesOn
    | some decided =>
      -- what is shown after this key has been decided
      have after : (key, value) ∈ scanGroups keyOf judge (some decided) rest ↔
          decided ≠ key ∧ settleGroup keyOf judge key rest = some value := by
        simpa using induction restGrouped (grouped.beyond ofKey)
      have notBack (different : decided ≠ key) (isCurrent : current = some key) :
          settleGroup keyOf judge key rest = none := by
        apply settleGroup_of_passed (grouped.beyond ofKey)
        exact lt_of_le_of_ne
          (beyond key isCurrent element mem_cons_self decided ofKey) different.symm
      by_cases same : decided = key
      · subst same
        by_cases isCurrent : current = some decided
        · simpa [isCurrent] using goesOn
        · cases judged : judge decided element with
          | pass => simpa [isCurrent, judged] using goesOn
          | hide => simpa [isCurrent, judged] using after
          | reveal shown => simp [isCurrent, judged, after, eq_comm]
      · by_cases isCurrent : current = some decided
        · simpa [isCurrent, same] using goesOn
        · have skips : current ≠ some key ∧
              settleGroup keyOf judge key rest = some value ↔
              settleGroup keyOf judge key rest = some value := by
            constructor
            · intro both
              exact both.2
            · intro settled
              refine ⟨fun isKey => ?_, settled⟩
              rw [notBack same isKey] at settled
              cases settled
          cases judged : judge decided element with
          | pass => simpa [isCurrent, same, judged] using goesOn
          | hide => simpa [isCurrent, same, judged, skips] using after
          | reveal shown =>
            simpa [isCurrent, same, judged, skips, Ne.symm same] using after

theorem scanGroups_ascending (grouped : Grouped keyOf elements)
    (beyond : Beyond keyOf current elements) :
    (scanGroups keyOf judge current elements).Pairwise fun left right => left.1 < right.1 := by
  induction elements generalizing current with
  | nil => exact List.Pairwise.nil
  | cons element rest induction =>
    have restGrouped : Grouped keyOf rest := (pairwise_cons.mp grouped).2
    rw [scanGroups]
    cases ofKey : keyOf element with
    | none => exact induction restGrouped beyond.tail
    | some decided =>
      have restBeyond := grouped.beyond ofKey
      dsimp only
      split
      · exact induction restGrouped beyond.tail
      · cases judge decided element with
        | pass => exact induction restGrouped beyond.tail
        | hide => exact induction restGrouped restBeyond
        | reveal shown =>
          refine pairwise_cons.mpr ⟨?_, induction restGrouped restBeyond⟩
          intro pair member
          rcases (mem_scanGroups_iff restGrouped restBeyond).mp member with
            ⟨different, settled⟩
          by_contra notLarger
          have smaller : pair.1 < decided :=
            lt_of_le_of_ne (not_lt.mp notLarger) fun same => different (by rw [same])
          rw [settleGroup_of_passed restBeyond smaller] at settled
          cases settled

end Scan

end Foundation

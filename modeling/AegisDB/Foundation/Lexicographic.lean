import Mathlib.Data.List.Lex
import Mathlib.Order.Lattice

/-! # Lexicographic order of lists

General facts about comparing lists element by element: how the comparison
splits over concatenation, what padding to a common length does to it, and that
the extensions of one list form an interval of the order. -/

namespace Foundation

open List

/-! ## Concatenation -/

section Concatenation

variable [LinearOrder α] {left right : List α}

theorem append_lt_append_iff (sameLength : left.length = right.length)
    (leftRest rightRest : List α) :
    left ++ leftRest < right ++ rightRest ↔
      left < right ∨ left = right ∧ leftRest < rightRest := by
  induction left generalizing right with
  | nil =>
    have rightNil : right = [] := length_eq_zero_iff.mp sameLength.symm
    subst rightNil
    simp
  | cons head tail induction =>
    cases right with
    | nil => simp at sameLength
    | cons other rest =>
      have tailLength : tail.length = rest.length := by simpa using sameLength
      simp only [cons_append, cons_lt_cons_iff, List.cons.injEq,
        induction tailLength]
      tauto

theorem lt_append_iff_of_length_lt (shorter : left.length < right.length)
    (rest : List α) : left < right ++ rest ↔ left < right := by
  induction left generalizing right with
  | nil =>
    cases right with
    | nil => simp at shorter
    | cons other rest => simp
  | cons head tail induction =>
    cases right with
    | nil => simp at shorter
    | cons other others =>
      have tailShorter : tail.length < others.length := by simpa using shorter
      simp only [cons_append, cons_lt_cons_iff, induction tailShorter]

theorem append_lt_iff_of_length_lt (shorter : left.length < right.length)
    (rest : List α) : right ++ rest < left ↔ right < left := by
  induction left generalizing right with
  | nil => simp
  | cons head tail induction =>
    cases right with
    | nil => simp at shorter
    | cons other others =>
      have tailShorter : tail.length < others.length := by simpa using shorter
      simp only [cons_append, cons_lt_cons_iff, induction tailShorter]

end Concatenation

/-! ## Extensions of one list -/

section Extensions

variable [LinearOrder α]

theorem le_of_isPrefix {stem whole : List α} (isPrefix : stem <+: whole) :
    stem ≤ whole := by
  rcases isPrefix with ⟨rest, rfl⟩
  cases rest with
  | nil => simp
  | cons head tail =>
    apply le_of_lt
    have longer : stem ++ [] < stem ++ head :: tail :=
      append_left_lt (nil_lt_cons head tail)
    simpa using longer

theorem lt_of_le_of_not_isPrefix {stem extended other : List α} (isPrefix : stem <+: extended)
    (atLeast : stem ≤ other) (notPrefix : ¬ stem <+: other) : extended < other := by
  induction stem generalizing extended other with
  | nil => exact absurd nil_prefix notPrefix
  | cons head tail induction =>
    rcases isPrefix with ⟨rest, rfl⟩
    cases other with
    | nil => exact absurd atLeast (by simp)
    | cons otherHead otherTail =>
      rcases atLeast.eq_or_lt with equal | less
      · exact absurd (equal ▸ prefix_rfl) notPrefix
      · rcases cons_lt_cons_iff.mp less with headLess | ⟨equal, tailLess⟩
        · exact cons_lt_cons_iff.mpr (.inl headLess)
        · subst otherHead
          apply cons_lt_cons_iff.mpr
          refine .inr ⟨rfl, induction ⟨rest, rfl⟩ tailLess.le ?_⟩
          intro tailPrefix
          exact notPrefix (cons_prefix_cons.mpr ⟨rfl, tailPrefix⟩)

theorem isPrefix_of_between {stem low middle high : List α}
    (lowPrefix : stem <+: low) (highPrefix : stem <+: high)
    (lowLe : low ≤ middle) (leHigh : middle ≤ high) : stem <+: middle := by
  by_contra notPrefix
  have above : high < middle :=
    lt_of_le_of_not_isPrefix highPrefix ((le_of_isPrefix lowPrefix).trans lowLe) notPrefix
  exact absurd leHigh (not_le.mpr above)

end Extensions

theorem stems_of_marked {left right leftRest rightRest : List α} {mark : α}
    (same : left ++ mark :: leftRest = right ++ mark :: rightRest) :
    left = right ∨ left ++ [mark] <+: right ∨ right ++ [mark] <+: left := by
  rcases append_eq_append_iff.mp same with ⟨middle, split, rest⟩ | ⟨middle, split, rest⟩
  · cases middle with
    | nil => exact .inl (by simpa using split.symm)
    | cons head tail =>
      rw [(List.cons.inj rest).1]
      exact .inr (.inl ⟨tail, by simp [split]⟩)
  · cases middle with
    | nil => exact .inl (by simpa using split)
    | cons head tail =>
      rw [(List.cons.inj rest).1]
      exact .inr (.inr ⟨tail, by simp [split]⟩)

/-! ## Padding -/

def padded (filler : α) (width : Nat) (list : List α) : List α :=
  list ++ List.replicate (width - list.length) filler

theorem padded_length {filler : α} {width : Nat} {list : List α}
    (fits : list.length ≤ width) : (padded filler width list).length = width := by
  simp [padded]
  omega

@[simp] theorem padded_of_length_eq {filler : α} {list : List α} :
    padded filler list.length list = list := by
  simp [padded]

theorem padded_cons {filler head : α} {width : Nat} {tail : List α} :
    padded filler (width + 1) (head :: tail) = head :: padded filler width tail := by
  simp [padded]

theorem lt_iff_padded_lt [LinearOrder α] {filler : α} (least : ∀ element, filler ≤ element)
    {width : Nat} {left right : List α}
    (leftFits : left.length ≤ width) (rightFits : right.length ≤ width) :
    left < right ↔ padded filler width left < padded filler width right ∨
      padded filler width left = padded filler width right ∧
        left.length < right.length := by
  induction width generalizing left right with
  | zero =>
    have leftNil : left = [] := length_eq_zero_iff.mp (by omega)
    have rightNil : right = [] := length_eq_zero_iff.mp (by omega)
    subst leftNil rightNil
    simp
  | succ width induction =>
    cases left with
    | nil =>
      cases right with
      | nil => simp
      | cons head tail =>
        have tailFits : tail.length ≤ width := by simpa using rightFits
        have whole : padded filler (width + 1) ([] : List α) =
            filler :: padded filler width [] := by
          simp [padded, replicate_succ]
        have inner := @induction [] tail (by simp) tailFits
        simp only [nil_lt_cons, true_iff, whole, padded_cons,
          cons_lt_cons_iff, List.cons.injEq, length_nil, length_cons,
          Nat.zero_lt_succ, and_true]
        rcases (least head).eq_or_lt with equal | less
        · subst head
          cases tail with
          | nil => simp
          | cons next rest =>
            have tailLess := inner.mp (nil_lt_cons next rest)
            tauto
        · exact .inl (.inl less)
    | cons head tail =>
      have tailFits : tail.length ≤ width := by simpa using leftFits
      cases right with
      | nil =>
        have whole : padded filler (width + 1) ([] : List α) =
            filler :: padded filler width [] := by
          simp [padded, replicate_succ]
        have inner := @induction tail [] tailFits (by simp)
        simp only [not_lt_nil, false_iff, whole, padded_cons,
          cons_lt_cons_iff, List.cons.injEq, length_nil,
          Nat.not_lt_zero, and_false, or_false] at inner ⊢
        rintro (less | ⟨equal, tailLess⟩)
        · exact absurd (least head) (not_le.mpr less)
        · exact inner tailLess
      | cons other rest =>
        have restFits : rest.length ≤ width := by simpa using rightFits
        simp only [padded_cons, cons_lt_cons_iff, List.cons.injEq,
          length_cons, Nat.add_lt_add_iff_right,
          induction tailFits restFits]
        tauto

end Foundation

import Mathlib.Data.List.Induction
import Mathlib.Data.List.Sort
import Mathlib.Order.Lattice
import Mathlib.Tactic.Common

/-! # Ranges of keys

Half-open ranges of a linear order, with or without an upper end. Disjoint ranges are
told apart by where they start: of several of them, only the last one that starts at or
before a key can contain it. -/

namespace Foundation

open List

structure KeyRange (κ : Type u) where
  start : κ
  stop : Option κ

namespace KeyRange

variable {κ : Type u} [LinearOrder κ] {range earlier later : KeyRange κ} {key other cut : κ}

def Contains (range : KeyRange κ) (key : κ) : Prop :=
  range.start ≤ key ∧ ∀ stop ∈ range.stop, key < stop

def NonEmpty (range : KeyRange κ) : Prop := ∀ stop ∈ range.stop, range.start < stop

def Separate (left right : KeyRange κ) : Prop :=
  ∀ key, left.Contains key → ¬ right.Contains key

instance (range : KeyRange κ) (key : κ) : Decidable (range.Contains key) :=
  inferInstanceAs (Decidable (_ ∧ _))

instance (range : KeyRange κ) : Decidable range.NonEmpty :=
  inferInstanceAs (Decidable (∀ stop ∈ range.stop, range.start < stop))

theorem contains_start_iff : range.Contains range.start ↔ range.NonEmpty := by
  simp [Contains, NonEmpty]

theorem NonEmpty.of_contains (contains : range.Contains key) : range.NonEmpty :=
  fun stop member => contains.1.trans_lt (contains.2 stop member)

theorem Contains.of_between (contains : range.Contains key) (low : range.start ≤ other)
    (high : other ≤ key) : range.Contains other :=
  ⟨low, fun stop member => high.trans_lt (contains.2 stop member)⟩

theorem Separate.symm (separate : earlier.Separate later) : later.Separate earlier :=
  fun key inLater inEarlier => separate key inEarlier inLater

theorem Separate.not_contains (separate : earlier.Separate later) (nonEmpty : later.NonEmpty)
    (ordered : earlier.start ≤ later.start) (started : later.start ≤ key) :
    ¬ earlier.Contains key := by
  intro contains
  exact separate later.start (contains.of_between ordered started)
    (contains_start_iff.mpr nonEmpty)

theorem exists_contains_iff (leftNonEmpty : earlier.NonEmpty) (rightNonEmpty : later.NonEmpty) :
    (∃ key, earlier.Contains key ∧ later.Contains key) ↔
      later.Contains earlier.start ∨ earlier.Contains later.start := by
  constructor
  · intro ⟨key, inEarlier, inLater⟩
    rcases le_total later.start earlier.start with below | above
    · exact .inl (inLater.of_between below inEarlier.1)
    · exact .inr (inEarlier.of_between above inLater.1)
  · intro either
    rcases either with inLater | inEarlier
    · exact ⟨earlier.start, contains_start_iff.mpr leftNonEmpty, inLater⟩
    · exact ⟨later.start, inEarlier, contains_start_iff.mpr rightNonEmpty⟩

/-! ## Cutting a range in two -/

def before (range : KeyRange κ) (cut : κ) : KeyRange κ := { range with stop := some cut }

def onward (range : KeyRange κ) (cut : κ) : KeyRange κ := { range with start := cut }

theorem contains_before_iff (inside : range.Contains cut) :
    (range.before cut).Contains key ↔ range.Contains key ∧ key < cut := by
  constructor
  · intro contains
    have below : key < cut := contains.2 cut rfl
    exact ⟨inside.of_between contains.1 below.le, below⟩
  · intro parts
    rcases parts with ⟨contains, below⟩
    refine ⟨contains.1, fun stop member => ?_⟩
    cases member
    exact below

theorem contains_onward_iff (inside : range.Contains cut) :
    (range.onward cut).Contains key ↔ range.Contains key ∧ cut ≤ key := by
  constructor
  · intro contains
    exact ⟨⟨inside.1.trans contains.1, contains.2⟩, contains.1⟩
  · intro parts
    exact ⟨parts.2, parts.1.2⟩

theorem Separate.of_part (separate : earlier.Separate later)
    (part : ∀ {key}, range.Contains key → earlier.Contains key) : range.Separate later :=
  fun key contains => separate key (part contains)

end KeyRange

/-! ## Looking a key up by the starts of the ranges -/

section Lookup

variable {κ : Type u} {ι : Type v} [LinearOrder κ] {entries : List (κ × ι)} {entry : κ × ι}
  {key : κ}

def SortedByStart (entries : List (κ × ι)) : Prop :=
  entries.Pairwise fun left right => left.1 ≤ right.1

def sortByStart (entries : List (κ × ι)) : List (κ × ι) :=
  entries.insertionSort fun left right => left.1 ≤ right.1

theorem sortedByStart_sortByStart (entries : List (κ × ι)) :
    SortedByStart (sortByStart entries) := by
  have : Std.Total fun left right : κ × ι => left.1 ≤ right.1 :=
    ⟨fun left right => le_total left.1 right.1⟩
  have : IsTrans (κ × ι) fun left right => left.1 ≤ right.1 :=
    ⟨fun _ _ _ first second => le_trans first second⟩
  exact pairwise_insertionSort _ entries

theorem sortByStart_perm (entries : List (κ × ι)) : (sortByStart entries).Perm entries :=
  perm_insertionSort _ entries

def lastStarting (entries : List (κ × ι)) (key : κ) : Option (κ × ι) :=
  entries.reverse.find? fun entry => entry.1 ≤ key

theorem mem_of_lastStarting (found : lastStarting entries key = some entry) :
    entry ∈ entries ∧ entry.1 ≤ key := by
  constructor
  · exact mem_reverse.mp (mem_of_find?_eq_some found)
  · simpa using find?_some found

theorem exists_lastStarting (sorted : SortedByStart entries) (member : entry ∈ entries)
    (started : entry.1 ≤ key) :
    ∃ last, lastStarting entries key = some last ∧ entry.1 ≤ last.1 := by
  induction entries using List.reverseRecOn with
  | nil => cases member
  | append_singleton rest final induction =>
    rw [SortedByStart, pairwise_append] at sorted
    rcases sorted with ⟨restSorted, _, below⟩
    rw [lastStarting, reverse_append]
    by_cases finalStarted : final.1 ≤ key
    · refine ⟨final, by simp [finalStarted], ?_⟩
      rcases mem_append.mp member with inRest | isFinal
      · exact below entry inRest final mem_cons_self
      · rw [mem_singleton.mp isFinal]
    · have inRest : entry ∈ rest := by
        rcases mem_append.mp member with inRest | isFinal
        · exact inRest
        · rw [mem_singleton.mp isFinal] at started
          exact absurd started finalStarted
      rcases induction restSorted inRest with ⟨last, found, later⟩
      refine ⟨last, ?_, later⟩
      simpa [finalStarted, lastStarting] using found

end Lookup

end Foundation

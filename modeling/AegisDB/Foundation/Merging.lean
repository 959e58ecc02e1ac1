import AegisDB.Foundation.OrderedMap
import Mathlib.Data.List.Induction
import Mathlib.Data.Prod.Lex

/-! # Merging ascending lists

The merge of several lists takes, again and again, the smallest of their first entries;
among equal keys, the one of the first list. Each entry is kept with the number of the
list it comes from. -/

namespace Foundation

open List

variable {κ : Type u} {ν : Type v} [LinearOrder κ]

/-! ## The least of some candidates -/

def keepSmaller (best : Option ((κ × ν) × Nat)) (next : Option (κ × ν) × Nat) :
    Option ((κ × ν) × Nat) :=
  match next.1, best with
  | none, _ => best
  | some entry, none => some (entry, next.2)
  | some entry, some chosen => if entry.1 < chosen.1.1 then some (entry, next.2) else some chosen

def least (candidates : List (Option (κ × ν))) : Option ((κ × ν) × Nat) :=
  candidates.zipIdx.foldl keepSmaller none

def rank (sourced : (κ × ν) × Nat) : κ ×ₗ Nat := toLex (sourced.1.1, sourced.2)

theorem rank_lt_iff {left right : (κ × ν) × Nat} :
    rank left < rank right ↔
      left.1.1 < right.1.1 ∨ left.1.1 = right.1.1 ∧ left.2 < right.2 :=
  Prod.Lex.toLex_lt_toLex

theorem rank_le_iff {left right : (κ × ν) × Nat} :
    rank left ≤ rank right ↔
      left.1.1 < right.1.1 ∨ left.1.1 = right.1.1 ∧ left.2 ≤ right.2 :=
  Prod.Lex.toLex_le_toLex

def Chooses (numbered : List (Option (κ × ν) × Nat)) : Option ((κ × ν) × Nat) → Prop
  | none => ∀ entry position, (some entry, position) ∉ numbered
  | some chosen =>
    (some chosen.1, chosen.2) ∈ numbered ∧
      ∀ entry position, (some entry, position) ∈ numbered → rank chosen ≤ rank (entry, position)

theorem Chooses.keepSmaller {earlier : List (Option (κ × ν) × Nat)}
    {best : Option ((κ × ν) × Nat)} {next : Option (κ × ν) × Nat} (chooses : Chooses earlier best)
    (later : ∀ candidate ∈ earlier, candidate.2 < next.2) :
    Chooses (earlier ++ [next]) (keepSmaller best next) := by
  rcases next with ⟨_ | entry, position⟩
  · cases best with
    | none => simpa [Chooses, Foundation.keepSmaller] using chooses
    | some chosen => simpa [Chooses, Foundation.keepSmaller] using chooses
  · cases best with
    | none =>
      refine ⟨by simp, ?_⟩
      intro other place member
      rcases mem_append.mp member with inEarlier | isNext
      · exact absurd inEarlier (chooses other place)
      · simp only [mem_singleton, Prod.mk.injEq, Option.some.injEq] at isNext
        rw [isNext.1, isNext.2]
    | some chosen =>
      rcases chooses with ⟨member, lowest⟩
      by_cases smaller : entry.1 < chosen.1.1
      · simp only [Foundation.keepSmaller, if_pos smaller]
        refine ⟨by simp, ?_⟩
        intro other place otherMember
        rcases mem_append.mp otherMember with inEarlier | isNext
        · have below : rank (entry, position) < rank chosen := rank_lt_iff.mpr (.inl smaller)
          exact below.le.trans (lowest other place inEarlier)
        · simp only [mem_singleton, Prod.mk.injEq, Option.some.injEq] at isNext
          rw [isNext.1, isNext.2]
      · simp only [Foundation.keepSmaller, if_neg smaller]
        refine ⟨mem_append_left _ member, ?_⟩
        intro other place otherMember
        rcases mem_append.mp otherMember with inEarlier | isNext
        · exact lowest other place inEarlier
        · simp only [mem_singleton, Prod.mk.injEq, Option.some.injEq] at isNext
          rcases isNext with ⟨rfl, rfl⟩
          apply rank_le_iff.mpr
          rcases (not_lt.mp smaller).lt_or_eq with below | same
          · exact .inl below
          · exact .inr ⟨same, (later _ member).le⟩

theorem chooses_least (candidates : List (Option (κ × ν))) :
    Chooses candidates.zipIdx (least candidates) := by
  induction candidates using List.reverseRecOn with
  | nil => exact fun _ _ => nofun
  | append_singleton earlier last induction =>
    rw [least, zipIdx_append, foldl_append]
    apply induction.keepSmaller
    intro candidate member
    simpa using snd_lt_of_mem_zipIdx member

/-! ## Merging -/

inductive Merges : List (List (κ × ν)) → List ((κ × ν) × Nat) → Prop
  | done {lists : List (List (κ × ν))} (nothing : least (lists.map List.head?) = none) :
      Merges lists []
  | next {lists : List (List (κ × ν))} {chosen : (κ × ν) × Nat} {rest : List ((κ × ν) × Nat)}
      (choice : least (lists.map List.head?) = some chosen)
      (later : Merges (lists.modify chosen.2 List.tail) rest) : Merges lists (chosen :: rest)

section Choice

variable {lists : List (List (κ × ν))}

omit [LinearOrder κ] in
theorem mem_heads_iff {entry : κ × ν} {position : Nat} :
    (some entry, position) ∈ (lists.map List.head?).zipIdx ↔
      ∃ rest, lists[position]? = some (entry :: rest) := by
  rw [mem_zipIdx_iff_getElem?, getElem?_map, Option.map_eq_some_iff]
  constructor
  · intro ⟨list, present, isHead⟩
    rcases head?_eq_some_iff.mp isHead with ⟨rest, rfl⟩
    exact ⟨rest, present⟩
  · intro ⟨rest, present⟩
    exact ⟨entry :: rest, present, rfl⟩

theorem least_heads_eq_none (nothing : least (lists.map List.head?) = none) {list : List (κ × ν)}
    {position : Nat} (present : lists[position]? = some list) : list = [] := by
  have chooses := chooses_least (lists.map List.head?)
  rw [nothing] at chooses
  cases list with
  | nil => rfl
  | cons entry rest => exact absurd (mem_heads_iff.mpr ⟨rest, present⟩) (chooses entry position)

theorem least_heads_eq_some {chosen : (κ × ν) × Nat}
    (choice : least (lists.map List.head?) = some chosen) :
    (∃ rest, lists[chosen.2]? = some (chosen.1 :: rest)) ∧
      ∀ entry position rest, lists[position]? = some (entry :: rest) →
        rank chosen ≤ rank (entry, position) := by
  have chooses := chooses_least (lists.map List.head?)
  rw [choice] at chooses
  exact ⟨mem_heads_iff.mp chooses.1, fun entry position rest present =>
    chooses.2 entry position (mem_heads_iff.mpr ⟨rest, present⟩)⟩

omit [LinearOrder κ] in
theorem getElem?_modify_tail {chosen position : Nat} {list : List (κ × ν)} :
    (lists.modify chosen List.tail)[position]? = some list ↔
      ∃ original, lists[position]? = some original ∧
        list = if chosen = position then original.tail else original := by
  rw [getElem?_modify]
  cases lists[position]? <;> simp [eq_comm]

omit [LinearOrder κ] in
theorem length_flatten_modify_tail {chosen : Nat} {head : κ × ν} {tail : List (κ × ν)}
    (present : lists[chosen]? = some (head :: tail)) :
    (lists.modify chosen List.tail).flatten.length + 1 = lists.flatten.length := by
  induction lists generalizing chosen with
  | nil => cases present
  | cons list rest induction =>
    cases chosen with
    | zero =>
      rw [Option.some.inj present]
      simp
    | succ chosen =>
      have shorter := @induction chosen present
      simp only [modify_succ_cons, flatten_cons, length_append]
      omega

end Choice

namespace Merges

variable {lists : List (List (κ × ν))} {merged : List ((κ × ν) × Nat)}

theorem exists_merged (lists : List (List (κ × ν))) : ∃ merged, Merges lists merged := by
  cases choice : least (lists.map List.head?) with
  | none => exact ⟨[], .done choice⟩
  | some chosen =>
    rcases (least_heads_eq_some choice).1 with ⟨tail, present⟩
    have shorter := length_flatten_modify_tail present
    rcases exists_merged (lists.modify chosen.2 List.tail) with ⟨rest, later⟩
    exact ⟨chosen :: rest, .next choice later⟩
termination_by lists.flatten.length
decreasing_by omega

theorem mem_iff (merges : Merges lists merged) {entry : κ × ν} {position : Nat} :
    (entry, position) ∈ merged ↔ ∃ list, lists[position]? = some list ∧ entry ∈ list := by
  induction merges with
  | done nothing =>
    constructor
    · nofun
    · intro ⟨list, present, member⟩
      rw [least_heads_eq_none nothing present] at member
      cases member
  | @next lists chosen rest choice later induction =>
    rcases (least_heads_eq_some choice).1 with ⟨tail, chosenList⟩
    rw [mem_cons, induction]
    simp only [getElem?_modify_tail]
    by_cases same : chosen.2 = position
    · subst same
      simp [chosenList, Prod.ext_iff]
    · have different : (entry, position) ≠ chosen := fun equal => same (equal ▸ rfl)
      simp [same, different]

theorem ascending (merges : Merges lists merged) (each : ∀ list ∈ lists, Ascending list) :
    merged.Pairwise fun left right => rank left < rank right := by
  induction merges with
  | done nothing => exact .nil
  | @next lists chosen rest choice later induction =>
    rcases least_heads_eq_some choice with ⟨⟨tail, chosenList⟩, lowest⟩
    refine .cons ?_ (induction ?_)
    · intro ⟨entry, position⟩ member
      rcases later.mem_iff.mp member with ⟨list, present, inList⟩
      rcases getElem?_modify_tail.mp present with ⟨original, originalPresent, rfl⟩
      have originalAscending := each _ (mem_of_getElem? originalPresent)
      split at inList
      · -- A later entry of the list the choice was taken from.
        rename_i same
        rw [← same, chosenList] at originalPresent
        rw [← Option.some.inj originalPresent] at inList originalAscending
        exact rank_lt_iff.mpr (.inl (rel_of_pairwise_cons originalAscending inList))
      · rename_i different
        cases original with
        | nil => cases inList
        | cons head others =>
          have below : rank chosen < rank (head, position) :=
            (lowest head position others originalPresent).lt_of_ne fun equal =>
              different (congrArg (fun place => (ofLex place).2) equal)
          rcases mem_cons.mp inList with rfl | inOthers
          · exact below
          · have above : rank (head, position) < rank (entry, position) :=
              rank_lt_iff.mpr (.inl (rel_of_pairwise_cons originalAscending inOthers))
            exact below.trans above
    · intro list member
      rcases mem_iff_getElem?.mp member with ⟨position, present⟩
      rcases getElem?_modify_tail.mp present with ⟨original, originalPresent, rfl⟩
      have originalAscending := each _ (mem_of_getElem? originalPresent)
      split
      · exact originalAscending.tail
      · exact originalAscending

end Merges

end Foundation

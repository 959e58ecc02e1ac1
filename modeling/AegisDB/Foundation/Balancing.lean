import AegisDB.Foundation.RunningTotal
import Mathlib.Data.List.Chain
import Mathlib.Data.List.Nodup
import Mathlib.Tactic.Linarith

/-! # Balancing

Loads are spread over places. Moving a part of a load to a place that stays lighter lowers the
sum of the squares, and what every step lowers puts an end to the steps. -/

namespace Foundation

open List

universe u

structure LoadMove {κ : Type u} (before after : κ → Nat) (source target : κ) (amount : Nat) :
    Prop where
  given : after source + amount = before source
  taken : after target = before target + amount
  others : ∀ place, place ≠ source → place ≠ target → after place = before place

namespace LoadMove

variable {κ : Type u} {before after : κ → Nat} {source target : κ} {amount : Nat}

variable (move : LoadMove before after source target amount)

include move

theorem squares_lt (positive : 0 < amount) (lighter : before target + amount < before source) :
    after source ^ 2 + after target ^ 2 < before source ^ 2 + before target ^ 2 := by
  have given := move.given
  have taken := move.taken
  have less : before target < after source := by omega
  have product := Nat.mul_lt_mul_of_pos_right less positive
  rw [taken, ← given]
  nlinarith

variable [DecidableEq κ] {places : List κ}

theorem totalSquares_lt
    (nodup : places.Nodup) (sourceMember : source ∈ places) (targetMember : target ∈ places)
    (positive : 0 < amount) (lighter : before target + amount < before source) :
    totalSize (fun place => after place ^ 2) places <
      totalSize (fun place => before place ^ 2) places := by
  have different : target ≠ source := by
    intro same
    rw [same] at lighter
    omega
  have targetLeft := (mem_erase_of_ne different).mpr targetMember
  have order :=
    (perm_cons_erase sourceMember).trans ((perm_cons_erase targetLeft).cons source)
  have untouched : totalSize (fun place => after place ^ 2) ((places.erase source).erase target) =
      totalSize (fun place => before place ^ 2) ((places.erase source).erase target) := by
    apply totalSize_congr
    intro place member
    have inRest := (nodup.erase source).mem_erase_iff.mp member
    have inPlaces := nodup.mem_erase_iff.mp inRest.2
    rw [move.others place inPlaces.1 inRest.1]
  rw [totalSize_perm order, totalSize_perm order]
  simp only [totalSize_cons]
  have squares := move.squares_lt positive lighter
  omega

theorem lt_of_lighter (lighter : before target + amount < before source) {bound : Nat} {place : κ}
    (sourceBelow : before source < bound) (below : before place < bound) :
    after place < bound := by
  by_cases isSource : place = source
  · have given := move.given
    rw [isSource]
    omega
  · by_cases isTarget : place = target
    · rw [isTarget, move.taken]
      omega
    · rw [move.others place isSource isTarget]
      exact below

end LoadMove

theorem related_of_chain {σ : Type u} {step : σ → σ → Prop} (invariant : σ → Prop)
    (relation : σ → σ → Prop)
    (trans : ∀ {first second third}, relation first second → relation second third →
      relation first third)
    (relates : ∀ {before after}, invariant before → step before after →
      invariant after ∧ relation before after)
    {start later : σ} {rest : List σ} (holds : invariant start)
    (chain : List.IsChain step (start :: rest)) (member : later ∈ rest) :
    relation start later := by
  induction rest generalizing start with
  | nil => cases member
  | cons next rest induction =>
    rcases isChain_cons_cons.mp chain with ⟨first, further⟩
    rcases relates holds first with ⟨kept, related⟩
    rcases mem_cons.mp member with rfl | inRest
    · exact related
    · exact trans related (induction kept further inRest)

theorem length_le_of_descent {σ : Type u} {step : σ → σ → Prop} (invariant : σ → Prop)
    (measure : σ → Nat) (descends : ∀ {before after}, invariant before → step before after →
      invariant after ∧ measure after < measure before)
    {start : σ} {rest : List σ} (holds : invariant start)
    (chain : List.IsChain step (start :: rest)) : rest.length ≤ measure start := by
  induction rest generalizing start with
  | nil => exact Nat.zero_le _
  | cons next rest induction =>
    rcases isChain_cons_cons.mp chain with ⟨first, later⟩
    rcases descends holds first with ⟨kept, lower⟩
    have bounded := induction kept later
    rw [length_cons]
    omega

end Foundation

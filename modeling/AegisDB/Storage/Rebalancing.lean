import AegisDB.Storage.Tiered

/-! # Rebalancing step by step

The background task of `bin/aegisdb.rs` runs `rebalance_once` while clients read and
write. Here a round takes one step per iterator it creates, per key it looks at and per
database operation, so that the steps of others can come in between. -/

namespace AegisDB.Storage

open Foundation

/-! ## The mover -/

def Tier.following : Tier → Option Tier
  | .hot => some .warm
  | .warm => some .cold
  | .cold => none

/-- `opening` is about to create the iterator of a tier. From then on the round walks the
entries the tier had at that moment, whatever is written to it meanwhile. -/
inductive Mover where
  | opening (tier : Tier) (moved : Nat)
  | scanning (tier : Tier) (remaining : List (Bytes × Bytes)) (moved : Nat)
  | putting (source target : Tier) (key value : Bytes) (remaining : List (Bytes × Bytes))
      (moved : Nat)
  | deleting (source : Tier) (key : Bytes) (remaining : List (Bytes × Bytes)) (moved : Nat)
  | finished
deriving DecidableEq, Repr

structure Rebalancing where
  storage : TieredStorage
  mover : Mover

namespace Rebalancing

def start (storage : TieredStorage) : Rebalancing :=
  { storage, mover := .opening .hot 0 }

def putInto (storage : TieredStorage) (tier : Tier) (key value : Bytes) : TieredStorage :=
  { storage with tiers := storage.tiers.put tier key value }

def deleteFrom (storage : TieredStorage) (tier : Tier) (key : Bytes) : TieredStorage :=
  { storage with tiers := storage.tiers.delete tier key }

def step (state : Rebalancing) : Rebalancing :=
  match state.mover with
  | .opening tier moved =>
    { state with mover := .scanning tier (state.storage.tiers tier).entries moved }
  | .scanning tier remaining moved =>
    if moved < TieredStorage.maxMovePerRound then
      match remaining with
      | (key, value) :: rest =>
        let target := state.storage.decideTarget tier (state.storage.count key)
        if target ≠ tier then { state with mover := .putting tier target key value rest moved }
        else { state with mover := .scanning tier rest moved }
      | [] =>
        match tier.following with
        | some next => { state with mover := .opening next moved }
        | none => { storage := state.storage.clearAccess, mover := .finished }
    else { storage := state.storage.clearAccess, mover := .finished }
  | .putting source target key value remaining moved =>
    { storage := putInto state.storage target key value
      mover := .deleting source key remaining moved }
  | .deleting source key remaining moved =>
    { storage := deleteFrom state.storage source key
      mover := .scanning source remaining (moved + 1) }
  | .finished => state

/-! ### A round by itself -/

abbrev Leads : Rebalancing → Rebalancing → Prop :=
  Relation.ReflTransGen fun current next => current.step = next

section Alone

open TieredStorage

variable {tier : Tier} {round : Round} {remaining : List (Bytes × Bytes)}

theorem visit_of_full (full : ¬ round.moved < maxMovePerRound) (entry : Bytes × Bytes) :
    round.visit tier entry = round := by
  rw [Round.visit, if_neg full]

theorem scan_of_full (full : ¬ round.moved < maxMovePerRound) : round.scan tier = round :=
  List.foldl_fixed' (visit_of_full full) _

theorem leads_visit (below : round.moved < maxMovePerRound) (entry : Bytes × Bytes) :
    Leads { storage := round.storage, mover := .scanning tier (entry :: remaining) round.moved }
      { storage := (round.visit tier entry).storage
        mover := .scanning tier remaining (round.visit tier entry).moved } := by
  by_cases moves : round.storage.decideTarget tier (round.storage.count entry.1) ≠ tier
  · have taken : step { storage := round.storage
                        mover := .scanning tier (entry :: remaining) round.moved } =
        { storage := round.storage
          mover := .putting tier (round.storage.decideTarget tier (round.storage.count entry.1))
            entry.1 entry.2 remaining round.moved } := by
      simp only [step, if_pos below, if_pos moves]
    rw [Round.visit, if_pos below]
    dsimp only
    rw [if_pos moves]
    exact .head taken (.head rfl (.single rfl))
  · have passed : step { storage := round.storage
                         mover := .scanning tier (entry :: remaining) round.moved } =
        { storage := round.storage, mover := .scanning tier remaining round.moved } := by
      simp only [step, if_pos below, if_neg moves]
    rw [Round.visit, if_pos below]
    dsimp only
    rw [if_neg moves]
    exact .single passed

theorem leads_visits :
    ∃ left, Leads { storage := round.storage, mover := .scanning tier remaining round.moved }
        { storage := (remaining.foldl (Round.visit tier) round).storage
          mover := .scanning tier left (remaining.foldl (Round.visit tier) round).moved } ∧
      ((remaining.foldl (Round.visit tier) round).moved < maxMovePerRound → left = []) := by
  induction remaining generalizing round with
  | nil => exact ⟨[], .refl, fun _ => rfl⟩
  | cons entry rest induction =>
    by_cases below : round.moved < maxMovePerRound
    · rcases @induction (round.visit tier entry) with ⟨left, leads, ended⟩
      exact ⟨left, (leads_visit below entry).trans leads, ended⟩
    · rw [List.foldl_fixed' (visit_of_full below)]
      exact ⟨entry :: rest, .refl, fun contradictory => absurd contradictory below⟩

theorem leads_scan {last : Rebalancing}
    (full : ¬ (round.scan tier).moved < maxMovePerRound →
      { storage := (round.scan tier).storage.clearAccess, mover := .finished } = last)
    (next : (round.scan tier).moved < maxMovePerRound →
      match tier.following with
      | some next =>
        Leads { storage := (round.scan tier).storage
                mover := .opening next (round.scan tier).moved } last
      | none => { storage := (round.scan tier).storage.clearAccess, mover := .finished } = last) :
    Leads { storage := round.storage, mover := .opening tier round.moved } last := by
  rcases @leads_visits tier round (round.storage.tiers tier).entries with ⟨left, leads, ended⟩
  change (round.scan tier).moved < maxMovePerRound → left = [] at ended
  refine .head rfl (leads.trans ?_)
  change Leads { storage := (round.scan tier).storage
                 mover := .scanning tier left (round.scan tier).moved } last
  by_cases below : (round.scan tier).moved < maxMovePerRound
  · have continues := next below
    rw [ended below]
    cases following : tier.following with
    | some other =>
      rw [following] at continues
      refine .head ?_ continues
      simp only [step, if_pos below, following]
    | none =>
      rw [following] at continues
      refine .single ?_
      simp only [step, if_pos below, following, continues]
  · refine .single ?_
    simp only [step, if_neg below, full below]

/-- The steps of a round by itself end where `rebalance_once` ends. -/
theorem leads_rebalanceOnce (storage : TieredStorage) :
    Leads (start storage) { storage := storage.rebalanceOnce, mover := .finished } := by
  let hot := Round.scan { storage, moved := 0 } .hot
  let warm := hot.scan .warm
  let cold := warm.scan .cold
  change Leads { storage := ({ storage, moved := 0 } : Round).storage
                 mover := .opening .hot ({ storage, moved := 0 } : Round).moved }
    { storage := cold.storage.clearAccess, mover := .finished }
  refine leads_scan (fun full => ?_) fun _ => leads_scan (fun full => ?_) fun _ =>
    leads_scan (fun _ => rfl) fun _ => rfl
  · have sameWarm : hot.scan .warm = hot := scan_of_full full
    have same : cold = hot := by
      change (hot.scan .warm).scan .cold = hot
      rw [sameWarm, scan_of_full full]
    rw [same]
  · have same : cold = warm := scan_of_full full
    rw [same]

end Alone

end Rebalancing

end AegisDB.Storage

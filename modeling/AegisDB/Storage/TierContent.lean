import AegisDB.Storage.Tiered

/-! # What rebalancing keeps

A round of `rebalance_once` that nothing comes between is a sequence of moves of single
copies. While every key is in one tier at most, a move changes neither that nor what the
tiers hold together. -/

namespace AegisDB.Storage

open Foundation Function Tiers

namespace Tiers

def HeldOnce (tiers : Tiers) : Prop :=
  ∀ key first second value other, tiers.copies key first = some value →
    tiers.copies key second = some other → first = second

def Holds (tiers : Tiers) (key value : Bytes) : Prop :=
  ∃ tier, tiers.copies key tier = some value

inductive Moves : Nat → Tiers → Tiers → Prop
  | none {tiers} : Moves 0 tiers tiers
  | more {count first middle source target key value} :
      Moves count first middle → target ≠ source → middle.copies key source = some value →
      Moves (count + 1) first (middle.move source target key value)

theorem Moves.trans {first middle last : Tiers} {count more : Nat}
    (before : Moves count first middle) (after : Moves more middle last) :
    Moves (count + more) first last := by
  induction after with
  | none => exact before
  | more _ different present induction => exact (induction before).more different present

/-! ## One move -/

section Move

variable {tiers : Tiers} {source target tier : Tier} {key value found : Bytes}

theorem copies_move_eq_some_iff (heldOnce : tiers.HeldOnce) (different : target ≠ source)
    (present : tiers.copies key source = some value) :
    (tiers.move source target key value).copies key tier = some found ↔
      tier = target ∧ found = value := by
  rw [copies_move_same]
  by_cases isSource : tier = source
  · subst isSource
    rw [update_self]
    exact iff_of_false (by simp) fun both => different both.1.symm
  · rw [update_of_ne isSource]
    by_cases isTarget : tier = target
    · subst isTarget
      rw [update_self, Option.some.injEq, and_iff_right rfl]
      exact eq_comm
    · rw [update_of_ne isTarget]
      refine iff_of_false (fun elsewhere => ?_) fun both => isTarget both.1
      exact isSource (heldOnce key tier source found value elsewhere present)

theorem HeldOnce.move (heldOnce : tiers.HeldOnce) (different : target ≠ source)
    (present : tiers.copies key source = some value) :
    (tiers.move source target key value).HeldOnce := by
  intro any first second one other inFirst inSecond
  by_cases same : any = key
  · subst same
    rw [copies_move_eq_some_iff heldOnce different present] at inFirst inSecond
    rw [inFirst.1, inSecond.1]
  · rw [copies_move_other same] at inFirst inSecond
    exact heldOnce any first second one other inFirst inSecond

theorem HeldOnce.holds_move (heldOnce : tiers.HeldOnce) (different : target ≠ source)
    (present : tiers.copies key source = some value) {any : Bytes} :
    (tiers.move source target key value).Holds any found ↔ tiers.Holds any found := by
  by_cases same : any = key
  · subst same
    constructor
    · intro ⟨tier, moved⟩
      rw [copies_move_eq_some_iff heldOnce different present] at moved
      exact ⟨source, moved.2 ▸ present⟩
    · intro ⟨tier, held⟩
      have isSource := heldOnce any tier source found value held present
      subst isSource
      rw [present] at held
      exact ⟨target, (copies_move_eq_some_iff heldOnce different present).mpr
        ⟨rfl, (Option.some.inj held).symm⟩⟩
  · rw [Holds, copies_move_other same]
    rfl

end Move

theorem heldOnce_empty : empty.HeldOnce := by
  intro key first second value other inFirst
  cases inFirst

theorem HeldOnce.put {tiers : Tiers} {key : Bytes} (heldOnce : tiers.HeldOnce)
    (absent : ∀ tier, tiers.copies key tier = none) (tier : Tier) (value : Bytes) :
    (tiers.put tier key value).HeldOnce := by
  intro any first second one other inFirst inSecond
  by_cases same : any = key
  · subst same
    have isTier : ∀ place found, (tiers.put tier any value).copies any place = some found →
        place = tier := by
      intro place found present
      by_contra different
      rw [copies_put_same, update_of_ne different, absent] at present
      cases present
    rw [isTier first one inFirst, isTier second other inSecond]
  · rw [copies_put_other same] at inFirst inSecond
    exact heldOnce any first second one other inFirst inSecond

/-! ## A run of moves -/

theorem Moves.heldOnce {count : Nat} {before after : Tiers} (moves : Moves count before after)
    (heldOnce : before.HeldOnce) : after.HeldOnce := by
  induction moves with
  | none => exact heldOnce
  | more _ different present induction => exact (induction heldOnce).move different present

theorem Moves.holds {count : Nat} {before after : Tiers} (moves : Moves count before after)
    (heldOnce : before.HeldOnce) {key value : Bytes} :
    after.Holds key value ↔ before.Holds key value := by
  induction moves with
  | none => rfl
  | more earlier different present induction =>
    rw [(earlier.heldOnce heldOnce).holds_move different present]
    exact induction heldOnce

end Tiers

/-! ## The round -/

namespace TieredStorage

def Round.Advances (earlier later : Round) : Prop :=
  ∃ count, Moves count earlier.storage.tiers later.storage.tiers ∧
    later.moved = earlier.moved + count ∧
    (earlier.moved ≤ maxMovePerRound → later.moved ≤ maxMovePerRound)

namespace Round.Advances

variable {round middle last : Round} {tier : Tier} {entry : Bytes × Bytes}

theorem refl (round : Round) : round.Advances round :=
  ⟨0, .none, rfl, id⟩

theorem trans (first : round.Advances middle) (second : middle.Advances last) :
    round.Advances last := by
  rcases first with ⟨count, moves, counted, bounded⟩
  rcases second with ⟨more, furtherMoves, furtherCounted, furtherBounded⟩
  refine ⟨count + more, moves.trans furtherMoves, ?_, furtherBounded ∘ bounded⟩
  rw [furtherCounted, counted, Nat.add_assoc]

theorem visit (present : round.storage.tiers.copies entry.1 tier = some entry.2) :
    round.Advances (round.visit tier entry) := by
  rw [Round.visit]
  split_ifs with below
  · dsimp only
    split_ifs with moves
    · exact ⟨1, Moves.none.more moves present, rfl, fun _ => below⟩
    · exact refl round
  · exact refl round

theorem foldl_visit {rest : List (Bytes × Bytes)}
    (present : ∀ entry ∈ rest, round.storage.tiers.copies entry.1 tier = some entry.2)
    (distinct : (rest.map Prod.fst).Nodup) :
    round.Advances (rest.foldl (Round.visit tier) round) := by
  induction rest generalizing round with
  | nil => exact refl round
  | cons entry rest induction =>
    rw [List.map_cons, List.nodup_cons] at distinct
    refine (visit (present entry List.mem_cons_self)).trans (induction ?_ distinct.2)
    -- A key that is still to come has not been moved: the scan delivers each key once.
    intro other member
    rw [Round.copies_visit_other]
    · exact present other (List.mem_cons_of_mem entry member)
    · intro same
      exact distinct.1 (same ▸ List.mem_map_of_mem member)

theorem scan (round : Round) (tier : Tier) : round.Advances (round.scan tier) := by
  refine foldl_visit (fun entry member => ?_) (OrderedMap.keys_nodup _)
  exact OrderedMap.get?_eq_some_iff.mpr member

theorem foldl_scan (round : Round) (tiers : List Tier) :
    round.Advances (tiers.foldl Round.scan round) := by
  induction tiers generalizing round with
  | nil => exact refl round
  | cons tier rest induction => exact (scan round tier).trans (induction _)

end Round.Advances

theorem moves_rebalanceOnce (storage : TieredStorage) :
    ∃ count ≤ maxMovePerRound, Moves count storage.tiers storage.rebalanceOnce.tiers := by
  rcases Round.Advances.foldl_scan { storage, moved := 0 } [.hot, .warm, .cold] with
    ⟨count, moves, counted, bounded⟩
  refine ⟨count, ?_, moves⟩
  have within := bounded (Nat.zero_le _)
  rw [counted] at within
  exact (Nat.le_add_left _ _).trans within

/-- A round keeps what the tiers hold together, keeps every key in one tier at most, and
moves 1000 copies at most. -/
theorem rebalanceOnce_keeps_content (storage : TieredStorage) (heldOnce : storage.tiers.HeldOnce) :
    (∀ key value, storage.rebalanceOnce.tiers.Holds key value ↔ storage.tiers.Holds key value) ∧
      storage.rebalanceOnce.tiers.HeldOnce ∧
      ∃ count ≤ 1000, Moves count storage.tiers storage.rebalanceOnce.tiers := by
  rcases moves_rebalanceOnce storage with ⟨count, bounded, moves⟩
  exact ⟨fun _ _ => moves.holds heldOnce, moves.heldOnce heldOnce, count, bounded, moves⟩

def oneWarmOneHot : TieredStorage :=
  { new 5 7 2 with tiers := (Tiers.empty.put .warm [1] [10]).put .hot [2] [20] }

theorem heldOnce_oneWarmOneHot : oneWarmOneHot.tiers.HeldOnce := by
  apply (heldOnce_empty.put (fun _ => rfl) .warm [10]).put
  intro tier
  cases tier <;> decide

theorem rebalanceOnce_oneWarmOneHot :
    oneWarmOneHot.rebalanceOnce.tiers.copies [2] .cold = some [20] ∧
      ∀ key value, oneWarmOneHot.rebalanceOnce.tiers.Holds key value ↔
        oneWarmOneHot.tiers.Holds key value :=
  ⟨by decide +kernel, (rebalanceOnce_keeps_content oneWarmOneHot heldOnce_oneWarmOneHot).1⟩

end TieredStorage

end AegisDB.Storage

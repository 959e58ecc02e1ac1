import AegisDB.Foundation.Merging
import AegisDB.Storage.PrefixIterator
import AegisDB.Storage.Tiered

/-! # The iterator over the three tiers

`MergedIterator` in `storage/tiered_storage.rs`: the iterators of the tiers, and the item
that was last taken from them. Every repositioning takes the next item, whatever key it
is given. -/

namespace AegisDB.Storage

open Foundation Tiers List

def RocksDBIterator.candidate (iterator : RocksDBIterator) : Option (Bytes × Bytes) :=
  if iterator.valid then some iterator.item else none

structure MergedIterator where
  iters : List RocksDBIterator
  current : Option (Bytes × Bytes)

namespace MergedIterator

def updateCurrent (merged : MergedIterator) : MergedIterator :=
  match least (merged.iters.map RocksDBIterator.candidate) with
  | some (item, index) =>
    { iters := merged.iters.modify index RocksDBIterator.next, current := some item }
  | none => { merged with current := none }

def new (iters : List RocksDBIterator) : MergedIterator :=
  updateCurrent { iters, current := none }

def item (merged : MergedIterator) : Bytes × Bytes := merged.current.getD ([], [])

def valid (merged : MergedIterator) : Bool := merged.current.isSome

def next (merged : MergedIterator) : MergedIterator := merged.updateCurrent

def seek (merged : MergedIterator) (_key : Bytes) : MergedIterator := merged.updateCurrent

def walk : Nat → MergedIterator → Option (List (Bytes × Bytes))
  | 0, merged => if merged.valid then none else some []
  | fuel + 1, merged =>
    if merged.valid then (walk fuel merged.next).map (merged.item :: ·) else some []

/-! ## The items are those of a merge -/

def lists (merged : MergedIterator) : List (List (Bytes × Bytes)) :=
  merged.iters.map RocksDBIterator.items

variable {merged : MergedIterator} {sourced : List ((Bytes × Bytes) × Nat)}

theorem candidates_eq (merged : MergedIterator) :
    merged.iters.map RocksDBIterator.candidate = merged.lists.map List.head? := by
  rw [lists, map_map]
  apply map_congr_left
  intro iterator _
  exact RocksDBIterator.head?_items.symm

theorem updateCurrent_done (nothing : least (merged.lists.map List.head?) = none) :
    merged.updateCurrent = { merged with current := none } := by
  rw [updateCurrent, candidates_eq, nothing]

theorem updateCurrent_next {chosen : (Bytes × Bytes) × Nat}
    (choice : least (merged.lists.map List.head?) = some chosen) :
    merged.updateCurrent.current = some chosen.1 ∧
      merged.updateCurrent.lists = merged.lists.modify chosen.2 List.tail := by
  have updated : merged.updateCurrent =
      { iters := merged.iters.modify chosen.2 RocksDBIterator.next, current := some chosen.1 } := by
    rw [updateCurrent, candidates_eq, choice]
  rw [updated]
  refine ⟨rfl, ext_getElem? fun position => ?_⟩
  rcases (least_heads_eq_some choice).1 with ⟨rest, present⟩
  simp only [lists, getElem?_map, getElem?_modify] at present ⊢
  cases found : merged.iters[position]? with
  | none => rfl
  | some iterator =>
    by_cases same : chosen.2 = position
    · rw [same, found] at present
      have valid : iterator.valid = true := by
        have head := @RocksDBIterator.head?_items iterator
        rw [Option.some.inj present] at head
        by_contra invalid
        simp [invalid] at head
      simp [same, RocksDBIterator.items_next valid]
    · simp [same]

variable {fuel : Nat}

theorem walk_of_invalid (invalid : merged.current = none) :
    walk fuel merged = some [] := by
  cases fuel with
  | zero => rw [walk, valid, invalid, Option.isSome_none, if_neg Bool.false_ne_true]
  | succ fuel => rw [walk, valid, invalid, Option.isSome_none, if_neg Bool.false_ne_true]

theorem walk_of_valid {item : Bytes × Bytes} (valid : merged.current = some item) :
    walk (fuel + 1) merged = (walk fuel merged.updateCurrent).map (item :: ·) := by
  rw [walk, MergedIterator.valid, MergedIterator.item, valid, Option.isSome_some, if_pos rfl]
  rfl

theorem walk_updateCurrent (merges : Merges merged.lists sourced) (enough : sourced.length ≤ fuel) :
    walk fuel merged.updateCurrent = some (sourced.map Prod.fst) := by
  generalize same : merged.lists = lists at merges
  induction merges generalizing merged fuel with
  | done nothing =>
    subst same
    rw [updateCurrent_done nothing]
    exact walk_of_invalid rfl
  | @next lists chosen rest choice later induction =>
    subst same
    rcases updateCurrent_next choice with ⟨current, advanced⟩
    cases fuel with
    | zero => cases enough
    | succ fuel =>
      rw [walk_of_valid current, induction (Nat.le_of_succ_le_succ enough) advanced]
      rfl

theorem walk_seek {iters : List RocksDBIterator} {key : Bytes}
    (merges : Merges (iters.map RocksDBIterator.items) sourced) (enough : sourced.length ≤ fuel) :
    walk fuel ((new iters).seek key) = some (sourced.tail.map Prod.fst) := by
  have start : Merges (MergedIterator.mk iters none).lists sourced := merges
  rw [seek, new]
  cases start with
  | done nothing =>
    rw [updateCurrent_done nothing]
    exact walk_updateCurrent (.done nothing) enough
  | next choice later =>
    rw [← (updateCurrent_next choice).2] at later
    exact walk_updateCurrent later (Nat.le_of_succ_le enough)

end MergedIterator

/-! ## Scans of the tiers -/

def TieredStorage.iterCf (storage : TieredStorage) (cf : Cf) : MergedIterator :=
  .new [.new (storage.tiers .hot) cf, .new (storage.tiers .warm) cf, .new (storage.tiers .cold) cf]

/-- The keys of the family from `start` on, each once and in order, with what reads find. -/
structure IsScan (storage : TieredStorage) (cf : Cf) (start : Bytes)
    (items : List (Bytes × Bytes)) : Prop where
  ascending : Ascending items
  complete : ∀ key value, (key, value) ∈ items ↔
    start ≤ key ∧ (storage.getCf cf key).1 = some value

theorem Tier.position_injective {left right : Tier} (same : left.position = right.position) :
    left = right := by
  cases left <;> cases right <;> first | rfl | cases same

namespace Tiers

variable (tiers : Tiers) (cf : Cf)

def Delivers (tier : Tier) (key value : Bytes) : Prop :=
  RocksDBIterator.BeginsWith (tiers tier) cf ∧
    tiers.copies (keyWithCf cf key) tier = some value

def Foremost (tier : Tier) (key : Bytes) : Prop :=
  ∀ other otherKey value, tiers.Delivers cf other otherKey value →
    key < otherKey ∨ key = otherKey ∧ tier.position ≤ other.position

def Follows (tier : Tier) (key value : Bytes) : Prop :=
  tiers.Delivers cf tier key value ∧ ¬ tiers.Foremost cf tier key

structure DeliversScan (start : Bytes) : Prop where
  sound : ∀ tier key value, tiers.Follows cf tier key value →
    start ≤ key ∧ (tiers.copies (keyWithCf cf key)).first = some value
  single : ∀ tier other key value otherValue, tiers.Follows cf tier key value →
    tiers.Follows cf other key otherValue → tier = other
  complete : ∀ tier key, start ≤ key → tiers.copies (keyWithCf cf key) tier ≠ none →
    ∃ other value, tiers.Follows cf other key value

variable {tiers cf} {sourced : List ((Bytes × Bytes) × Nat)}

def lists (tiers : Tiers) (cf : Cf) : List (List (Bytes × Bytes)) :=
  [(RocksDBIterator.new (tiers .hot) cf).items, (RocksDBIterator.new (tiers .warm) cf).items,
    (RocksDBIterator.new (tiers .cold) cf).items]

theorem getElem?_lists (tier : Tier) :
    (tiers.lists cf)[tier.position]? = some (RocksDBIterator.new (tiers tier) cf).items := by
  cases tier <;> rfl

variable {key value : Bytes} {tier : Tier}

variable (merges : Merges (tiers.lists cf) sourced)

include merges

theorem mem_merged_iff :
    ((key, value), tier.position) ∈ sourced ↔ tiers.Delivers cf tier key value := by
  rw [merges.mem_iff, getElem?_lists]
  simp only [Option.some.injEq, exists_eq_left']
  exact RocksDBIterator.mem_items_new

theorem position_of_mem {entry : Bytes × Bytes}
    {position : Nat} (member : (entry, position) ∈ sourced) :
    ∃ tier : Tier, tier.position = position := by
  rcases merges.mem_iff.mp member with ⟨list, present, _⟩
  match position with
  | 0 => exact ⟨.hot, rfl⟩
  | 1 => exact ⟨.warm, rfl⟩
  | 2 => exact ⟨.cold, rfl⟩
  | position + 3 => cases present

theorem ascending_merged :
    sourced.Pairwise fun left right => rank left < rank right := by
  apply merges.ascending
  intro list member
  rcases mem_iff_getElem?.mp member with ⟨position, present⟩
  match position with
  | 0 | 1 | 2 =>
    rw [← Option.some.inj present]
    exact RocksDBIterator.ascending_items (OrderedMap.ascending _)
  | position + 3 => cases present

theorem mem_tail_merged_iff :
    ((key, value), tier.position) ∈ sourced.tail ↔ tiers.Follows cf tier key value := by
  have ascending := ascending_merged merges
  rw [Follows, ← mem_merged_iff merges]
  cases sourced with
  | nil => simp
  | cons chosen rest =>
    rcases chosen with ⟨⟨chosenKey, chosenValue⟩, position⟩
    rcases position_of_mem merges mem_cons_self with ⟨chosenTier, rfl⟩
    constructor
    · intro member
      refine ⟨mem_cons_of_mem _ member, fun foremost => ?_⟩
      have below := rel_of_pairwise_cons ascending member
      have above := foremost chosenTier chosenKey chosenValue
        ((mem_merged_iff merges).mp mem_cons_self)
      exact absurd below (not_lt.mpr (rank_le_iff.mpr above))
    · intro ⟨member, notForemost⟩
      rcases mem_cons.mp member with same | inRest
      · refine absurd ?_ notForemost
        intro other otherKey otherValue delivers
        rcases Prod.mk.inj same with ⟨sameEntry, samePosition⟩
        rcases Prod.mk.inj sameEntry with ⟨rfl, rfl⟩
        rw [samePosition]
        rcases mem_cons.mp ((mem_merged_iff merges).mpr delivers) with isChosen | isLater
        · rcases Prod.mk.inj isChosen with ⟨sameOther, sameOtherPosition⟩
          exact .inr ⟨(Prod.mk.inj sameOther).1.symm, sameOtherPosition.ge⟩
        · exact rank_le_iff.mp (rel_of_pairwise_cons ascending isLater).le
      · exact inRest

end Tiers

theorem isScan_iff {storage : TieredStorage} {cf : Cf} {start : Bytes}
    {sourced : List ((Bytes × Bytes) × Nat)} (merges : Merges (storage.tiers.lists cf) sourced) :
    IsScan storage cf start (sourced.tail.map Prod.fst) ↔
      storage.tiers.DeliversScan cf start := by
  have mem_iff : ∀ key value, (key, value) ∈ sourced.tail.map Prod.fst ↔
      ∃ tier, storage.tiers.Follows cf tier key value := by
    intro key value
    rw [mem_map]
    constructor
    · intro ⟨⟨entry, position⟩, member, same⟩
      dsimp only at same
      subst same
      rcases position_of_mem merges (mem_of_mem_tail member) with ⟨tier, rfl⟩
      exact ⟨tier, (mem_tail_merged_iff merges).mp member⟩
    · intro ⟨tier, follows⟩
      exact ⟨_, (mem_tail_merged_iff merges).mpr follows, rfl⟩
  constructor
  · intro ⟨ascending, complete⟩
    simp only [TieredStorage.getCf_eq_first] at complete
    refine ⟨?_, ?_, ?_⟩
    · intro tier key value follows
      exact (complete key value).mp ((mem_iff key value).mpr ⟨tier, follows⟩)
    · intro tier other key value otherValue follows otherFollows
      have distinct : (sourced.tail.map fun copy => copy.1.1).Nodup := by
        rw [Ascending, pairwise_map] at ascending
        exact pairwise_map.mpr (ascending.imp ne_of_lt)
      have same := inj_on_of_nodup_map distinct
        ((mem_tail_merged_iff merges).mpr follows)
        ((mem_tail_merged_iff merges).mpr otherFollows) rfl
      exact Tier.position_injective (Prod.mk.inj same).2
    · intro tier key above present
      rcases Copies.exists_first present with ⟨value, found⟩
      rcases (mem_iff key value).mp ((complete key value).mpr ⟨above, found⟩) with ⟨other, follows⟩
      exact ⟨other, value, follows⟩
  · intro ⟨sound, single, complete⟩
    refine ⟨?_, ?_⟩
    · rw [Ascending, pairwise_map]
      apply ((ascending_merged merges).sublist (tail_sublist sourced)).imp_of_mem
      intro ⟨⟨key, value⟩, position⟩ ⟨⟨otherKey, otherValue⟩, otherPosition⟩ member otherMember
        below
      rcases rank_lt_iff.mp below with smaller | ⟨sameKey, earlier⟩
      · exact smaller
      · -- The same key from two tiers.
        rcases position_of_mem merges (mem_of_mem_tail member) with ⟨tier, rfl⟩
        rcases position_of_mem merges (mem_of_mem_tail otherMember) with ⟨other, rfl⟩
        dsimp only at sameKey
        subst sameKey
        rw [single tier other key value otherValue ((mem_tail_merged_iff merges).mp member)
          ((mem_tail_merged_iff merges).mp otherMember)] at earlier
        exact absurd earlier (lt_irrefl _)
    · intro key value
      rw [mem_iff, TieredStorage.getCf_eq_first]
      constructor
      · intro ⟨tier, follows⟩
        exact sound tier key value follows
      · intro ⟨above, found⟩
        rcases Copies.exists_of_first found with ⟨tier, present⟩
        rcases complete tier key above (by simp [present]) with ⟨other, otherValue, follows⟩
        rw [(sound other key otherValue follows).2] at found
        exact ⟨other, Option.some.inj found ▸ follows⟩

/-- Walking from a key gives a scan exactly if the tiers deliver one. -/
theorem walk_isScan_iff (storage : TieredStorage) (cf : Cf) (start : Bytes) :
    ∃ items, (∃ fuel, ∀ more, fuel ≤ more →
        ((storage.iterCf cf).seek start).walk more = some items) ∧
      (IsScan storage cf start items ↔ storage.tiers.DeliversScan cf start) := by
  rcases Merges.exists_merged (storage.tiers.lists cf) with ⟨sourced, merges⟩
  exact ⟨_, ⟨sourced.length, fun _ enough => MergedIterator.walk_seek merges enough⟩,
    isScan_iff merges⟩

def twoKeys : TieredStorage :=
  (TieredStorage.new 1 0 0).write [.put [0x61] [1] .default, .put [0x62] [2] .default]

theorem isScan_twoKeys : IsScan twoKeys .default [0x62] [([0x62], [2])] := by
  refine ⟨by decide, fun key value => ?_⟩
  rw [mem_singleton, Prod.mk.injEq]
  constructor
  · intro same
    rw [same.1, same.2]
    decide +kernel
  · intro ⟨above, found⟩
    rw [TieredStorage.getCf_eq_first] at found
    rcases Copies.exists_of_first found with ⟨tier, present⟩
    have member := OrderedMap.get?_eq_some_iff.mp present
    cases tier with
    | hot => cases member
    | cold => cases member
    | warm =>
      have entries : (twoKeys.tiers .warm).entries =
          [(keyWithCf .default [0x61], [1]), (keyWithCf .default [0x62], [2])] := by decide
      rw [entries] at member
      simp only [mem_cons, Prod.mk.injEq, keyWithCf_inj, true_and, not_mem_nil,
        or_false] at member
      rcases member with ⟨rfl, rfl⟩ | second
      · exact absurd above (by decide)
      · exact second

theorem walk_twoKeys : twoKeys.tiers.DeliversScan .default [0x62] := by
  rcases walk_isScan_iff twoKeys .default [0x62] with ⟨items, ⟨fuel, walked⟩, scans⟩
  have current : ((twoKeys.iterCf .default).seek [0x62]).current = some ([0x62], [2]) := by
    decide +kernel
  have walked := walked (fuel + 1) (Nat.le_succ fuel)
  rw [MergedIterator.walk_of_valid current, MergedIterator.walk_of_invalid (by decide +kernel)]
    at walked
  rw [← Option.some.inj walked] at scans
  exact scans.mp isScan_twoKeys

/-- A seek loses the only key there is. -/
theorem seek_loses_key :
    ∃ (storage : TieredStorage) (cf : Cf) (start : Bytes) (items : List (Bytes × Bytes)),
      (∀ fuel, ((storage.iterCf cf).seek start).walk fuel = some items) ∧
        ¬ IsScan storage cf start items := by
  refine ⟨.oneKey, .default, [0x61], [], ?_, ?_⟩
  · intro fuel
    exact MergedIterator.walk_of_invalid (by decide +kernel)
  · intro scan
    exact absurd ((scan.complete [0x61] [1]).mpr (by decide +kernel)) nofun

end AegisDB.Storage

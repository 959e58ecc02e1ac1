import AegisDB.Scheduler.Scale
import Mathlib.Data.Prod.Lex

/-! # The ranking of the peers to remove

`try_create_remove_peer_operator` of `scheduler/schedulers/scale.rs` sorts the candidates by the
regions of their stores. A candidate on a store that is not known is equal to every other, so
that the comparison is in general not transitive. -/

namespace AegisDB.Scheduler

open Foundation Proto

/-! ## Loads -/

def StoreInfo.load (store : StoreInfo) : Nat ×ₗ Nat :=
  toLex (store.regionCount, store.regionSize.toNat)

theorem compareRegions_eq (left right : StoreInfo) :
    compareRegions left right = compare left.load right.load := by
  have sizes : compare left.regionSize right.regionSize =
      compare left.regionSize.toNat right.regionSize.toNat := by
    simp only [compare, compareOfLessAndEq, UInt64.lt_iff_toNat_lt, ← UInt64.toNat_inj]
  rw [compareRegions, sizes, Prod.Lex.compare_def]
  rfl

def BasicCluster.loadOf (cluster : BasicCluster) (peer : Peer) : Option (Nat ×ₗ Nat) :=
  (cluster.getStore peer.storeId).map StoreInfo.load

variable {cluster : BasicCluster} {walk : StoreWalk cluster}

theorem StoreWalk.find?_eq_getStore (keyed : cluster.Keyed) (walk : StoreWalk cluster)
    (storeId : UInt64) : walk.stores.find? (·.id = storeId) = cluster.getStore storeId := by
  cases found : walk.stores.find? (·.id = storeId) with
  | none =>
    cases known : cluster.getStore storeId with
    | none => rfl
    | some store =>
      have member : store ∈ walk.stores :=
        walk.isOrder.mem_iff.mpr (OrderedMap.mem_values_iff.mpr ⟨storeId, known⟩)
      have other := List.find?_eq_none.mp found store member
      exact absurd (decide_eq_true (keyed.store known)) other
  | some store =>
    have member := walk.isOrder.mem_iff.mp (List.mem_of_find?_eq_some found)
    have sameId := List.find?_some found
    rw [← of_decide_eq_true sameId, keyed.getStore_of_mem member]

theorem comparePeers_eq (keyed : cluster.Keyed) (walk : StoreWalk cluster) (left right : Peer) :
    comparePeers walk.stores left right =
      match cluster.loadOf left, cluster.loadOf right with
      | some leftLoad, some rightLoad => compare rightLoad leftLoad
      | _, _ => .eq := by
  rw [comparePeers, walk.find?_eq_getStore keyed, walk.find?_eq_getStore keyed,
    BasicCluster.loadOf, BasicCluster.loadOf]
  cases cluster.getStore left.storeId with
  | none => rfl
  | some leftStore =>
    cases cluster.getStore right.storeId with
    | none => rfl
    | some rightStore => exact compareRegions_eq rightStore leftStore

/-! ## The comparison -/

def LargestFirst (cluster : BasicCluster) (candidates sorted : List Peer) : Prop :=
  ∀ first, sorted.head? = some first → ∀ other ∈ candidates, ∀ load,
    cluster.loadOf other = some load →
    ∃ largest, cluster.loadOf first = some largest ∧ load ≤ largest

def AllKnown (cluster : BasicCluster) (candidates : List Peer) : Prop :=
  ∀ peer ∈ candidates, (cluster.loadOf peer).isSome

def SameLoad (cluster : BasicCluster) (candidates : List Peer) : Prop :=
  ∀ left ∈ candidates, ∀ right ∈ candidates, ∀ leftLoad rightLoad,
    cluster.loadOf left = some leftLoad → cluster.loadOf right = some rightLoad →
    leftLoad = rightLoad

/-- The known stores have the same load, and the first candidate is on one of them, if any. -/
structure Alike (cluster : BasicCluster) (candidates : List Peer) : Prop where
  sameLoad : SameLoad cluster candidates
  firstKnown : ∀ first, candidates.head? = some first → ∀ other ∈ candidates,
    (cluster.loadOf other).isSome → (cluster.loadOf first).isSome

variable {candidates : List Peer}

theorem comparePeers_of_known (keyed : cluster.Keyed) (walk : StoreWalk cluster) {left right : Peer}
    {leftLoad rightLoad : Nat ×ₗ Nat} (leftKnown : cluster.loadOf left = some leftLoad)
    (rightKnown : cluster.loadOf right = some rightLoad) :
    comparePeers walk.stores left right = compare rightLoad leftLoad := by
  rw [comparePeers_eq keyed, leftKnown, rightKnown]

theorem AllKnown.consistentOn (known : AllKnown cluster candidates) (keyed : cluster.Keyed)
    (walk : StoreWalk cluster) : ConsistentOn (comparePeers walk.stores) candidates := by
  apply ConsistentOn.of_key fun peer => (cluster.loadOf peer).getD (toLex (0, 0))
  intro left leftMember right rightMember
  rcases Option.isSome_iff_exists.mp (known left leftMember) with ⟨leftLoad, leftKnown⟩
  rcases Option.isSome_iff_exists.mp (known right rightMember) with ⟨rightLoad, rightKnown⟩
  rw [comparePeers_of_known keyed walk leftKnown rightKnown, leftKnown, rightKnown]
  rfl

theorem AllKnown.largestFirst (known : AllKnown cluster candidates) (keyed : cluster.Keyed)
    (walk : StoreWalk cluster) :
    LargestFirst cluster candidates (stableSort (comparePeers walk.stores) candidates) := by
  intro first isFirst other member load otherKnown
  have firstMember : first ∈ candidates := mem_stableSort.mp (List.mem_of_mem_head? isFirst)
  rcases Option.isSome_iff_exists.mp (known first firstMember) with ⟨largest, firstKnown⟩
  have before := (known.consistentOn keyed walk).comparison_head_ne_gt isFirst member
  rw [comparePeers_of_known keyed walk firstKnown otherKnown, compare_le_iff_le] at before
  exact ⟨largest, firstKnown, before⟩

theorem SameLoad.comparePeers_eq_eq (sameLoad : SameLoad cluster candidates)
    (keyed : cluster.Keyed) (walk : StoreWalk cluster) :
    ∀ left ∈ candidates, ∀ right ∈ candidates, comparePeers walk.stores left right = .eq := by
  intro left leftMember right rightMember
  rw [comparePeers_eq keyed]
  cases leftKnown : cluster.loadOf left with
  | none => rfl
  | some leftLoad =>
    cases rightKnown : cluster.loadOf right with
    | none => rfl
    | some rightLoad =>
      rw [sameLoad left leftMember right rightMember leftLoad rightLoad leftKnown rightKnown]
      exact compare_eq_iff_eq.mpr rfl

theorem Alike.largestFirst (alike : Alike cluster candidates) :
    LargestFirst cluster candidates candidates := by
  intro first isFirst other member load otherKnown
  have known := alike.firstKnown first isFirst other member (Option.isSome_of_eq_some otherKnown)
  rcases Option.isSome_iff_exists.mp known with ⟨largest, firstKnown⟩
  have same := alike.sameLoad other member first (List.mem_of_mem_head? isFirst) load largest
    otherKnown firstKnown
  exact ⟨largest, firstKnown, same.le⟩

theorem SameLoad.of_unknown (keyed : cluster.Keyed)
    (consistent : ConsistentOn (comparePeers walk.stores) candidates) {unknown : Peer}
    (member : unknown ∈ candidates) (notKnown : cluster.loadOf unknown = none) :
    SameLoad cluster candidates := by
  intro left leftMember right rightMember leftLoad rightLoad leftKnown rightKnown
  have first : comparePeers walk.stores left unknown = .eq := by
    rw [comparePeers_eq keyed, leftKnown, notKnown]
  have second : comparePeers walk.stores unknown right = .eq := by
    rw [comparePeers_eq keyed, notKnown]
  have equal := consistent.eq_trans leftMember member rightMember first second
  rw [comparePeers_of_known keyed walk leftKnown rightKnown, compare_eq_iff_eq] at equal
  exact equal.symm

/-- The comparison is an order and puts a peer on the largest store first exactly if all stores
are known, or those that are known do not differ and the first candidate is on one of them. -/
theorem ranking_is_order_iff (built : cluster.Built) (walk : StoreWalk cluster)
    (region : RegionInfo) :
    (ConsistentOn (comparePeers walk.stores) region.candidatePeers ∧
      ∀ sorting : SortBy Peer, LargestFirst cluster region.candidatePeers
        (sorting.sort (comparePeers walk.stores) region.candidatePeers)) ↔
    AllKnown cluster region.candidatePeers ∨ Alike cluster region.candidatePeers := by
  have keyed := built.keyed
  constructor
  · intro ordered
    rcases ordered with ⟨consistent, largest⟩
    by_cases known : AllKnown cluster region.candidatePeers
    · exact .inl known
    · right
      simp only [AllKnown, not_forall] at known
      rcases known with ⟨unknown, member, notKnown⟩
      have sameLoad := SameLoad.of_unknown keyed consistent member
        (Option.not_isSome_iff_eq_none.mp notKnown)
      refine ⟨sameLoad, ?_⟩
      intro first isFirst other otherMember otherKnown
      -- all candidates are equal, so that they stay where they are
      have unmoved := stableSort_eq_self (sameLoad.comparePeers_eq_eq keyed walk)
      have stillFirst := (congrArg List.head? unmoved).trans isFirst
      rcases Option.isSome_iff_exists.mp otherKnown with ⟨load, isLoad⟩
      rcases largest .standard first stillFirst other otherMember load isLoad with
        ⟨firstLoad, firstKnown, _⟩
      exact Option.isSome_of_eq_some firstKnown
  · intro condition
    rcases condition with known | alike
    · have consistent := known.consistentOn keyed walk
      refine ⟨consistent, fun sorting => ?_⟩
      rw [sorting.stable _ _ consistent]
      exact known.largestFirst keyed walk
    · have equal := alike.sameLoad.comparePeers_eq_eq keyed walk
      have consistent := ConsistentOn.of_forall_eq equal
      refine ⟨consistent, fun sorting => ?_⟩
      rw [sorting.stable _ _ consistent, stableSort_eq_self equal]
      exact alike.largestFirst

/-! ## A store that is not known -/

namespace ClusterCall

def spread : RegionInfo where
  region := {
    id := 9, startKey := [], endKey := [], regionEpoch := none
    peers := [{ id := 91, storeId := 1 }, { id := 92, storeId := 2 }, { id := 93, storeId := 3 },
      { id := 94, storeId := 4 }] }
  leader := some { id := 94, storeId := 4 }
  pendingPeers := []
  approximateSize := 5

def halfKnown : List ClusterCall := [registering 1, registering 3, placing 7 3 5, .putRegion spread]

/-- The second follower, on a store that is not known, keeps the third, which is on the largest
store, from coming before the first. The first is removed. -/
theorem unknown_store_breaks_ranking :
    ¬ (ConsistentOn (comparePeers (StoreWalk.ascending (after halfKnown)).stores)
        spread.candidatePeers ∧
      ∀ sorting : SortBy Peer, LargestFirst (after halfKnown) spread.candidatePeers
        (sorting.sort (comparePeers (StoreWalk.ascending (after halfKnown)).stores)
          spread.candidatePeers)) ∧
    ((ScaleScheduler.withPeerCount 1 1 3).schedule (after halfKnown) (.plain _)).map
      Operator.steps = some [.removePeer 1] := by
  constructor
  · intro ordered
    have first : comparePeers (StoreWalk.ascending (after halfKnown)).stores ⟨91, 1⟩ ⟨92, 2⟩ =
        .eq := by decide
    have second : comparePeers (StoreWalk.ascending (after halfKnown)).stores ⟨92, 2⟩ ⟨93, 3⟩ =
        .eq := by decide
    have equal := ordered.1.eq_trans (by decide) (by decide) (by decide) first second
    exact absurd equal (by decide)
  · decide

def known : List ClusterCall :=
  [registering 1, registering 2, registering 3, placing 7 3 5, .putRegion spread]

theorem known_stores_are_ranked :
    ConsistentOn (comparePeers (StoreWalk.ascending (after known)).stores)
        spread.candidatePeers ∧
      ∀ sorting : SortBy Peer, LargestFirst (after known) spread.candidatePeers
        (sorting.sort (comparePeers (StoreWalk.ascending (after known)).stores)
          spread.candidatePeers) := by
  have allKnown : AllKnown (after known) spread.candidatePeers := by
    unfold AllKnown
    decide
  exact (ranking_is_order_iff ⟨known, rfl⟩ _ spread).mpr (.inl allKnown)

end ClusterCall

end AegisDB.Scheduler

import AegisDB.Scheduler.StoreStats

/-! # What schedulers choose from

The filters of `scheduler/filter/filters.rs`, the random regions of
`scheduler/cluster/basic_cluster.rs`, and what a call of a scheduler leaves to chance. -/

namespace AegisDB.Scheduler

open Foundation Proto OrderedMap List

/-! ## Stores -/

inductive StoreState where
  | up
  | offline
  | tombstone
deriving DecidableEq, Repr

def StoreState.fromInt32 (number : Int32) : Option StoreState :=
  if number = 0 then some .up
  else if number = 1 then some .offline
  else if number = 2 then some .tombstone
  else none

namespace StoreInfo

def storeState (store : StoreInfo) : StoreState := (StoreState.fromInt32 store.state).getD .up

def isUp (store : StoreInfo) : Bool := store.storeState = .up

def downTime (store : StoreInfo) (now : Nat) : Nat := now - store.lastHeartbeat

end StoreInfo

structure StoreStateFilter where
  maxDownTime : Nat

namespace StoreStateFilter

def rejects (filter : StoreStateFilter) (store : StoreInfo) (now : Nat) : Bool :=
  !store.isUp || store.blocked || store.downTime now > filter.maxDownTime

def source (filter : StoreStateFilter) (store : StoreInfo) (now : Nat) : Bool :=
  filter.rejects store now

def target (filter : StoreStateFilter) (store : StoreInfo) (now : Nat) : Bool :=
  filter.rejects store now

end StoreStateFilter

def selectSourceStores (stores : List StoreInfo) (filters : List StoreStateFilter)
    (clock : UInt64 → Nat) : List StoreInfo :=
  stores.filter fun store => filters.all fun filter => !filter.source store (clock store.id)

def selectTargetStores (stores : List StoreInfo) (filters : List StoreStateFilter)
    (clock : UInt64 → Nat) : List StoreInfo :=
  stores.filter fun store => filters.all fun filter => !filter.target store (clock store.id)

def StoreInfo.Available (store : StoreInfo) : Prop := store.isUp = true ∧ store.blocked = false

theorem available_of_mem_selectTargetStores {stores : List StoreInfo} {filter : StoreStateFilter}
    {clock : UInt64 → Nat} {store : StoreInfo}
    (member : store ∈ selectTargetStores stores [filter] clock) :
    store ∈ stores ∧ store.Available := by
  rw [selectTargetStores, mem_filter] at member
  refine ⟨member.1, ?_⟩
  have accepted := member.2
  simp only [all_cons, all_nil, Bool.and_true, StoreStateFilter.target,
    StoreStateFilter.rejects, Bool.not_eq_true', Bool.or_eq_false_iff,
    Bool.not_eq_false'] at accepted
  exact accepted.1

def compareRegions (left right : StoreInfo) : Ordering :=
  (compare left.regionCount right.regionCount).then (compare left.regionSize right.regionSize)

/-! ## Regions -/

namespace BasicCluster

def suitableRegions (cluster : BasicCluster) (placement : Placement) (storeId : UInt64)
    (suitable : RegionInfo → Bool) : List RegionInfo :=
  (cluster.regions.entries.filter fun entry =>
    entry.1 ∈ (cluster.index placement).items storeId ∧ suitable entry.2).map Prod.snd

def pick (regions : List RegionInfo) (number : Nat) : Option RegionInfo :=
  regions[number % regions.length]?

def randPendingRegion (cluster : BasicCluster) (storeId : UInt64) (number : Nat) :
    Option RegionInfo :=
  pick (cluster.suitableRegions .peer storeId (·.hasPendingPeers)) number

def randFollowerRegion (cluster : BasicCluster) (storeId : UInt64) (number : Nat) :
    Option RegionInfo :=
  pick (cluster.suitableRegions .peer storeId fun region =>
    region.getLeaderStoreId ≠ some storeId && region.isHealthy) number

def randLeaderRegion (cluster : BasicCluster) (storeId : UInt64) (number : Nat) :
    Option RegionInfo :=
  pick (cluster.suitableRegions .leader storeId (·.isHealthy)) number

def getFollowerStores (_ : BasicCluster) (region : RegionInfo) : List UInt64 :=
  region.getFollowerStoreIds

variable {cluster : BasicCluster} {placement : Placement} {storeId : UInt64}
  {suitable : RegionInfo → Bool} {number : Nat} {region : RegionInfo}

theorem of_pick_suitableRegions (exact : ∀ regionId, cluster.ExactAt regionId)
    (picked : pick (cluster.suitableRegions placement storeId suitable) number = some region) :
    region ∈ cluster.getRegions ∧ storeId ∈ region.storesOf placement := by
  have member := mem_of_getElem? picked
  rw [suitableRegions, mem_map] at member
  rcases member with ⟨entry, found, rfl⟩
  rw [mem_filter, decide_eq_true_eq] at found
  rcases found with ⟨present, indexed, _⟩
  have stored := get?_eq_some_iff.mpr present
  rcases ((exact entry.1).mem_items_iff placement).mp indexed with ⟨other, foundOther, placed⟩
  rw [Option.some.inj (foundOther.symm.trans stored)] at placed
  exact ⟨mem_getRegions.mpr ⟨entry.1, stored⟩, placed⟩

/-! ## What is known of a cluster -/

def Built (cluster : BasicCluster) : Prop := ∃ calls, ClusterCall.after calls = cluster

structure Keyed (cluster : BasicCluster) : Prop where
  store : ∀ {storeId store}, cluster.getStore storeId = some store → store.id = storeId
  region : ∀ {regionId region}, cluster.getRegion regionId = some region → region.id = regionId

/-- The peers of a region are on different stores, and its leader is on one of them. -/
structure WellPlaced (cluster : BasicCluster) : Prop where
  distinct : cluster.DistinctPeers
  led : ∀ region ∈ cluster.getRegions, ∀ storeId ∈ region.storesOf .leader,
    storeId ∈ region.storesOf .peer

variable {cluster : BasicCluster} {region : RegionInfo} {store : StoreInfo}

theorem Built.putRegion (built : cluster.Built) (region : RegionInfo) :
    (cluster.putRegion region).Built := by
  rcases built with ⟨calls, rfl⟩
  refine ⟨calls ++ [.putRegion region], ?_⟩
  rw [ClusterCall.after, foldl_concat]
  rfl

theorem Built.exactAt (built : cluster.Built) (regionId : UInt64) : cluster.ExactAt regionId := by
  rcases built with ⟨calls, rfl⟩
  exact exactAt_after calls regionId

namespace Keyed

theorem new : BasicCluster.new.Keyed where
  store found := by cases found
  region found := by cases found

theorem putStore (keyed : cluster.Keyed) : (cluster.putStore store).Keyed where
  store {storeId other} found := by
    rw [getStore, BasicCluster.putStore, get?_insert] at found
    split_ifs at found with same
    · rw [← Option.some.inj found, same]
    · exact keyed.store found
  region found := keyed.region found

theorem putRegion (keyed : cluster.Keyed) : (cluster.putRegion region).Keyed where
  store {storeId other} found := by
    rw [getStore_putRegion] at found
    rcases Option.map_eq_some_iff.mp found with ⟨old, foundOld, rfl⟩
    have same : old.id = storeId := keyed.store foundOld
    exact same
  region {regionId other} found := by
    rw [getRegion, regions_putRegion, get?_insert] at found
    split_ifs at found with same
    · rw [← Option.some.inj found, same]
    · exact keyed.region found

end Keyed

theorem Built.keyed (built : cluster.Built) : cluster.Keyed := by
  rcases built with ⟨calls, rfl⟩
  rw [ClusterCall.after]
  induction calls using List.reverseRecOn with
  | nil => exact .new
  | append_singleton calls call induction =>
    rw [foldl_concat]
    cases call with
    | putStore store => exact induction.putStore
    | putRegion region => exact induction.putRegion

theorem Keyed.getRegion_of_mem (keyed : cluster.Keyed) (member : region ∈ cluster.getRegions) :
    cluster.getRegion region.id = some region := by
  rcases mem_getRegions.mp member with ⟨regionId, found⟩
  rw [keyed.region found]
  exact found

theorem Keyed.getStore_of_mem (keyed : cluster.Keyed) (member : store ∈ cluster.getStores) :
    cluster.getStore store.id = some store := by
  rcases mem_values_iff.mp member with ⟨storeId, found⟩
  rw [keyed.store found]
  exact found

theorem WellPlaced.putRegion (placed : cluster.WellPlaced)
    (distinct : (region.storesOf .peer).Nodup)
    (led : ∀ storeId ∈ region.storesOf .leader, storeId ∈ region.storesOf .peer) :
    (cluster.putRegion region).WellPlaced where
  distinct := placed.distinct.putRegion distinct
  led other member := by
    rcases mem_getRegions_putRegion member with rfl | before
    · exact led
    · exact placed.led other before

end BasicCluster

/-! ## Chance -/

inductive RegionQuery where
  | pending
  | follower
  | leader
deriving DecidableEq, Repr

def RegionQuery.rand (cluster : BasicCluster) (storeId : UInt64) (number : Nat) :
    RegionQuery → Option RegionInfo
  | .pending => cluster.randPendingRegion storeId number
  | .follower => cluster.randFollowerRegion storeId number
  | .leader => cluster.randLeaderRegion storeId number

structure StoreWalk (cluster : BasicCluster) where
  stores : List StoreInfo
  isOrder : stores.Perm cluster.getStores

/-- What a call leaves to chance: the walk, the clock, and the random numbers. -/
structure Chances (cluster : BasicCluster) extends StoreWalk cluster where
  sourceClock : UInt64 → Nat
  targetClock : UInt64 → Nat
  number : UInt64 → Nat → RegionQuery → Nat
  newPeerId : UInt64
  now : Nat

def StoreWalk.ascending (cluster : BasicCluster) : StoreWalk cluster where
  stores := cluster.getStores
  isOrder := List.Perm.refl _

def Chances.plain (cluster : BasicCluster) : Chances cluster where
  toStoreWalk := .ascending cluster
  sourceClock := fun _ => 0
  targetClock := fun _ => 0
  number := fun _ _ _ => 0
  newPeerId := 10000
  now := 0

namespace BasicCluster

variable {cluster : BasicCluster} {storeId : UInt64} {number : Nat} {region : RegionInfo}

theorem Built.of_rand (built : cluster.Built) (placed : cluster.WellPlaced) {query : RegionQuery}
    (picked : query.rand cluster storeId number = some region) :
    cluster.getRegion region.id = some region ∧ storeId ∈ region.storesOf .peer := by
  have found (member : region ∈ cluster.getRegions) := built.keyed.getRegion_of_mem member
  cases query with
  | pending =>
    have onStore := of_pick_suitableRegions built.exactAt picked
    exact ⟨found onStore.1, onStore.2⟩
  | follower =>
    have onStore := of_pick_suitableRegions built.exactAt picked
    exact ⟨found onStore.1, onStore.2⟩
  | leader =>
    have onStore := of_pick_suitableRegions built.exactAt picked
    exact ⟨found onStore.1, placed.led region onStore.1 storeId onStore.2⟩

end BasicCluster

end AegisDB.Scheduler

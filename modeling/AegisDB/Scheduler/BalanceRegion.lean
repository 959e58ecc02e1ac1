import AegisDB.Foundation.Comparing
import AegisDB.Scheduler.CarryingOut

/-! # Balancing regions

`scheduler/schedulers/balance_region.rs`: a peer is moved from a store with many regions to one
with few, if the source stays the larger of the two. -/

namespace AegisDB.Scheduler

open Foundation Proto RegionInfo BasicCluster List

def balanceRegionRetryLimit : Nat := 10

structure BalanceRegionScheduler where
  maxDownTime : Nat

namespace BalanceRegionScheduler

def filters (scheduler : BalanceRegionScheduler) : List StoreStateFilter :=
  [{ maxDownTime := scheduler.maxDownTime }]

def tryCreateMovePeerOperator (region : RegionInfo) (source : StoreInfo) (targets : List StoreInfo)
    (newPeerId : UInt64) (now : Nat) : Option Operator :=
  targets.findSome? fun target =>
    if source.regionSize ≤ target.regionSize + 2 * region.approximateSize then none
    else if target.id ∈ region.getStoreIds then none
    else some (.createMovePeerOperator region source.id target.id newPeerId now)

def schedule (scheduler : BalanceRegionScheduler) (cluster : BasicCluster)
    (chances : Chances cluster) : Option Operator :=
  let sources := selectSourceStores chances.stores scheduler.filters chances.sourceClock
  let targets := selectTargetStores chances.stores scheduler.filters chances.targetClock
  if sources.isEmpty || targets.isEmpty then none
  else
    let sortedSources := stableSort (fun left right => compareRegions right left) sources
    let sortedTargets := stableSort compareRegions targets
    sortedSources.findSome? fun source =>
      (List.range balanceRegionRetryLimit).findSome? fun attempt =>
        [RegionQuery.pending, .follower, .leader].findSome? fun query =>
          (query.rand cluster source.id (chances.number source.id attempt query)).bind fun region =>
            tryCreateMovePeerOperator region source sortedTargets chances.newPeerId chances.now

/-! ## What an operator does -/

variable {cluster : BasicCluster} {operator : Operator}

theorem of_tryCreateMovePeerOperator {region : RegionInfo} {source : StoreInfo}
    {targets : List StoreInfo} {newPeerId : UInt64} {now : Nat}
    (created : tryCreateMovePeerOperator region source targets newPeerId now = some operator) :
    ∃ target ∈ targets, target.regionSize + 2 * region.approximateSize < source.regionSize ∧
      target.id ∉ region.storesOf .peer ∧
      operator = .createMovePeerOperator region source.id target.id newPeerId now := by
  rcases exists_of_findSome?_eq_some created with ⟨target, member, chosen⟩
  refine ⟨target, member, ?_⟩
  split at chosen
  · cases chosen
  · rename_i smaller
    split at chosen
    · cases chosen
    · rename_i absent
      exact ⟨UInt64.not_le.mp smaller, absent, (Option.some.inj chosen).symm⟩

theorem of_schedule {scheduler : BalanceRegionScheduler} {chances : Chances cluster}
    (scheduled : scheduler.schedule cluster chances = some operator) :
    ∃ source ∈ cluster.getStores, ∃ target ∈ cluster.getStores, ∃ region query number,
      RegionQuery.rand cluster source.id number query = some region ∧ target.Available ∧
      target.regionSize + 2 * region.approximateSize < source.regionSize ∧
      target.id ∉ region.storesOf .peer ∧
      operator = .createMovePeerOperator region source.id target.id chances.newPeerId
        chances.now := by
  rw [schedule] at scheduled
  dsimp only at scheduled
  split at scheduled
  · cases scheduled
  · rcases exists_of_findSome?_eq_some scheduled with ⟨source, isSource, fromSource⟩
    rcases exists_of_findSome?_eq_some fromSource with ⟨attempt, _, attempted⟩
    rcases exists_of_findSome?_eq_some attempted with ⟨query, _, queried⟩
    rcases Option.bind_eq_some_iff.mp queried with ⟨region, picked, created⟩
    rcases of_tryCreateMovePeerOperator created with ⟨target, isTarget, smaller, absent, made⟩
    have sourceKnown : source ∈ cluster.getStores :=
      chances.isOrder.mem_iff.mp (mem_of_mem_filter (mem_stableSort.mp isSource))
    have available := available_of_mem_selectTargetStores (mem_stableSort.mp isTarget)
    exact ⟨source, sourceKnown, target, chances.isOrder.mem_iff.mp available.1, region, query, _,
      picked, available.2, smaller, absent, made⟩

end BalanceRegionScheduler

/-! ## Moves that are completed -/

structure BasicCluster.Balanceable (cluster : BasicCluster) : Prop where
  built : cluster.Built
  placed : cluster.WellPlaced
  counted : cluster.StatsExact
  bounded : ∀ storeId, (cluster.getStore storeId).isSome →
    cluster.share .peer RegionInfo.size storeId < 2 ^ 61

namespace BasicCluster.Balanceable

variable {cluster : BasicCluster} {region : RegionInfo} {source target : UInt64}

variable (balanceable : cluster.Balanceable)

include balanceable

theorem regionSize {storeId : UInt64} {store : StoreInfo}
    (found : cluster.getStore storeId = some store) :
    store.regionSize.toNat = cluster.share .peer RegionInfo.size storeId := by
  have bounded := balanceable.bounded storeId (Option.isSome_of_eq_some found)
  rw [(balanceable.counted storeId store found).2.2.1]
  exact UInt64.toNat_ofNat_of_lt (bounded.trans (by decide))

theorem lighter (found : cluster.getRegion region.id = some region)
    {sourceStore targetStore : StoreInfo} (isSource : cluster.getStore source = some sourceStore)
    (isTarget : cluster.getStore target = some targetStore)
    (present : source ∈ region.storesOf .peer)
    (smaller : targetStore.regionSize + 2 * region.approximateSize < sourceStore.regionSize) :
    cluster.share .peer RegionInfo.size target + 2 * region.size <
      cluster.share .peer RegionInfo.size source := by
  have targetBounded := balanceable.bounded target (Option.isSome_of_eq_some isTarget)
  have sourceBounded := balanceable.bounded source (Option.isSome_of_eq_some isSource)
  have member : region ∈ cluster.getRegions := mem_getRegions.mpr ⟨_, found⟩
  have part : region.share .peer RegionInfo.size source ≤
      cluster.share .peer RegionInfo.size source := share_le_share member
  rw [share_of_nodup (balanceable.placed.distinct region member), if_pos present] at part
  rw [UInt64.lt_iff_toNat_lt, UInt64.toNat_add, UInt64.toNat_mul, balanceable.regionSize isTarget,
    balanceable.regionSize isSource] at smaller
  rw [RegionInfo.size] at part ⊢
  have two : (2 : UInt64).toNat = 2 := rfl
  rw [two] at smaller
  omega

end BasicCluster.Balanceable

structure MovesPeer (cluster : BasicCluster) (operator : Operator) (region : RegionInfo)
    (source : UInt64) (target : StoreInfo) : Prop where
  made : ∃ newPeerId now,
    operator = .createMovePeerOperator region source target.id newPeerId now
  found : cluster.getRegion region.id = some region
  present : source ∈ region.storesOf .peer
  absent : target.id ∉ region.storesOf .peer
  available : target.Available
  sourceKnown : (cluster.getStore source).isSome
  targetKnown : cluster.getStore target.id = some target
  lighter : cluster.share .peer RegionInfo.size target.id + 2 * region.size <
    cluster.share .peer RegionInfo.size source

namespace MovesPeer

variable {cluster : BasicCluster} {operator : Operator} {region : RegionInfo} {source : UInt64}
  {target : StoreInfo}

theorem of_schedule (balanceable : cluster.Balanceable) {scheduler : BalanceRegionScheduler}
    {chances : Chances cluster} (scheduled : scheduler.schedule cluster chances = some operator) :
    ∃ region source target, MovesPeer cluster operator region source target := by
  rcases BalanceRegionScheduler.of_schedule scheduled with
    ⟨source, isSource, target, isTarget, region, query, number, picked, available, smaller, absent,
      made⟩
  have foundSource := balanceable.built.keyed.getStore_of_mem isSource
  have foundTarget := balanceable.built.keyed.getStore_of_mem isTarget
  rcases balanceable.built.of_rand balanceable.placed picked with ⟨found, present⟩
  exact ⟨region, source.id, target, ⟨_, _, made⟩, found, present, absent, available,
    Option.isSome_of_eq_some foundSource, foundTarget,
    balanceable.lighter found foundSource foundTarget present smaller⟩

variable (moves : MovesPeer cluster operator region source target)

include moves

theorem regionId : operator.regionId = region.id := by
  rcases moves.made with ⟨newPeerId, now, rfl⟩
  rfl

theorem wellPlaced (placed : cluster.WellPlaced) {moved : RegionInfo}
    (rearranged : RegionInfo.Rearranged region moved
      ((region.storesOf .peer).filter (· ≠ source) ++ [target.id])
      (if region.getLeaderStoreId = some source then some target.id
        else region.getLeaderStoreId)) :
    (cluster.putRegion moved).WellPlaced := by
  have member : region ∈ cluster.getRegions := mem_getRegions.mpr ⟨_, moves.found⟩
  apply placed.putRegion
  · rw [rearranged.peers, nodup_append_comm]
    exact nodup_cons.mpr ⟨fun inOld => moves.absent (mem_of_mem_filter inOld),
      (placed.distinct region member).filter _⟩
  · intro storeId leads
    rw [mem_storesOf_leader, rearranged.leader] at leads
    rw [rearranged.peers, mem_append, mem_singleton, mem_filter]
    split_ifs at leads with elsewhere
    · exact .inr (Option.some.inj leads).symm
    · left
      refine ⟨placed.led region member storeId (mem_storesOf_leader.mpr leads), ?_⟩
      rw [decide_eq_true_eq]
      intro same
      rw [same] at leads
      exact elsewhere leads

theorem carriedOut (balanceable : cluster.Balanceable) (pendingPeers : List Peer) :
    (cluster.carriedOut operator pendingPeers).Balanceable ∧
      (0 < region.size → (cluster.carriedOut operator pendingPeers).sumOfSquares
        (·.regionSize.toNat) < cluster.sumOfSquares (·.regionSize.toNat)) := by
  have found := moves.found
  have lighter := moves.lighter
  have member : region ∈ cluster.getRegions := mem_getRegions.mpr ⟨_, found⟩
  have distinct := balanceable.placed.distinct region member
  rw [carriedOut_eq (moves.regionId ▸ found)]
  rcases moves.made with ⟨newPeerId, now, made⟩
  have rearranged := (Operator.rearranged_movePeer distinct moves.present moves.absent newPeerId
    now).report pendingPeers
  rw [← made] at rearranged
  generalize ({ operator.carryOut region with pendingPeers } : RegionInfo) = moved at rearranged ⊢
  have shares := sharesMove_of_movePeer rearranged distinct moves.present moves.absent
  have foundOld := rearranged.id ▸ found
  have after : (cluster.putRegion moved).Balanceable := by
    refine ⟨balanceable.built.putRegion _, moves.wellPlaced balanceable.placed rearranged,
      statsExact_putRegion _ _, ?_⟩
    intro storeId known
    rw [isSome_getStore_putRegion] at known
    exact (shares.loadMove foundOld).lt_of_lighter (by omega)
      (balanceable.bounded source moves.sourceKnown) (balanceable.bounded storeId known)
  refine ⟨after, fun nonempty => ?_⟩
  exact shares.sumOfSquares_lt foundOld (fun _ _ => balanceable.regionSize)
    (fun _ _ => after.regionSize) moves.sourceKnown
    (Option.isSome_of_eq_some moves.targetKnown) nonempty (by omega)

end MovesPeer

def CompletesMove (before after : BasicCluster) : Prop :=
  ∃ (scheduler : BalanceRegionScheduler) (chances : Chances before) (operator : Operator)
    (region : RegionInfo) (pendingPeers : List Peer),
    scheduler.schedule before chances = some operator ∧
    before.getRegion operator.regionId = some region ∧ 0 < region.size ∧
    after = before.carriedOut operator pendingPeers

/-- Every operator moves a peer to an available store that does not have the region. Completed
with a region that is not empty it lowers the sum of the squares of the sizes, so that moves
come to an end. -/
theorem region_balancing_converges {cluster : BasicCluster} (built : cluster.Built)
    (placed : cluster.WellPlaced) (computed : cluster.updateStoreStats = cluster)
    (bounded : ∀ storeId, (cluster.getStore storeId).isSome →
      totalSize RegionInfo.size (cluster.regionsOn .peer storeId) < 2 ^ 61) :
    (∀ (scheduler : BalanceRegionScheduler) (chances : Chances cluster) (operator : Operator),
      scheduler.schedule cluster chances = some operator →
      ∃ region source target newPeerId now,
        operator = .createMovePeerOperator region source target.id newPeerId now ∧
        cluster.getRegion operator.regionId = some region ∧
        source ∈ region.storesOf .peer ∧ target.id ∉ region.storesOf .peer ∧
        cluster.getStore target.id = some target ∧ target.isUp = true ∧ target.blocked = false ∧
        (0 < region.size → ∀ pendingPeers,
          (cluster.carriedOut operator pendingPeers).sumOfSquares (·.regionSize.toNat) <
            cluster.sumOfSquares (·.regionSize.toNat))) ∧
    ∀ rest, List.IsChain CompletesMove (cluster :: rest) →
      rest.length ≤ cluster.sumOfSquares (·.regionSize.toNat) := by
  have balanceable : cluster.Balanceable := by
    refine ⟨built, placed, updateStoreStats_eq_self_iff.mp computed, ?_⟩
    intro storeId known
    rw [placed.distinct.share_eq]
    exact bounded storeId known
  constructor
  · intro scheduler chances operator scheduled
    rcases MovesPeer.of_schedule balanceable scheduled with ⟨region, source, target, moves⟩
    rcases moves.made with ⟨newPeerId, now, made⟩
    exact ⟨region, source, target, newPeerId, now, made, moves.regionId ▸ moves.found,
      moves.present, moves.absent, moves.targetKnown, moves.available.1, moves.available.2,
      fun nonempty pendingPeers => (moves.carriedOut balanceable pendingPeers).2 nonempty⟩
  · intro rest chain
    apply length_le_of_descent BasicCluster.Balanceable
      (fun cluster => cluster.sumOfSquares (·.regionSize.toNat)) _ balanceable chain
    intro before after balanceable step
    rcases step with ⟨scheduler, chances, operator, region, pendingPeers, scheduled, found,
      nonempty, rfl⟩
    rcases MovesPeer.of_schedule balanceable scheduled with ⟨moved, source, target, moves⟩
    have same : region = moved := by
      rw [moves.regionId, moves.found] at found
      exact (Option.some.inj found).symm
    have completed := moves.carriedOut balanceable pendingPeers
    exact ⟨completed.1, completed.2 (same ▸ nonempty)⟩

/-! ## Three regions on one of two stores -/

namespace ClusterCall

def crowded : List ClusterCall :=
  [registering 1, registering 2, placing 7 1 5, placing 8 1 5, placing 9 1 5]

theorem wellPlaced_crowded : (after crowded).WellPlaced := by
  have led : ((after crowded).getRegions.all fun region =>
      (region.storesOf .leader).all (· ∈ region.storesOf .peer)) = true := by decide
  constructor
  · unfold BasicCluster.DistinctPeers
    decide
  · simpa only [all_eq_true, decide_eq_true_eq] using led

theorem crowded_store_gives_region :
    (after crowded).sumOfSquares (·.regionSize.toNat) = 225 ∧
    ∃ operator, (BalanceRegionScheduler.mk 1).schedule (after crowded) (.plain _) =
        some operator ∧
      ((after crowded).carriedOut operator []).sumOfSquares (·.regionSize.toNat) < 225 := by
  have bounded : ∀ storeId, ((after crowded).getStore storeId).isSome →
      totalSize RegionInfo.size ((after crowded).regionsOn .peer storeId) < 2 ^ 61 := by
    intro storeId _
    have part := @totalSize_filter_le _ RegionInfo.size (after crowded).getRegions
      (fun region => storeId ∈ region.storesOf .peer) (fun _ => true) (fun _ _ => rfl)
    exact Nat.lt_of_le_of_lt part (by decide)
  have computed : (after crowded).updateStoreStats = after crowded :=
    updateStoreStats_eq_self_iff.mpr (statsExact_putRegion _ _)
  have converges := region_balancing_converges ⟨crowded, rfl⟩ wellPlaced_crowded computed bounded
  have total : (after crowded).sumOfSquares (·.regionSize.toNat) = 225 := by decide
  have nonempty : ∀ region ∈ (after crowded).getRegions, 0 < region.size := by decide
  have some : ((BalanceRegionScheduler.mk 1).schedule (after crowded) (.plain _)).isSome := by
    decide
  rcases Option.isSome_iff_exists.mp some with ⟨operator, scheduled⟩
  rcases converges.1 _ _ _ scheduled with ⟨region, _, _, _, _, _, found, _, _, _, _, _, lower⟩
  have member : region ∈ (after crowded).getRegions := mem_getRegions.mpr ⟨_, found⟩
  refine ⟨total, operator, scheduled, ?_⟩
  rw [← total]
  exact lower (nonempty region member) []

end ClusterCall

end AegisDB.Scheduler

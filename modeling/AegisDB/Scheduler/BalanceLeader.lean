import AegisDB.Foundation.Comparing
import AegisDB.Scheduler.CarryingOut

/-! # Balancing leaders

`scheduler/schedulers/balance_leader.rs`: the leadership of a region is given to a follower on
a store with fewer leaders. The difference of the counts is taken in 32 bits. -/

namespace AegisDB.Scheduler

open Foundation Proto BasicCluster StoreInfo List

def balanceLeaderRetryLimit : Nat := 10

structure BalanceLeaderScheduler where
  maxDownTime : Nat

def compareLeaders (left right : StoreInfo) : Ordering :=
  compare left.leaderCount right.leaderCount

namespace BalanceLeaderScheduler

def filters (scheduler : BalanceLeaderScheduler) : List StoreStateFilter :=
  [{ maxDownTime := scheduler.maxDownTime }]

def transferTo (region : RegionInfo) (source : StoreInfo) (validTargets : List StoreInfo)
    (now : Nat) : Option Operator :=
  validTargets.findSome? fun target =>
    if Int32.ofNat source.leaderCount - Int32.ofNat target.leaderCount < 2 then none
    else some (.createTransferLeaderOperator region source.id target.id now)

def schedule (scheduler : BalanceLeaderScheduler) (cluster : BasicCluster)
    (chances : Chances cluster) : Option Operator :=
  let sources := selectSourceStores chances.stores scheduler.filters chances.sourceClock
  let targets := selectTargetStores chances.stores scheduler.filters chances.targetClock
  if sources.isEmpty || targets.isEmpty then none
  else
    let sortedSources := stableSort (fun left right => compareLeaders right left) sources
    let sortedTargets := stableSort compareLeaders targets
    sortedSources.findSome? fun source =>
      (List.range balanceLeaderRetryLimit).findSome? fun attempt =>
        (cluster.randLeaderRegion source.id (chances.number source.id attempt .leader)).bind
          fun region =>
            let followerStores := cluster.getFollowerStores region
            let validTargets := sortedTargets.filter (·.id ∈ followerStores)
            transferTo region source validTargets chances.now

/-! ## What an operator does -/

variable {cluster : BasicCluster} {operator : Operator}

theorem add_two_le_of_not_lt {source target : Nat} (sourceBounded : source < 2 ^ 31)
    (targetBounded : target < 2 ^ 31) (more : ¬ Int32.ofNat source - Int32.ofNat target < 2) :
    target + 2 ≤ source := by
  rw [Int32.lt_iff_toInt_lt, Int32.toInt_sub] at more
  have sourceInt := Int32.toInt_ofNat_of_lt sourceBounded
  have targetInt := Int32.toInt_ofNat_of_lt targetBounded
  rw [sourceInt, targetInt, Int.bmod_eq_of_le (by omega) (by omega)] at more
  have two : (2 : Int32).toInt = 2 := rfl
  rw [two] at more
  omega

theorem of_schedule {scheduler : BalanceLeaderScheduler} {chances : Chances cluster}
    (exact : ∀ regionId, cluster.ExactAt regionId)
    (scheduled : scheduler.schedule cluster chances = some operator) :
    ∃ source ∈ cluster.getStores, ∃ target ∈ cluster.getStores, ∃ region ∈ cluster.getRegions,
      region.getLeaderStoreId = some source.id ∧ target.id ∈ region.getFollowerStoreIds ∧
      target.Available ∧
      ¬ Int32.ofNat source.leaderCount - Int32.ofNat target.leaderCount < 2 ∧
      operator = .createTransferLeaderOperator region source.id target.id chances.now := by
  rw [schedule] at scheduled
  dsimp only at scheduled
  split at scheduled
  · cases scheduled
  · rcases exists_of_findSome?_eq_some scheduled with ⟨source, isSource, fromSource⟩
    rcases exists_of_findSome?_eq_some fromSource with ⟨attempt, _, attempted⟩
    rcases Option.bind_eq_some_iff.mp attempted with ⟨region, picked, transferred⟩
    rcases exists_of_findSome?_eq_some transferred with ⟨target, isTarget, chosen⟩
    have onSource := of_pick_suitableRegions exact picked
    have sourceKnown : source ∈ cluster.getStores :=
      chances.isOrder.mem_iff.mp (mem_of_mem_filter (mem_stableSort.mp isSource))
    rcases mem_filter.mp isTarget with ⟨isSorted, follows⟩
    have available := available_of_mem_selectTargetStores (mem_stableSort.mp isSorted)
    split at chosen
    · cases chosen
    · rename_i more
      exact ⟨source, sourceKnown, target, chances.isOrder.mem_iff.mp available.1, region,
        onSource.1, RegionInfo.mem_storesOf_leader.mp onSource.2, of_decide_eq_true follows,
        available.2, more, (Option.some.inj chosen).symm⟩

end BalanceLeaderScheduler

/-! ## Transfers that are completed -/

structure BasicCluster.LeadersBalanceable (cluster : BasicCluster) : Prop where
  built : cluster.Built
  counted : cluster.StatsExact
  bounded : ∀ storeId, (cluster.getStore storeId).isSome →
    cluster.share .leader (fun _ => 1) storeId < 2 ^ 31

structure TransfersLeader (cluster : BasicCluster) (operator : Operator) (region : RegionInfo)
    (source target : StoreInfo) : Prop where
  made : ∃ now, operator = .createTransferLeaderOperator region source.id target.id now
  found : cluster.getRegion region.id = some region
  leads : region.getLeaderStoreId = some source.id
  follows : target.id ∈ region.getFollowerStoreIds
  available : target.Available
  sourceKnown : cluster.getStore source.id = some source
  targetKnown : cluster.getStore target.id = some target
  fewer : cluster.share .leader (fun _ => 1) target.id + 2 ≤
    cluster.share .leader (fun _ => 1) source.id

namespace TransfersLeader

variable {cluster : BasicCluster} {operator : Operator} {region : RegionInfo}
  {source target : StoreInfo}

theorem of_schedule (balanceable : cluster.LeadersBalanceable) {scheduler : BalanceLeaderScheduler}
    {chances : Chances cluster} (scheduled : scheduler.schedule cluster chances = some operator) :
    ∃ region source target, TransfersLeader cluster operator region source target := by
  rcases BalanceLeaderScheduler.of_schedule balanceable.built.exactAt scheduled with
    ⟨source, isSource, target, isTarget, region, member, leads, follows, available, more, made⟩
  have keyed := balanceable.built.keyed
  have foundSource := keyed.getStore_of_mem isSource
  have foundTarget := keyed.getStore_of_mem isTarget
  refine ⟨region, source, target, ⟨_, made⟩, keyed.getRegion_of_mem member, leads, follows,
    available, foundSource, foundTarget, ?_⟩
  have sourceBounded := balanceable.bounded source.id (Option.isSome_of_eq_some foundSource)
  have targetBounded := balanceable.bounded target.id (Option.isSome_of_eq_some foundTarget)
  rw [(balanceable.counted source.id source foundSource).2.1,
    (balanceable.counted target.id target foundTarget).2.1] at more
  exact BalanceLeaderScheduler.add_two_le_of_not_lt sourceBounded targetBounded more

variable (transfers : TransfersLeader cluster operator region source target)

include transfers

theorem regionId :
    operator.regionId = region.id := by
  rcases transfers.made with ⟨now, rfl⟩
  rfl

theorem target_ne_source :
    target.id ∈ region.storesOf .peer ∧ target.id ≠ source.id := by
  have follows := transfers.follows
  rw [RegionInfo.getFollowerStoreIds, mem_filter, decide_eq_true_eq,
    transfers.leads] at follows
  exact ⟨follows.1, fun same => follows.2 (congrArg some same)⟩

theorem carriedOut (balanceable : cluster.LeadersBalanceable) (pendingPeers : List Peer) :
    (cluster.carriedOut operator pendingPeers).LeadersBalanceable ∧
      (cluster.carriedOut operator pendingPeers).sumOfSquares leaderCount <
        cluster.sumOfSquares leaderCount := by
  have found := transfers.found
  have fewer := transfers.fewer
  rw [carriedOut_eq (transfers.regionId ▸ found)]
  rcases transfers.made with ⟨now, rfl⟩
  rcases transfers.target_ne_source with ⟨present, different⟩
  have rearranged := (Operator.rearranged_transferLeader present source.id now).report pendingPeers
  have moves := sharesMove_of_transferLeader rearranged transfers.leads different
  have foundOld := rearranged.id ▸ found
  have sourceKnown := Option.isSome_of_eq_some transfers.sourceKnown
  constructor
  · refine ⟨balanceable.built.putRegion _, statsExact_putRegion _ _, ?_⟩
    intro storeId known
    rw [isSome_getStore_putRegion] at known
    exact (moves.loadMove foundOld).lt_of_lighter (by omega)
      (balanceable.bounded source.id sourceKnown) (balanceable.bounded storeId known)
  · exact moves.sumOfSquares_lt foundOld
      (fun storeId store known => (balanceable.counted storeId store known).2.1)
      (fun storeId store known =>
        (statsExact_putRegion _ _ storeId store known).2.1)
      sourceKnown (Option.isSome_of_eq_some transfers.targetKnown) Nat.one_pos (by omega)

end TransfersLeader

def CompletesTransfer (before after : BasicCluster) : Prop :=
  ∃ (scheduler : BalanceLeaderScheduler) (chances : Chances before) (operator : Operator)
    (pendingPeers : List Peer), scheduler.schedule before chances = some operator ∧
    after = before.carriedOut operator pendingPeers

/-- Every operator transfers the leadership of a region from the store that has it to an
available store with a follower. Completed it lowers the sum of the squares of the leader
counts, so that the scheduler comes to an end. -/
theorem leader_balancing_converges {cluster : BasicCluster} (built : cluster.Built)
    (computed : cluster.updateStoreStats = cluster)
    (bounded : ∀ storeId store, cluster.getStore storeId = some store →
      store.leaderCount < 2 ^ 31) :
    (∀ (scheduler : BalanceLeaderScheduler) (chances : Chances cluster) (operator : Operator),
      scheduler.schedule cluster chances = some operator →
      ∃ region source target now,
        operator = .createTransferLeaderOperator region source target.id now ∧
        cluster.getRegion operator.regionId = some region ∧
        region.getLeaderStoreId = some source ∧ target.id ∈ region.getFollowerStoreIds ∧
        cluster.getStore target.id = some target ∧ target.isUp = true ∧ target.blocked = false ∧
        ∀ pendingPeers,
          (cluster.carriedOut operator pendingPeers).sumOfSquares leaderCount <
            cluster.sumOfSquares leaderCount) ∧
    ∀ rest, List.IsChain CompletesTransfer (cluster :: rest) →
      rest.length ≤ cluster.sumOfSquares leaderCount := by
  have balanceable : cluster.LeadersBalanceable := by
    have counted := updateStoreStats_eq_self_iff.mp computed
    refine ⟨built, counted, ?_⟩
    intro storeId known
    rcases Option.isSome_iff_exists.mp known with ⟨store, found⟩
    rw [← (counted storeId store found).2.1]
    exact bounded storeId store found
  constructor
  · intro scheduler chances operator scheduled
    rcases TransfersLeader.of_schedule balanceable scheduled with
      ⟨region, source, target, transfers⟩
    rcases transfers.made with ⟨now, made⟩
    exact ⟨region, source.id, target, now, made, transfers.regionId ▸ transfers.found,
      transfers.leads, transfers.follows, transfers.targetKnown, transfers.available.1,
      transfers.available.2,
      fun pendingPeers => (transfers.carriedOut balanceable pendingPeers).2⟩
  · intro rest chain
    apply length_le_of_descent BasicCluster.LeadersBalanceable
      (fun cluster => cluster.sumOfSquares leaderCount) _ balanceable chain
    intro before after balanceable step
    rcases step with ⟨scheduler, chances, operator, pendingPeers, scheduled, rfl⟩
    rcases TransfersLeader.of_schedule balanceable scheduled with
      ⟨region, source, target, transfers⟩
    exact transfers.carriedOut balanceable pendingPeers

/-! ## Two leaders on one of two stores -/

namespace ClusterCall

def ledBy (regionId first second : UInt64) : ClusterCall :=
  .putRegion
    { region := {
        id := regionId, startKey := [], endKey := [], regionEpoch := none
        peers := [{ id := regionId, storeId := first }, { id := regionId + 1, storeId := second }] }
      leader := some { id := regionId, storeId := first }
      pendingPeers := []
      approximateSize := 1 }

def onesided : List ClusterCall := [registering 1, registering 2, ledBy 70 1 2, ledBy 80 1 2]

theorem onesided_store_gives_leader :
    (after onesided).sumOfSquares leaderCount = 4 ∧
    ∃ operator, (BalanceLeaderScheduler.mk 1).schedule (after onesided) (.plain _) =
        some operator ∧
      ((after onesided).carriedOut operator []).sumOfSquares leaderCount < 4 := by
  have computed : (after onesided).updateStoreStats = after onesided :=
    updateStoreStats_eq_self_iff.mpr (statsExact_putRegion _ _)
  have few : ∀ store ∈ (after onesided).getStores, store.leaderCount < 2 ^ 31 := by decide
  have bounded : ∀ storeId store, (after onesided).getStore storeId = some store →
      store.leaderCount < 2 ^ 31 := fun storeId store found =>
    few store (OrderedMap.mem_values_iff.mpr ⟨storeId, found⟩)
  have converges := leader_balancing_converges ⟨onesided, rfl⟩ computed bounded
  have total : (after onesided).sumOfSquares leaderCount = 4 := by decide
  have some : ((BalanceLeaderScheduler.mk 1).schedule (after onesided) (.plain _)).isSome := by
    decide
  rcases Option.isSome_iff_exists.mp some with ⟨operator, scheduled⟩
  rcases converges.1 _ _ _ scheduled with ⟨_, _, _, _, _, _, _, _, _, _, _, lower⟩
  refine ⟨total, operator, scheduled, ?_⟩
  rw [← total]
  exact lower []

end ClusterCall

end AegisDB.Scheduler

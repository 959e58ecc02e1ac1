import AegisDB.Foundation.Comparing
import AegisDB.Scheduler.CarryingOut

/-! # Scaling

`scheduler/schedulers/scale.rs`: regions with too few peers get another one, and regions with
too many lose one. -/

namespace AegisDB.Scheduler

open Foundation Proto List

/-! ## The scheduler -/

def Scale.minPeerCount : Nat := 3
def Scale.maxPeerCount : Nat := 5

structure ScaleScheduler where
  maxDownTime : Nat
  minPeerCount : Nat
  maxPeerCount : Nat

structure ScaleChances (cluster : BasicCluster) extends StoreWalk cluster where
  regions : List RegionInfo
  isRegionOrder : regions.Perm cluster.getRegions
  clock : UInt64 → UInt64 → Nat
  sorting : SortBy Peer
  newPeerId : UInt64
  now : Nat

def ScaleChances.plain (cluster : BasicCluster) : ScaleChances cluster where
  toStoreWalk := .ascending cluster
  regions := cluster.getRegions
  isRegionOrder := List.Perm.refl _
  clock := fun _ _ => 0
  sorting := .standard
  newPeerId := 10000
  now := 0

def comparePeers (stores : List StoreInfo) (left right : Peer) : Ordering :=
  match stores.find? (·.id = left.storeId), stores.find? (·.id = right.storeId) with
  | some leftStore, some rightStore => compareRegions rightStore leftStore
  | _, _ => .eq

def RegionInfo.candidatePeers (region : RegionInfo) : List Peer :=
  region.peers.filter fun peer => region.getLeaderStoreId ≠ some peer.storeId

namespace ScaleScheduler

def withPeerCount (maxDownTime minPeerCount maxPeerCount : Nat) : ScaleScheduler :=
  { maxDownTime, minPeerCount, maxPeerCount }

def new (maxDownTime : Nat) : ScaleScheduler :=
  withPeerCount maxDownTime Scale.minPeerCount Scale.maxPeerCount

def filters (scheduler : ScaleScheduler) : List StoreStateFilter :=
  [{ maxDownTime := scheduler.maxDownTime }]

def tryCreateAddPeerOperator (scheduler : ScaleScheduler) (cluster : BasicCluster)
    (region : RegionInfo) (chances : ScaleChances cluster) : Option Operator :=
  let targets := selectTargetStores chances.stores scheduler.filters (chances.clock region.id)
  let availableStores := targets.filter fun store => store.id ∉ region.getStoreIds
  (firstLeast compareRegions availableStores).map fun targetStore =>
    .createAddPeerOperator region targetStore.id chances.newPeerId chances.now

def tryCreateRemovePeerOperator (scheduler : ScaleScheduler) (cluster : BasicCluster)
    (region : RegionInfo) (chances : ScaleChances cluster) : Option Operator :=
  if region.peers.length ≤ scheduler.minPeerCount then none
  else
    let sorted := chances.sorting.sort (comparePeers chances.stores) region.candidatePeers
    sorted.head?.map fun peerToRemove =>
      .createRemovePeerOperator region peerToRemove.storeId chances.now

def schedule (scheduler : ScaleScheduler) (cluster : BasicCluster)
    (chances : ScaleChances cluster) : Option Operator :=
  let added := chances.regions.findSome? fun region =>
    if region.peers.length < scheduler.minPeerCount then
      scheduler.tryCreateAddPeerOperator cluster region chances
    else none
  added.or <| chances.regions.findSome? fun region =>
    if region.peers.length > scheduler.maxPeerCount then
      scheduler.tryCreateRemovePeerOperator cluster region chances
    else none

end ScaleScheduler

/-! ## What an operator does -/

structure AddsPeer (scheduler : ScaleScheduler) (cluster : BasicCluster) (operator : Operator)
    (region : RegionInfo) (target : StoreInfo) : Prop where
  made : ∃ newPeerId now, operator = .createAddPeerOperator region target.id newPeerId now
  member : region ∈ cluster.getRegions
  few : region.peers.length < scheduler.minPeerCount
  targetKnown : target ∈ cluster.getStores
  available : target.Available
  absent : target.id ∉ region.storesOf .peer

structure RemovesPeer (scheduler : ScaleScheduler) (cluster : BasicCluster) (operator : Operator)
    (region : RegionInfo) (peer : Peer) : Prop where
  made : ∃ now, operator = .createRemovePeerOperator region peer.storeId now
  member : region ∈ cluster.getRegions
  many : scheduler.maxPeerCount < region.peers.length
  enough : scheduler.minPeerCount < region.peers.length
  present : peer ∈ region.peers
  follows : region.getLeaderStoreId ≠ some peer.storeId

namespace ScaleScheduler

variable {scheduler : ScaleScheduler} {cluster : BasicCluster} {chances : ScaleChances cluster}
  {operator : Operator} {region : RegionInfo}

theorem addsPeer_of_tryCreate (member : region ∈ cluster.getRegions)
    (few : region.peers.length < scheduler.minPeerCount)
    (created : scheduler.tryCreateAddPeerOperator cluster region chances = some operator) :
    ∃ target, AddsPeer scheduler cluster operator region target := by
  rcases Option.map_eq_some_iff.mp created with ⟨target, least, rfl⟩
  rcases mem_filter.mp (mem_of_firstLeast least) with ⟨isTarget, absent⟩
  rcases available_of_mem_selectTargetStores isTarget with ⟨known, available⟩
  exact ⟨target, ⟨_, _, rfl⟩, member, few, chances.isOrder.mem_iff.mp known, available,
    of_decide_eq_true absent⟩

theorem removesPeer_of_tryCreate (member : region ∈ cluster.getRegions)
    (many : scheduler.maxPeerCount < region.peers.length)
    (created : scheduler.tryCreateRemovePeerOperator cluster region chances = some operator) :
    ∃ peer, RemovesPeer scheduler cluster operator region peer := by
  rw [tryCreateRemovePeerOperator] at created
  split at created
  · cases created
  · rename_i enough
    rcases Option.map_eq_some_iff.mp created with ⟨peer, first, rfl⟩
    have candidate := (chances.sorting.perm _ _).mem_iff.mp (mem_of_mem_head? first)
    rcases mem_filter.mp candidate with ⟨present, follows⟩
    exact ⟨peer, ⟨_, rfl⟩, member, many, Nat.lt_of_not_le enough, present,
      of_decide_eq_true follows⟩

theorem of_schedule (scheduled : scheduler.schedule cluster chances = some operator) :
    ∃ region, (∃ target, AddsPeer scheduler cluster operator region target) ∨
      ∃ peer, RemovesPeer scheduler cluster operator region peer := by
  rw [schedule] at scheduled
  rcases Option.or_eq_some_iff.mp scheduled with added | removed
  · rcases exists_of_findSome?_eq_some added with ⟨region, walked, tried⟩
    have member := chances.isRegionOrder.mem_iff.mp walked
    split at tried
    · rename_i few
      exact ⟨region, .inl (addsPeer_of_tryCreate member few tried)⟩
    · cases tried
  · rcases exists_of_findSome?_eq_some removed.2 with ⟨region, walked, tried⟩
    have member := chances.isRegionOrder.mem_iff.mp walked
    split at tried
    · rename_i many
      exact ⟨region, .inr (removesPeer_of_tryCreate member many tried)⟩
    · cases tried

end ScaleScheduler

/-! ## Regions between their bounds -/

structure Towards (low high before after : Nat) : Prop where
  up : before ≤ low → before ≤ after ∧ after ≤ low
  down : max low high ≤ before → max low high ≤ after ∧ after ≤ before
  between : low ≤ before → before ≤ max low high → after = before

namespace Towards

variable {low high first second third count : Nat}

theorem refl : Towards low high count count := by
  constructor <;> omega

theorem trans (earlier : Towards low high first second) (later : Towards low high second third) :
    Towards low high first third := by
  rcases earlier with ⟨up, down, between⟩
  rcases later with ⟨laterUp, laterDown, laterBetween⟩
  constructor <;> omega

theorem succ (few : count < low) : Towards low high count (count + 1) := by
  constructor <;> omega

theorem pred (many : high < count) (enough : low < count) : Towards low high count (count - 1) := by
  constructor <;> omega

end Towards

namespace BasicCluster

def ScaledTo (scheduler : ScaleScheduler) (before after : BasicCluster) : Prop :=
  ∀ regionId region, before.getRegion regionId = some region →
    ∃ scaled, after.getRegion regionId = some scaled ∧
      Towards scheduler.minPeerCount scheduler.maxPeerCount region.peers.length scaled.peers.length

theorem ScaledTo.trans {scheduler : ScaleScheduler} {first second third : BasicCluster}
    (earlier : ScaledTo scheduler first second) (later : ScaledTo scheduler second third) :
    ScaledTo scheduler first third := by
  intro regionId region found
  rcases earlier regionId region found with ⟨between, foundBetween, towards⟩
  rcases later regionId between foundBetween with ⟨scaled, foundScaled, further⟩
  exact ⟨scaled, foundScaled, towards.trans further⟩

end BasicCluster

def ScaleScheduler.distance (scheduler : ScaleScheduler) (peerCount : Nat) : Nat :=
  scheduler.minPeerCount - peerCount +
    (peerCount - max scheduler.minPeerCount scheduler.maxPeerCount)

def BasicCluster.distanceToBounds (cluster : BasicCluster) (scheduler : ScaleScheduler) : Nat :=
  totalSize (fun region => scheduler.distance region.peers.length) cluster.getRegions

/-! ## Operators that are carried out -/

structure BasicCluster.Scalable (cluster : BasicCluster) : Prop where
  keyed : cluster.Keyed
  distinct : cluster.DistinctPeers

def PutsPeers (cluster after : BasicCluster) (region : RegionInfo) (peerCount : Nat) : Prop :=
  ∃ scaled : RegionInfo, after = cluster.putRegion scaled ∧ scaled.id = region.id ∧
    (scaled.storesOf .peer).Nodup ∧ scaled.peers.length = peerCount

namespace PutsPeers

variable {scheduler : ScaleScheduler} {cluster after : BasicCluster} {region : RegionInfo}
  {peerCount : Nat}

variable (puts : PutsPeers cluster after region peerCount)

include puts

theorem getRegion :
    (after.getRegion region.id).map (·.peers.length) = some peerCount := by
  rcases puts with ⟨scaled, rfl, sameId, _, length⟩
  rw [BasicCluster.getRegion, BasicCluster.regions_putRegion, ← sameId,
    OrderedMap.get?_insert_same, Option.map_some, length]

theorem scalable (scalable : cluster.Scalable) :
    after.Scalable := by
  rcases puts with ⟨scaled, rfl, _, nodup, _⟩
  exact ⟨scalable.keyed.putRegion, scalable.distinct.putRegion nodup⟩

theorem scaledTo
    (found : cluster.getRegion region.id = some region)
    (towards : Towards scheduler.minPeerCount scheduler.maxPeerCount region.peers.length
      peerCount) :
    BasicCluster.ScaledTo scheduler cluster after := by
  rcases puts with ⟨scaled, rfl, sameId, _, rfl⟩
  intro regionId before foundBefore
  rw [BasicCluster.getRegion, BasicCluster.regions_putRegion, OrderedMap.get?_insert]
  split_ifs with same
  · rw [same, sameId, found] at foundBefore
    rcases Option.some.inj foundBefore with rfl
    exact ⟨scaled, rfl, towards⟩
  · exact ⟨before, foundBefore, .refl⟩

theorem distanceToBounds_lt (found : cluster.getRegion region.id = some region)
    (nearer : scheduler.distance peerCount < scheduler.distance region.peers.length) :
    after.distanceToBounds scheduler < cluster.distanceToBounds scheduler := by
  rcases puts with ⟨scaled, rfl, sameId, _, rfl⟩
  have balance := BasicCluster.totalSize_putRegion (sameId ▸ found)
    (fun region => scheduler.distance region.peers.length)
  rw [BasicCluster.distanceToBounds, BasicCluster.distanceToBounds]
  omega

end PutsPeers

theorem RegionInfo.Rearranged.length_peers {before after : RegionInfo} {peers : List UInt64}
    {leader : Option UInt64} (rearranged : Rearranged before after peers leader) :
    after.peers.length = peers.length := by
  rw [← rearranged.peers, storesOf, length_map]

variable {scheduler : ScaleScheduler} {cluster : BasicCluster} {operator : Operator}
  {region : RegionInfo}

theorem AddsPeer.putsPeers {target : StoreInfo}
    (adds : AddsPeer scheduler cluster operator region target) (scalable : cluster.Scalable)
    (pendingPeers : List Peer) :
    PutsPeers cluster (cluster.carriedOut operator pendingPeers) region
      (region.peers.length + 1) := by
  have found := scalable.keyed.getRegion_of_mem adds.member
  rcases adds.made with ⟨newPeerId, now, rfl⟩
  have rearranged := (Operator.rearranged_addPeer adds.absent newPeerId now).report pendingPeers
  refine ⟨_, BasicCluster.carriedOut_eq found pendingPeers, rearranged.id, ?_, ?_⟩
  · rw [rearranged.peers, nodup_append_comm]
    exact nodup_cons.mpr ⟨adds.absent, scalable.distinct region adds.member⟩
  · rw [rearranged.length_peers, length_append, RegionInfo.storesOf, length_map,
      length_singleton]

theorem RemovesPeer.putsPeers {peer : Peer}
    (removes : RemovesPeer scheduler cluster operator region peer) (scalable : cluster.Scalable)
    (pendingPeers : List Peer) :
    PutsPeers cluster (cluster.carriedOut operator pendingPeers) region
      (region.peers.length - 1) := by
  have found := scalable.keyed.getRegion_of_mem removes.member
  have distinct := scalable.distinct region removes.member
  have present := RegionInfo.mem_storesOf_peer.mpr ⟨peer, removes.present, rfl⟩
  rcases removes.made with ⟨now, rfl⟩
  have rearranged := (Operator.rearranged_removePeer distinct present now).report pendingPeers
  refine ⟨_, BasicCluster.carriedOut_eq found pendingPeers, rearranged.id, ?_, ?_⟩
  · rw [rearranged.peers]
    exact distinct.filter _
  · have erased : (region.storesOf .peer).filter (· ≠ peer.storeId) =
        (region.storesOf .peer).erase peer.storeId := by
      rw [distinct.erase_eq_filter]
      apply filter_congr
      intro storeId _
      exact Bool.eq_iff_iff.mpr (by simp)
    rw [rearranged.length_peers, erased, length_erase_of_mem present, RegionInfo.storesOf,
      length_map]

def CompletesScaling (scheduler : ScaleScheduler) (before after : BasicCluster) : Prop :=
  ∃ (chances : ScaleChances before) (operator : Operator) (pendingPeers : List Peer),
    scheduler.schedule before chances = some operator ∧
    after = before.carriedOut operator pendingPeers

theorem BasicCluster.Scalable.step {before after : BasicCluster}
    (scalable : before.Scalable) (step : CompletesScaling scheduler before after) :
    after.Scalable ∧ ScaledTo scheduler before after ∧
      after.distanceToBounds scheduler < before.distanceToBounds scheduler := by
  rcases step with ⟨chances, operator, pendingPeers, scheduled, rfl⟩
  rcases ScaleScheduler.of_schedule scheduled with ⟨region, ⟨target, adds⟩ | ⟨peer, removes⟩⟩
  · have found := scalable.keyed.getRegion_of_mem adds.member
    have puts := adds.putsPeers scalable pendingPeers
    have few := adds.few
    refine ⟨puts.scalable scalable, puts.scaledTo found (.succ few),
      puts.distanceToBounds_lt found ?_⟩
    unfold ScaleScheduler.distance
    omega
  · have found := scalable.keyed.getRegion_of_mem removes.member
    have puts := removes.putsPeers scalable pendingPeers
    have many := removes.many
    have enough := removes.enough
    refine ⟨puts.scalable scalable, puts.scaledTo found (.pred many enough),
      puts.distanceToBounds_lt found ?_⟩
    unfold ScaleScheduler.distance
    omega

/-- Every operator adds a peer to a region that has too few, or removes one that is not the
leader from a region that has too many. However many are carried out, no region goes across a
bound, and there are at most as many as peers are lacking or too many. -/
theorem scaling_converges {cluster : BasicCluster} (built : cluster.Built)
    (distinct : cluster.DistinctPeers) (scheduler : ScaleScheduler) :
    (∀ (chances : ScaleChances cluster) (operator : Operator),
      scheduler.schedule cluster chances = some operator →
      ∃ region, cluster.getRegion operator.regionId = some region ∧
        ((region.peers.length < scheduler.minPeerCount ∧
          ∃ target newPeerId now,
            operator = .createAddPeerOperator region target.id newPeerId now ∧
            cluster.getStore target.id = some target ∧ target.isUp = true ∧
            target.blocked = false ∧ target.id ∉ region.storesOf .peer ∧
            ∀ pendingPeers, ((cluster.carriedOut operator pendingPeers).getRegion
              region.id).map (·.peers.length) = some (region.peers.length + 1)) ∨
        (scheduler.maxPeerCount < region.peers.length ∧
          scheduler.minPeerCount < region.peers.length ∧
          ∃ peer ∈ region.peers, ∃ now,
            operator = .createRemovePeerOperator region peer.storeId now ∧
            region.getLeaderStoreId ≠ some peer.storeId ∧
            ∀ pendingPeers, ((cluster.carriedOut operator pendingPeers).getRegion
              region.id).map (·.peers.length) = some (region.peers.length - 1)))) ∧
    ∀ rest, List.IsChain (CompletesScaling scheduler) (cluster :: rest) →
      (∀ later ∈ rest, BasicCluster.ScaledTo scheduler cluster later) ∧
      rest.length ≤ cluster.distanceToBounds scheduler := by
  have scalable : cluster.Scalable := ⟨built.keyed, distinct⟩
  constructor
  · intro chances operator scheduled
    rcases ScaleScheduler.of_schedule scheduled with ⟨region, ⟨target, adds⟩ | ⟨peer, removes⟩⟩
    · have found := scalable.keyed.getRegion_of_mem adds.member
      rcases adds.made with ⟨newPeerId, now, made⟩
      have sameId : operator.regionId = region.id := congrArg Operator.regionId made
      exact ⟨region, sameId ▸ found, .inl ⟨adds.few, target, newPeerId, now, made,
        scalable.keyed.getStore_of_mem adds.targetKnown, adds.available.1, adds.available.2,
        adds.absent, fun pendingPeers => (adds.putsPeers scalable pendingPeers).getRegion⟩⟩
    · have found := scalable.keyed.getRegion_of_mem removes.member
      rcases removes.made with ⟨now, made⟩
      have sameId : operator.regionId = region.id := congrArg Operator.regionId made
      exact ⟨region, sameId ▸ found, .inr ⟨removes.many, removes.enough, peer, removes.present, now,
        made, removes.follows,
        fun pendingPeers => (removes.putsPeers scalable pendingPeers).getRegion⟩⟩
  · intro rest chain
    constructor
    · intro later member
      exact related_of_chain BasicCluster.Scalable (BasicCluster.ScaledTo scheduler)
        BasicCluster.ScaledTo.trans
        (fun scalable step => ⟨(scalable.step step).1, (scalable.step step).2.1⟩)
        scalable chain member
    · exact length_le_of_descent BasicCluster.Scalable (·.distanceToBounds scheduler)
        (fun scalable step => ⟨(scalable.step step).1, (scalable.step step).2.2⟩) scalable chain

/-! ## A region with one peer -/

namespace ClusterCall

def lonely : List ClusterCall := [registering 1, registering 2, registering 3, placing 7 1 5]

theorem lonely_region_gets_peer :
    (after lonely).distanceToBounds (.new 1) = 2 ∧
    ∃ operator, (ScaleScheduler.new 1).schedule (after lonely) (.plain _) = some operator ∧
      BasicCluster.ScaledTo (.new 1) (after lonely) ((after lonely).carriedOut operator []) ∧
      ((after lonely).carriedOut operator []).distanceToBounds (.new 1) = 1 := by
  have distinct : (after lonely).DistinctPeers := by
    unfold BasicCluster.DistinctPeers
    decide
  have converges := scaling_converges ⟨lonely, rfl⟩ distinct (.new 1)
  have some : ((ScaleScheduler.new 1).schedule (after lonely) (.plain _)).isSome := by
    decide
  have one : ∀ operator ∈ (ScaleScheduler.new 1).schedule (after lonely) (.plain _),
      ((after lonely).carriedOut operator []).distanceToBounds (.new 1) = 1 := by
    decide
  rcases Option.isSome_iff_exists.mp some with ⟨operator, scheduled⟩
  have chain : List.IsChain (CompletesScaling (.new 1))
      [after lonely, (after lonely).carriedOut operator []] :=
    isChain_pair.mpr ⟨_, _, _, scheduled, rfl⟩
  exact ⟨by decide, operator, scheduled, (converges.2 _ chain).1 _ mem_cons_self,
    one operator scheduled⟩

end ClusterCall

end AegisDB.Scheduler

import AegisDB.Foundation.Balancing
import AegisDB.Scheduler.Candidates
import AegisDB.Scheduler.MovePeer

/-! # Operators that are carried out

What becomes of a region that takes all steps of an operator, and of the shares that the
stores have in the regions. -/

namespace AegisDB.Scheduler

open Foundation Proto OrderedMap List

def Operator.carryOut (operator : Operator) (region : RegionInfo) : RegionInfo :=
  operator.steps.foldl (fun region step => region.execute (step.command region)) region

def BasicCluster.carriedOut (cluster : BasicCluster) (operator : Operator)
    (pendingPeers : List Peer) : BasicCluster :=
  match cluster.getRegion operator.regionId with
  | some region => cluster.putRegion { operator.carryOut region with pendingPeers }
  | none => cluster

theorem BasicCluster.carriedOut_eq {cluster : BasicCluster} {operator : Operator}
    {region : RegionInfo} (found : cluster.getRegion operator.regionId = some region)
    (pendingPeers : List Peer) :
    cluster.carriedOut operator pendingPeers =
      cluster.putRegion { operator.carryOut region with pendingPeers } := by
  rw [carriedOut, found]

/-! ## The stores of the region -/

namespace RegionInfo

variable {region : RegionInfo} {storeId : UInt64} {peer : Peer}

theorem getPeerByStoreId_eq_none (absent : storeId ∉ region.storesOf .peer) :
    region.getPeerByStoreId storeId = none := by
  rw [getPeerByStoreId, find?_eq_none]
  intro peer member same
  exact absent (mem_storesOf_peer.mpr ⟨peer, member, beq_iff_eq.mp same⟩)

theorem exists_getPeerByStoreId (present : storeId ∈ region.storesOf .peer) :
    ∃ peer ∈ region.peers, peer.storeId = storeId ∧
      region.getPeerByStoreId storeId = some peer := by
  rcases mem_storesOf_peer.mp present with ⟨other, member, store⟩
  rw [getPeerByStoreId]
  cases found : region.peers.find? (·.storeId == storeId) with
  | none => exact absurd (beq_iff_eq.mpr store) (find?_eq_none.mp found other member)
  | some peer =>
    have sameStore := find?_some found
    exact ⟨peer, mem_of_find?_eq_some found, beq_iff_eq.mp sameStore, rfl⟩

structure Rearranged (before after : RegionInfo) (peers : List UInt64) (leader : Option UInt64) :
    Prop where
  id : after.id = before.id
  size : after.size = before.size
  peers : after.storesOf .peer = peers
  leader : after.getLeaderStoreId = leader

namespace Rearranged

variable {before : RegionInfo} {peers : List UInt64} {leader : Option UInt64}

theorem refl (region : RegionInfo) :
    Rearranged region region (region.storesOf .peer) region.getLeaderStoreId :=
  ⟨rfl, rfl, rfl, rfl⟩

variable (rearranged : Rearranged before region peers leader)

include rearranged

theorem addPeer (absent : storeId ∉ peers) (peerId : UInt64) :
    Rearranged before (region.execute ((OpStep.addPeer storeId peerId).command region))
      (peers ++ [storeId]) leader := by
  have none := getPeerByStoreId_eq_none (rearranged.peers ▸ absent)
  have added : region.execute ((OpStep.addPeer storeId peerId).command region) =
      region.changePeers (region.peers ++ [⟨peerId, storeId⟩]) := by
    simp [OpStep.command, execute, none]
  rw [added]
  refine ⟨rearranged.id, rearranged.size, ?_, rearranged.leader⟩
  rw [← rearranged.peers]
  exact map_append

theorem transferLeader (present : storeId ∈ peers) (fromStore : UInt64) :
    Rearranged before (region.execute ((OpStep.transferLeader fromStore storeId).command region))
      peers (some storeId) := by
  rcases exists_getPeerByStoreId (rearranged.peers.symm ▸ present) with ⟨peer, member, store, found⟩
  have transferred : region.execute ((OpStep.transferLeader fromStore storeId).command region) =
      { region with leader := some peer } := by
    simp [OpStep.command, execute, found, member]
  rw [transferred]
  exact ⟨rearranged.id, rearranged.size, rearranged.peers, congrArg some store⟩

theorem removePeer (distinct : peers.Nodup) (present : storeId ∈ peers) :
    Rearranged before (region.execute ((OpStep.removePeer storeId).command region))
      (peers.filter (· ≠ storeId)) leader := by
  rw [← rearranged.peers] at distinct present
  rcases exists_getPeerByStoreId present with ⟨peer, member, store, found⟩
  have removed : region.execute ((OpStep.removePeer storeId).command region) =
      region.changePeers (region.peers.filter (· ≠ peer)) := by
    simp [OpStep.command, execute, found, member]
  rw [removed]
  refine ⟨rearranged.id, rearranged.size, ?_, rearranged.leader⟩
  rw [← rearranged.peers]
  change (region.peers.filter (· ≠ peer)).map Peer.storeId =
    (region.peers.map Peer.storeId).filter (· ≠ storeId)
  rw [filter_map]
  congr 1
  apply filter_congr
  intro other otherMember
  have same : other = peer ↔ other.storeId = storeId := by
    rw [← store]
    exact ⟨congrArg Peer.storeId, inj_on_of_nodup_map distinct otherMember member⟩
  simp [same]

theorem report (pendingPeers : List Peer) :
    Rearranged before { region with pendingPeers } peers leader :=
  ⟨rearranged.id, rearranged.size, rearranged.peers, rearranged.leader⟩

end Rearranged

end RegionInfo

namespace Operator

variable {region : RegionInfo} {fromStore toStore : UInt64}

open RegionInfo

theorem rearranged_addPeer (absent : toStore ∉ region.storesOf .peer) (peerId : UInt64)
    (now : Nat) :
    Rearranged region ((createAddPeerOperator region toStore peerId now).carryOut region)
      (region.storesOf .peer ++ [toStore]) region.getLeaderStoreId :=
  (Rearranged.refl region).addPeer absent peerId

theorem rearranged_removePeer (distinct : (region.storesOf .peer).Nodup)
    (present : fromStore ∈ region.storesOf .peer) (now : Nat) :
    Rearranged region ((createRemovePeerOperator region fromStore now).carryOut region)
      ((region.storesOf .peer).filter (· ≠ fromStore)) region.getLeaderStoreId :=
  (Rearranged.refl region).removePeer distinct present

theorem rearranged_transferLeader (present : toStore ∈ region.storesOf .peer) (fromStore : UInt64)
    (now : Nat) :
    Rearranged region ((createTransferLeaderOperator region fromStore toStore now).carryOut region)
      (region.storesOf .peer) (some toStore) :=
  (Rearranged.refl region).transferLeader present fromStore

theorem rearranged_movePeer (distinct : (region.storesOf .peer).Nodup)
    (present : fromStore ∈ region.storesOf .peer) (absent : toStore ∉ region.storesOf .peer)
    (newPeerId : UInt64) (now : Nat) :
    Rearranged region
      ((createMovePeerOperator region fromStore toStore newPeerId now).carryOut region)
      ((region.storesOf .peer).filter (· ≠ fromStore) ++ [toStore])
      (if region.getLeaderStoreId = some fromStore then some toStore
        else region.getLeaderStoreId) := by
  have different : toStore ≠ fromStore := fun same => absent (same ▸ present)
  have stores : (region.storesOf .peer ++ [toStore]).filter (· ≠ fromStore) =
      (region.storesOf .peer).filter (· ≠ fromStore) ++ [toStore] := by
    simp [different]
  have nodup : (region.storesOf .peer ++ [toStore]).Nodup := by
    rw [nodup_append_comm]
    exact nodup_cons.mpr ⟨absent, distinct⟩
  have added := (Rearranged.refl region).addPeer absent newPeerId
  rw [← stores]
  by_cases leads : region.getLeaderStoreId = some fromStore
  · rw [if_pos leads]
    have moved := (added.transferLeader (mem_append_right _ mem_cons_self)
      fromStore).removePeer nodup (mem_append_left _ present)
    simpa [carryOut, createMovePeerOperator, new, leads] using moved
  · rw [if_neg leads]
    have moved := added.removePeer nodup (mem_append_left _ present)
    simpa [carryOut, createMovePeerOperator, new, leads] using moved

end Operator

/-! ## The shares of the stores -/

namespace BasicCluster

variable {cluster : BasicCluster} {region old : RegionInfo} {placement : Placement}
  {weight : RegionInfo → Nat}

theorem totalSize_putRegion (found : cluster.getRegion region.id = some old)
    (weight : RegionInfo → Nat) :
    totalSize weight (cluster.putRegion region).getRegions + weight old =
      totalSize weight cluster.getRegions + weight region := by
  have after : (cluster.putRegion region).getRegions.Perm
      (region :: (cluster.regions.erase region.id).values) := by
    rw [getRegions, regions_putRegion]
    exact (cluster.regions.entries_insert_perm region.id region).map Prod.snd
  have before : cluster.getRegions.Perm (old :: (cluster.regions.erase region.id).values) := by
    have order := (cluster.regions.entries_insert_perm region.id old).map Prod.snd
    rw [insert_of_present found] at order
    exact order
  rw [totalSize_perm after, totalSize_perm before, totalSize_cons, totalSize_cons]
  omega

theorem share_putRegion (found : cluster.getRegion region.id = some old) (placement : Placement)
    (weight : RegionInfo → Nat) (storeId : UInt64) :
    (cluster.putRegion region).share placement weight storeId +
        old.share placement weight storeId =
      cluster.share placement weight storeId + region.share placement weight storeId :=
  totalSize_putRegion found (·.share placement weight storeId)

structure SharesMove (placement : Placement) (weight : RegionInfo → Nat) (old region : RegionInfo)
    (source target : UInt64) (amount : Nat) : Prop where
  fromSource : old.share placement weight source = amount
  nothingLeft : region.share placement weight source = 0
  nothingYet : old.share placement weight target = 0
  toTarget : region.share placement weight target = amount
  others : ∀ storeId, storeId ≠ source → storeId ≠ target →
    region.share placement weight storeId = old.share placement weight storeId

variable {source target : UInt64} {amount : Nat}

theorem SharesMove.loadMove (moves : SharesMove placement weight old region source target amount)
    (found : cluster.getRegion region.id = some old) :
    LoadMove (cluster.share placement weight) ((cluster.putRegion region).share placement weight)
      source target amount where
  given := by
    have balance := share_putRegion found placement weight source
    rw [moves.fromSource, moves.nothingLeft] at balance
    exact balance
  taken := by
    have balance := share_putRegion found placement weight target
    rw [moves.nothingYet, moves.toTarget] at balance
    exact balance
  others storeId notSource notTarget := by
    have balance := share_putRegion found placement weight storeId
    rw [moves.others storeId notSource notTarget] at balance
    exact Nat.add_right_cancel balance

theorem sharesMove_of_movePeer {leader : Option UInt64}
    (rearranged : RegionInfo.Rearranged old region
      ((old.storesOf .peer).filter (· ≠ source) ++ [target]) leader)
    (distinct : (old.storesOf .peer).Nodup) (present : source ∈ old.storesOf .peer)
    (absent : target ∉ old.storesOf .peer) :
    SharesMove .peer RegionInfo.size old region source target old.size := by
  have different : source ≠ target := fun same => absent (same ▸ present)
  have count (storeId : UInt64) : (region.storesOf .peer).count storeId =
      ((old.storesOf .peer).filter (· ≠ source)).count storeId + [target].count storeId := by
    rw [rearranged.peers, count_append]
  refine ⟨?_, ?_, ?_, ?_, ?_⟩
  · rw [RegionInfo.share_of_nodup distinct, if_pos present]
  · rw [RegionInfo.share, count, count_eq_zero.mpr (by simp),
      count_eq_zero.mpr (by simpa using different), Nat.zero_add, Nat.zero_mul]
  · rw [RegionInfo.share_of_nodup distinct, if_neg absent]
  · have none : ((old.storesOf .peer).filter (· ≠ source)).count target = 0 :=
      count_eq_zero.mpr fun member => absent (mem_of_mem_filter member)
    rw [RegionInfo.share, count, none, count_singleton_self, Nat.zero_add, Nat.one_mul,
      rearranged.size]
  · intro storeId notSource notTarget
    have none : [target].count storeId = 0 :=
      count_eq_zero.mpr (by simpa using notTarget)
    rw [RegionInfo.share, RegionInfo.share, count, none,
      count_filter (by simpa using notSource), Nat.add_zero, rearranged.size]

theorem sharesMove_of_transferLeader {peers : List UInt64}
    (rearranged : RegionInfo.Rearranged old region peers (some target))
    (leads : old.getLeaderStoreId = some source) (different : target ≠ source) :
    SharesMove .leader (fun _ => 1) old region source target 1 := by
  have before : old.storesOf .leader = [source] := by
    rw [RegionInfo.storesOf, leads, Option.toList_some]
  have after : region.storesOf .leader = [target] := by
    rw [RegionInfo.storesOf, rearranged.leader, Option.toList_some]
  have elsewhere {storeId other : UInt64} (ne : storeId ≠ other) : [other].count storeId = 0 :=
    count_eq_zero.mpr (by simpa using ne)
  refine ⟨?_, ?_, ?_, ?_, ?_⟩
  · rw [RegionInfo.share, before, count_singleton_self]
  · rw [RegionInfo.share, after, elsewhere different.symm, Nat.zero_mul]
  · rw [RegionInfo.share, before, elsewhere different, Nat.zero_mul]
  · rw [RegionInfo.share, after, count_singleton_self]
  · intro storeId notSource notTarget
    rw [RegionInfo.share, RegionInfo.share, before, after, elsewhere notSource,
      elsewhere notTarget]

/-! ## The sum of squares -/

def sumOfSquares (cluster : BasicCluster) (load : StoreInfo → Nat) : Nat :=
  totalSize (fun store => load store ^ 2) cluster.getStores

variable {load : StoreInfo → Nat}

theorem sumOfSquares_eq (loads : ∀ storeId store, cluster.getStore storeId = some store →
      load store = cluster.share placement weight storeId) :
    cluster.sumOfSquares load =
      totalSize (fun storeId => cluster.share placement weight storeId ^ 2)
        cluster.stores.keys := by
  rw [sumOfSquares, getStores, OrderedMap.values, OrderedMap.keys, totalSize_map, totalSize_map]
  apply totalSize_congr
  intro entry member
  rw [loads entry.1 entry.2 (get?_eq_some_iff.mpr member)]

theorem isSome_getStore_putRegion (storeId : UInt64) :
    ((cluster.putRegion region).getStore storeId).isSome = (cluster.getStore storeId).isSome := by
  rw [getStore_putRegion, Option.isSome_map]

theorem keys_putRegion_perm : (cluster.putRegion region).stores.keys.Perm cluster.stores.keys := by
  apply (perm_ext_iff_of_nodup (keys_nodup _) (keys_nodup _)).mpr
  intro storeId
  rw [mem_keys_iff, mem_keys_iff]
  exact Bool.eq_iff_iff.mp (isSome_getStore_putRegion storeId)

theorem SharesMove.sumOfSquares_lt
    (moves : SharesMove placement weight old region source target amount)
    (found : cluster.getRegion region.id = some old)
    (before : ∀ storeId store, cluster.getStore storeId = some store →
      load store = cluster.share placement weight storeId)
    (after : ∀ storeId store, (cluster.putRegion region).getStore storeId = some store →
      load store = (cluster.putRegion region).share placement weight storeId)
    (sourceKnown : (cluster.getStore source).isSome)
    (targetKnown : (cluster.getStore target).isSome) (positive : 0 < amount)
    (lighter : cluster.share placement weight target + amount <
      cluster.share placement weight source) :
    (cluster.putRegion region).sumOfSquares load < cluster.sumOfSquares load := by
  rw [sumOfSquares_eq before, sumOfSquares_eq after, totalSize_perm keys_putRegion_perm]
  exact (moves.loadMove found).totalSquares_lt (keys_nodup _)
    (mem_keys_iff.mpr sourceKnown) (mem_keys_iff.mpr targetKnown) positive
    lighter

end BasicCluster

end AegisDB.Scheduler

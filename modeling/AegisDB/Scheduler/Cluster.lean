import AegisDB.Foundation.InvertedIndex
import AegisDB.Proto.Metapb
import Mathlib.Data.UInt

/-! # The cluster as the scheduler sees it

`scheduler/cluster`: stores and regions, and for each store the regions that have a peer or
their leader there. A region is put in three critical sections: its old value is read, the
mappings of that value are removed, and the new value is inserted with its mappings. -/

namespace AegisDB.Scheduler

open Foundation Proto

/-! ## Regions and stores -/

structure RegionInfo where
  region : Region
  leader : Option Peer
  pendingPeers : List Peer
  approximateSize : UInt64
deriving DecidableEq, Repr

namespace RegionInfo

def new (region : Region) (leader : Option Peer) : RegionInfo where
  region
  leader
  pendingPeers := []
  approximateSize := 1

def id (info : RegionInfo) : UInt64 := info.region.id

def peers (info : RegionInfo) : List Peer := info.region.peers

def addPendingPeer (info : RegionInfo) (peer : Peer) : RegionInfo :=
  { info with pendingPeers := info.pendingPeers ++ [peer] }

def setApproximateSize (info : RegionInfo) (size : UInt64) : RegionInfo :=
  { info with approximateSize := size }

def epoch (info : RegionInfo) : RegionEpoch := info.region.epoch

def getLeaderStoreId (info : RegionInfo) : Option UInt64 := info.leader.map Peer.storeId

def getPeerByStoreId (info : RegionInfo) (storeId : UInt64) : Option Peer :=
  info.peers.find? (·.storeId == storeId)

def getStoreIds (info : RegionInfo) : List UInt64 := info.peers.map Peer.storeId

def getFollowerStoreIds (info : RegionInfo) : List UInt64 :=
  info.getStoreIds.filter fun storeId => some storeId ≠ info.getLeaderStoreId

def hasPendingPeers (info : RegionInfo) : Bool := !info.pendingPeers.isEmpty

def isHealthy (info : RegionInfo) : Bool := info.pendingPeers.isEmpty

end RegionInfo

structure StoreInfo where
  id : UInt64
  address : String
  state : Int32
  leaderCount : Nat
  regionCount : Nat
  leaderSize : UInt64
  regionSize : UInt64
  lastHeartbeat : Nat
  blocked : Bool
deriving DecidableEq, Repr

namespace StoreInfo

def new (id : UInt64) (address : String) (state : Int32) (now : Nat) : StoreInfo where
  id
  address
  state
  leaderCount := 0
  regionCount := 0
  leaderSize := 0
  regionSize := 0
  lastHeartbeat := now
  blocked := false

def resetStats (store : StoreInfo) : StoreInfo :=
  { store with regionCount := 0, leaderCount := 0, regionSize := 0, leaderSize := 0 }

def addRegion (store : StoreInfo) (size : UInt64) : StoreInfo :=
  { store with regionCount := store.regionCount + 1, regionSize := store.regionSize + size }

def addLeader (store : StoreInfo) (size : UInt64) : StoreInfo :=
  { store with leaderCount := store.leaderCount + 1, leaderSize := store.leaderSize + size }

end StoreInfo

/-! ## The cluster -/

structure BasicCluster where
  stores : OrderedMap UInt64 StoreInfo
  regions : OrderedMap UInt64 RegionInfo
  storeRegions : InvertedIndex UInt64 UInt64
  storeLeaders : InvertedIndex UInt64 UInt64

namespace BasicCluster

def new : BasicCluster where
  stores := .empty
  regions := .empty
  storeRegions := .empty
  storeLeaders := .empty

def getStores (cluster : BasicCluster) : List StoreInfo := cluster.stores.values

def getStore (cluster : BasicCluster) (storeId : UInt64) : Option StoreInfo :=
  cluster.stores.get? storeId

def putStore (cluster : BasicCluster) (store : StoreInfo) : BasicCluster :=
  { cluster with stores := cluster.stores.insert store.id store }

def getRegions (cluster : BasicCluster) : List RegionInfo := cluster.regions.values

def getRegion (cluster : BasicCluster) (regionId : UInt64) : Option RegionInfo :=
  cluster.regions.get? regionId

def removeMappings (cluster : BasicCluster) (regionId : UInt64) : Option RegionInfo → BasicCluster
  | none => cluster
  | some old =>
    { cluster with
      storeRegions := cluster.storeRegions.drop regionId (old.peers.map Peer.storeId)
      storeLeaders := cluster.storeLeaders.drop regionId old.getLeaderStoreId.toList }

def insertRegion (cluster : BasicCluster) (region : RegionInfo) : BasicCluster :=
  { cluster with
    regions := cluster.regions.insert region.id region
    storeRegions := cluster.storeRegions.add region.id (region.peers.map Peer.storeId)
    storeLeaders := cluster.storeLeaders.add region.id region.getLeaderStoreId.toList }

def changeStore (stores : OrderedMap UInt64 StoreInfo) (storeId : UInt64)
    (change : StoreInfo → StoreInfo) : OrderedMap UInt64 StoreInfo :=
  match stores.get? storeId with
  | some store => stores.insert storeId (change store)
  | none => stores

def countRegion (stores : OrderedMap UInt64 StoreInfo) (region : RegionInfo) :
    OrderedMap UInt64 StoreInfo :=
  let stores := region.peers.foldl
    (fun stores peer => changeStore stores peer.storeId (·.addRegion region.approximateSize)) stores
  match region.getLeaderStoreId with
  | some storeId => changeStore stores storeId (·.addLeader region.approximateSize)
  | none => stores

def updateStoreStats (cluster : BasicCluster) : BasicCluster :=
  { cluster with
    stores := cluster.getRegions.foldl countRegion
      (cluster.stores.mapValues StoreInfo.resetStats) }

def putRegion (cluster : BasicCluster) (region : RegionInfo) : BasicCluster :=
  let old := cluster.getRegion region.id
  ((cluster.removeMappings region.id old).insertRegion region).updateStoreStats

def getStoreRegionCount (cluster : BasicCluster) (storeId : UInt64) : Nat :=
  ((cluster.storeRegions.get? storeId).map Finset.card).getD 0

def getStoreLeaderCount (cluster : BasicCluster) (storeId : UInt64) : Nat :=
  ((cluster.storeLeaders.get? storeId).map Finset.card).getD 0

end BasicCluster

/-! ## The two indexes -/

inductive Placement where
  | peer
  | leader
deriving DecidableEq, Repr

namespace RegionInfo

def storesOf (info : RegionInfo) : Placement → List UInt64
  | .peer => info.peers.map Peer.storeId
  | .leader => info.getLeaderStoreId.toList

variable {info : RegionInfo} {storeId : UInt64}

theorem mem_storesOf_peer :
    storeId ∈ info.storesOf .peer ↔ ∃ peer ∈ info.peers, peer.storeId = storeId := by
  simp [storesOf]

theorem mem_storesOf_leader :
    storeId ∈ info.storesOf .leader ↔ info.getLeaderStoreId = some storeId := by
  simp [storesOf]

end RegionInfo

namespace BasicCluster

def index (cluster : BasicCluster) : Placement → InvertedIndex UInt64 UInt64
  | .peer => cluster.storeRegions
  | .leader => cluster.storeLeaders

def storesOf? (placement : Placement) (info : Option RegionInfo) : List UInt64 :=
  InvertedIndex.groupsOf? (·.storesOf placement) info

def ExactAt (cluster : BasicCluster) (regionId : UInt64) : Prop :=
  ∀ placement, (cluster.index placement).ExactAt cluster.regions (·.storesOf placement) regionId

theorem index_removeMappings (cluster : BasicCluster) (regionId : UInt64)
    (old : Option RegionInfo) (placement : Placement) :
    (cluster.removeMappings regionId old).index placement =
      (cluster.index placement).drop regionId (storesOf? placement old) := by
  cases old with
  | none => rfl
  | some old => cases placement <;> rfl

theorem index_insertRegion (cluster : BasicCluster) (region : RegionInfo) (placement : Placement) :
    (cluster.insertRegion region).index placement =
      (cluster.index placement).add region.id (region.storesOf placement) := by
  cases placement <;> rfl

theorem regions_removeMappings (cluster : BasicCluster) (regionId : UInt64)
    (old : Option RegionInfo) :
    (cluster.removeMappings regionId old).regions = cluster.regions := by
  cases old <;> rfl

theorem regions_putRegion (cluster : BasicCluster) (region : RegionInfo) :
    (cluster.putRegion region).regions = cluster.regions.insert region.id region := by
  change (cluster.removeMappings region.id (cluster.getRegion region.id)).regions.insert _ _ = _
  rw [regions_removeMappings]

variable {cluster : BasicCluster} {regionId : UInt64}

theorem ExactAt.updateStoreStats
    (exact : cluster.ExactAt regionId) : cluster.updateStoreStats.ExactAt regionId := by
  intro placement
  cases placement with
  | peer => exact exact .peer
  | leader => exact exact .leader

theorem ExactAt.putStore (store : StoreInfo)
    (exact : cluster.ExactAt regionId) : (cluster.putStore store).ExactAt regionId := by
  intro placement
  cases placement with
  | peer => exact exact .peer
  | leader => exact exact .leader

theorem ExactAt.putRegion (region : RegionInfo)
    (exact : cluster.ExactAt regionId) : (cluster.putRegion region).ExactAt regionId := by
  apply ExactAt.updateStoreStats
  intro placement
  rw [index_insertRegion, index_removeMappings]
  have regions : ((cluster.removeMappings region.id (cluster.getRegion region.id)).insertRegion
      region).regions = cluster.regions.insert region.id region :=
    regions_putRegion cluster region
  rw [regions]
  exact (exact placement).put region

theorem ExactAt.mem_items_iff {storeId : UInt64}
    (exact : cluster.ExactAt regionId) (placement : Placement) :
    regionId ∈ (cluster.index placement).items storeId ↔
      ∃ region, cluster.getRegion regionId = some region ∧ storeId ∈ region.storesOf placement := by
  rw [exact placement storeId, InvertedIndex.groupsOf?, getRegion]
  cases cluster.regions.get? regionId with
  | none => simp
  | some region => simp

theorem card_items (exact : ∀ regionId, cluster.ExactAt regionId)
    (placement : Placement) (storeId : UInt64) :
    ((cluster.index placement).items storeId).card =
      (cluster.regions.keysWhere fun region => storeId ∈ region.storesOf placement).length := by
  have items : (cluster.index placement).items storeId =
      (cluster.regions.keysWhere fun region => storeId ∈ region.storesOf placement).toFinset := by
    ext regionId
    rw [List.mem_toFinset, OrderedMap.mem_keysWhere]
    exact ((exact regionId).mem_items_iff placement).trans (by simp [getRegion])
  rw [items, List.toFinset_card_of_nodup (OrderedMap.keysWhere_nodup _ _)]

theorem getStoreRegionCount_eq_card (cluster : BasicCluster) (storeId : UInt64) :
    cluster.getStoreRegionCount storeId = ((cluster.index .peer).items storeId).card := by
  rw [getStoreRegionCount, index, InvertedIndex.items]
  cases cluster.storeRegions.get? storeId <;> rfl

theorem getStoreLeaderCount_eq_card (cluster : BasicCluster) (storeId : UInt64) :
    cluster.getStoreLeaderCount storeId = ((cluster.index .leader).items storeId).card := by
  rw [getStoreLeaderCount, index, InvertedIndex.items]
  cases cluster.storeLeaders.get? storeId <;> rfl

end BasicCluster

/-! ## Sequences of calls -/

inductive ClusterCall where
  | putStore (store : StoreInfo)
  | putRegion (region : RegionInfo)

namespace ClusterCall

def act (cluster : BasicCluster) : ClusterCall → BasicCluster
  | .putStore store => cluster.putStore store
  | .putRegion region => cluster.putRegion region

def after (calls : List ClusterCall) : BasicCluster := calls.foldl act .new

end ClusterCall

namespace BasicCluster

theorem ExactAt.act {cluster : BasicCluster} {regionId : UInt64} (call : ClusterCall)
    (exact : cluster.ExactAt regionId) : (call.act cluster).ExactAt regionId := by
  cases call with
  | putStore store => exact exact.putStore store
  | putRegion region => exact exact.putRegion region

theorem exactAt_after (calls : List ClusterCall) (regionId : UInt64) :
    (ClusterCall.after calls).ExactAt regionId := by
  have run : ∀ {cluster : BasicCluster}, cluster.ExactAt regionId →
      (calls.foldl ClusterCall.act cluster).ExactAt regionId := by
    induction calls with
    | nil => exact fun exact => exact
    | cons call rest induction => exact fun exact => induction (exact.act call)
  apply run
  intro placement
  cases placement <;> exact InvertedIndex.ExactAt.empty

/-- The regions mapped to a store are those that have a peer, or their leader, there. -/
theorem mappings_after (calls : List ClusterCall) (storeId regionId : UInt64) :
    (regionId ∈ (ClusterCall.after calls).storeRegions.items storeId ↔
      ∃ region, (ClusterCall.after calls).getRegion regionId = some region ∧
        ∃ peer ∈ region.peers, peer.storeId = storeId) ∧
    (regionId ∈ (ClusterCall.after calls).storeLeaders.items storeId ↔
      ∃ region, (ClusterCall.after calls).getRegion regionId = some region ∧
        region.getLeaderStoreId = some storeId) := by
  have exact := exactAt_after calls regionId
  constructor
  · exact (exact.mem_items_iff .peer).trans (by simp only [RegionInfo.mem_storesOf_peer])
  · exact (exact.mem_items_iff .leader).trans (by simp only [RegionInfo.mem_storesOf_leader])

end BasicCluster

end AegisDB.Scheduler

import AegisDB.Foundation.Transition
import AegisDB.Raftstore.Region
import AegisDB.Scheduler.HeartbeatStreams
import AegisDB.Scheduler.OperatorController
import Mathlib.Order.WithBot

/-! # Region heartbeats at the placement driver

`pd/state.rs`. A heartbeat replaces what is known of its region, whatever its epoch, so that
the stored epochs only grow if the heartbeats come in that order. -/

namespace AegisDB.Pd

open Foundation Proto Scheduler Raftstore

structure RequestHeader where
  senderId : UInt64
deriving DecidableEq, Repr

structure RegionHeartbeatRequest where
  header : Option RequestHeader
  region : Option Region
  leader : Option Peer
  pendingPeers : List Peer
  approximateSize : UInt64
deriving DecidableEq, Repr

structure PdState where
  cluster : BasicCluster
  heartbeatStreams : SimpleHeartbeatStreams
  operatorController : OperatorController

namespace PdState

def new : PdState where
  cluster := .new
  heartbeatStreams := .new
  operatorController := .new

def bindRegionStream (state : PdState) (storeId : UInt64) (sender : Sender) : PdState :=
  { state with heartbeatStreams := state.heartbeatStreams.bindStream storeId sender }

def unbindRegionStream (state : PdState) (storeId : UInt64) : PdState :=
  { state with heartbeatStreams := state.heartbeatStreams.unbindStream storeId }

def dispatch (state : PdState) (region : RegionInfo) (source : String) (now : Nat) : PdState :=
  let result := state.operatorController.dispatch region source now
  let state := { state with operatorController := result.1 }
  match result.2 with
  | some message =>
    { state with heartbeatStreams := state.heartbeatStreams.sendMsg region message }
  | none => state

def regionInfo (request : RegionHeartbeatRequest) (region : Region) (leader : Peer) : RegionInfo :=
  (request.pendingPeers.foldl RegionInfo.addPendingPeer
    (.new region (some leader))).setApproximateSize request.approximateSize

def handleRegionHeartbeat (state : PdState) (request : RegionHeartbeatRequest) (now : Nat) :
    PdState × Except String Unit :=
  match request.header with
  | none => (state, .error "region heartbeat missing header")
  | some header =>
    match request.region with
    | none => (state, .error "region heartbeat missing region")
    | some region =>
      match request.leader with
      | none => (state, .error "region heartbeat missing leader")
      | some leader =>
        let info := regionInfo request region leader
        let state := { state with cluster := state.cluster.putRegion info }
        let state := state.dispatch info "heartbeat" now
        if state.heartbeatStreams.hasStream header.senderId then
          (state, .ok ())
        else
          (state, .error (s!"heartbeat stream for store {header.senderId} missing; " ++
            "PD should have bound before processing"))

/-! ## The stored regions -/

@[simp] theorem cluster_dispatch (state : PdState) (region : RegionInfo) (source : String)
    (now : Nat) : (state.dispatch region source now).cluster = state.cluster := by
  rw [dispatch]
  dsimp only
  split <;> rfl

theorem foldl_addPendingPeer (peers : List Peer) (info : RegionInfo) :
    peers.foldl RegionInfo.addPendingPeer info =
      { info with pendingPeers := info.pendingPeers ++ peers } := by
  induction peers generalizing info with
  | nil => simp
  | cons peer rest induction => simp [induction, RegionInfo.addPendingPeer]

theorem regionInfo_eq (request : RegionHeartbeatRequest) (region : Region) (leader : Peer) :
    regionInfo request region leader =
      { region
        leader := some leader
        pendingPeers := request.pendingPeers
        approximateSize := request.approximateSize } := by
  rw [regionInfo, foldl_addPendingPeer]
  rfl

@[simp] theorem region_regionInfo (request : RegionHeartbeatRequest) (region : Region)
    (leader : Peer) : (regionInfo request region leader).region = region := by
  rw [regionInfo_eq]

def completeRegion (request : RegionHeartbeatRequest) : Option Region :=
  match request.header, request.region, request.leader with
  | some _, some region, some _ => some region
  | _, _, _ => none

def storedRegion (state : PdState) (regionId : UInt64) : Option Region :=
  (state.cluster.getRegion regionId).map RegionInfo.region

theorem storedRegion_handleRegionHeartbeat (state : PdState) (request : RegionHeartbeatRequest)
    (now : Nat) (regionId : UInt64) :
    (state.handleRegionHeartbeat request now).1.storedRegion regionId =
      match completeRegion request with
      | some region => if regionId = region.id then some region else state.storedRegion regionId
      | none => state.storedRegion regionId := by
  rcases request with ⟨header, region, leader, pendingPeers, approximateSize⟩
  cases header with
  | none => rfl
  | some header =>
    cases region with
    | none => rfl
    | some region =>
      cases leader with
      | none => rfl
      | some leader =>
        simp only [handleRegionHeartbeat, completeRegion, storedRegion,
          BasicCluster.getRegion]
        split <;>
          simp only [cluster_dispatch, BasicCluster.regions_putRegion, OrderedMap.get?_insert,
            RegionInfo.id, region_regionInfo] <;>
          split <;> simp

/-! ## Sequences of heartbeats -/

def heartbeat (state : PdState) (input : RegionHeartbeatRequest × Nat) : PdState :=
  (state.handleRegionHeartbeat input.1 input.2).1

def after (start : PdState) (inputs : List (RegionHeartbeatRequest × Nat)) : PdState :=
  inputs.foldl heartbeat start

def NeverGoesBack (start : PdState) (inputs : List (RegionHeartbeatRequest × Nat)) : Prop :=
  ∀ earlier later, earlier <+: later → later <+: inputs → ∀ regionId old new,
    (start.after earlier).storedRegion regionId = some old →
    (start.after later).storedRegion regionId = some new →
      isEpochStale new.epoch old.epoch = false

def Fresh (state : PdState) (input : RegionHeartbeatRequest × Nat) : Prop :=
  ∀ region stored, completeRegion input.1 = some region →
    state.storedRegion region.id = some stored → isEpochStale region.epoch stored.epoch = false

def storedRank (state : PdState) (regionId : UInt64) : WithBot (UInt64 ×ₗ UInt64) :=
  match state.storedRegion regionId with
  | none => ⊥
  | some region => region.epoch.rank

theorem isEpochStale_eq_false_iff {epoch other : RegionEpoch} :
    isEpochStale epoch other = false ↔ other.rank ≤ epoch.rank := by
  rw [← Bool.not_eq_true, isEpochStale_iff, not_lt]

theorem storedRank_le_heartbeat {state : PdState} {input : RegionHeartbeatRequest × Nat}
    (fresh : state.Fresh input) (regionId : UInt64) :
    state.storedRank regionId ≤ (state.heartbeat input).storedRank regionId := by
  rw [storedRank, storedRank, heartbeat, storedRegion_handleRegionHeartbeat]
  cases complete : completeRegion input.1 with
  | none => exact le_rfl
  | some region =>
    by_cases same : regionId = region.id
    · cases stored : state.storedRegion regionId with
      | none => exact bot_le
      | some old =>
        rw [same] at stored
        simpa [same] using isEpochStale_eq_false_iff.mp (fresh region old complete stored)
    · simp [same]

/-- The view of the regions never goes back just when no heartbeat is older than what is
stored when it arrives. -/
theorem neverGoesBack_iff (start : PdState) (inputs : List (RegionHeartbeatRequest × Nat)) :
    start.NeverGoesBack inputs ↔ Guarded heartbeat Fresh start inputs := by
  constructor
  · intro never
    apply guarded_of_holds
    intro past input isPrefix region stored complete found
    refine never past (past ++ [input]) (List.prefix_append past [input]) isPrefix region.id
      stored region found ?_
    rw [after, List.foldl_append, List.foldl_cons, List.foldl_nil, heartbeat,
      storedRegion_handleRegionHeartbeat, complete]
    exact if_pos rfl
  · intro guarded earlier later isEarlier isPrefix regionId old new foundOld foundNew
    have monotone : (start.after earlier).storedRank regionId ≤
        (start.after later).storedRank regionId :=
      guarded.monotone (fun state => state.storedRank regionId)
        (fun fresh => storedRank_le_heartbeat fresh regionId) isEarlier isPrefix
    rw [storedRank, storedRank, foundOld, foundNew] at monotone
    exact isEpochStale_eq_false_iff.mpr (WithBot.coe_le_coe.mp monotone)

/-! ## A delayed heartbeat -/

def versioned (version : UInt64) : Region where
  id := 1
  startKey := []
  endKey := []
  regionEpoch := some { confVer := 1, version }
  peers := [⟨1, 1⟩]

def reporting (version : UInt64) : RegionHeartbeatRequest where
  header := some ⟨1⟩
  region := some (versioned version)
  leader := some ⟨1, 1⟩
  pendingPeers := []
  approximateSize := 1

/-- The heartbeat of version 1 comes after that of version 2, and replaces it. -/
theorem delayed_heartbeat_replaces :
    (PdState.new.after [(reporting 2, 0)]).storedRegion 1 = some (versioned 2) ∧
    (PdState.new.after [(reporting 2, 0), (reporting 1, 1)]).storedRegion 1 =
      some (versioned 1) ∧
    isEpochStale (versioned 1).epoch (versioned 2).epoch = true := by
  decide

end PdState

end AegisDB.Pd

import AegisDB.Scheduler.Cluster

/-! # Operators

`scheduler/operator`: a plan for one region, as steps that are looked for in the region's
heartbeats one after another, and the commands that ask a region's leader to take them. Times
are nanoseconds. -/

namespace AegisDB.Scheduler

open Foundation Proto

/-! ## Commands -/

inductive ConfChangeType where
  | addNode
  | removeNode
deriving DecidableEq, Repr

structure ChangePeer where
  peer : Option Peer
  changeType : ConfChangeType
deriving DecidableEq, Repr

structure RegionHeartbeatResponse where
  changePeer : Option ChangePeer
  transferLeader : Option Peer
  regionId : UInt64
  regionEpoch : Option RegionEpoch
deriving DecidableEq, Repr

/-! ## Steps -/

inductive OpKind where
  | region
  | leader
  | admin
deriving DecidableEq, Repr

inductive OpStep where
  | addPeer (toStore peerId : UInt64)
  | removePeer (fromStore : UInt64)
  | transferLeader (fromStore toStore : UInt64)
deriving DecidableEq, Repr

namespace OpStep

def confVerChanged (region : RegionInfo) : OpStep → Bool
  | .addPeer toStore peerId =>
    region.peers.any fun peer => peer.id == peerId && peer.storeId == toStore
  | .removePeer fromStore => !region.peers.any fun peer => peer.storeId == fromStore
  | .transferLeader _ _ => false

def isFinish (region : RegionInfo) : OpStep → Bool
  | .addPeer toStore peerId =>
    (region.peers.any fun peer => peer.id == peerId && peer.storeId == toStore) &&
      !region.pendingPeers.any fun peer => peer.id == peerId
  | .removePeer fromStore => !region.peers.any fun peer => peer.storeId == fromStore
  | .transferLeader _ toStore => region.getLeaderStoreId == some toStore

def command (region : RegionInfo) (step : OpStep) : RegionHeartbeatResponse :=
  let response : RegionHeartbeatResponse := {
    changePeer := none
    transferLeader := none
    regionId := region.id
    regionEpoch := some region.epoch }
  match step with
  | .transferLeader _ toStore =>
    match region.getPeerByStoreId toStore with
    | some peer => { response with transferLeader := some peer }
    | none => response
  | .addPeer toStore peerId =>
    match region.getPeerByStoreId toStore with
    | some _ => response
    | none =>
      let peer : Peer := { id := peerId, storeId := toStore }
      { response with changePeer := some { peer := some peer, changeType := .addNode } }
  | .removePeer fromStore =>
    match region.getPeerByStoreId fromStore with
    | some peer =>
      { response with changePeer := some { peer := some peer, changeType := .removeNode } }
    | none => response

end OpStep

/-! ## Operators -/

structure Operator where
  regionId : UInt64
  regionEpoch : RegionEpoch
  kind : OpKind
  steps : List OpStep
  currentStep : Nat
  createTime : Nat
  startTime : Option Nat
deriving DecidableEq, Repr

def seconds (count : Nat) : Nat := count * 1000000000

namespace Operator

def new (regionId : UInt64) (regionEpoch : RegionEpoch) (kind : OpKind) (steps : List OpStep)
    (now : Nat) : Operator where
  regionId
  regionEpoch
  kind
  steps
  currentStep := 0
  createTime := now
  startTime := none

def createMovePeerOperator (region : RegionInfo) (fromStore toStore newPeerId : UInt64)
    (now : Nat) : Operator :=
  let transfer : List OpStep :=
    if region.getLeaderStoreId = some fromStore then [.transferLeader fromStore toStore] else []
  new region.id region.epoch .region
    (.addPeer toStore newPeerId :: transfer ++ [.removePeer fromStore]) now

def createTransferLeaderOperator (region : RegionInfo) (fromStore toStore : UInt64) (now : Nat) :
    Operator :=
  new region.id region.epoch .leader [.transferLeader fromStore toStore] now

def createAddPeerOperator (region : RegionInfo) (toStore peerId : UInt64) (now : Nat) : Operator :=
  new region.id region.epoch .region [.addPeer toStore peerId] now

def createRemovePeerOperator (region : RegionInfo) (fromStore : UInt64) (now : Nat) : Operator :=
  new region.id region.epoch .region [.removePeer fromStore] now

def check (operator : Operator) (region : RegionInfo) : Option OpStep :=
  match operator.steps[operator.currentStep]? with
  | none => none
  | some step => if step.isFinish region then none else some step

def isTimeout (operator : Operator) (now : Nat) : Bool :=
  let timeout := match operator.kind with
    | .leader => seconds 10
    | .region => seconds 600
    | .admin => seconds 600
  now - operator.startTime.getD operator.createTime > timeout

def start (operator : Operator) (now : Nat) : Operator := { operator with startTime := some now }

def nextStep (operator : Operator) : Operator :=
  if operator.currentStep < operator.steps.length then
    { operator with currentStep := operator.currentStep + 1 }
  else
    operator

def advance (operator : Operator) (region : RegionInfo) : Operator :=
  match operator.steps[operator.currentStep]? with
  | some step => if step.isFinish region then operator.nextStep else operator
  | none => operator

variable {operator : Operator} {region : RegionInfo}

theorem advance_cases (operator : Operator) (region : RegionInfo) :
    operator.advance region = operator ∨
      ∃ step, operator.steps[operator.currentStep]? = some step ∧ step.isFinish region = true ∧
        operator.advance region = { operator with currentStep := operator.currentStep + 1 } := by
  rw [advance]
  split
  · rename_i step found
    split_ifs with finished
    · refine .inr ⟨step, found, finished, ?_⟩
      rw [nextStep, if_pos (List.getElem?_eq_some_iff.mp found).1]
    · exact .inl rfl
  · exact .inl rfl

theorem advance_eq (operator : Operator) (region : RegionInfo) :
    operator.advance region =
      { operator with currentStep := (operator.advance region).currentStep } := by
  rcases advance_cases operator region with same | ⟨_, _, _, next⟩
  · rw [same]
  · rw [next]

theorem regionId_advance : (operator.advance region).regionId = operator.regionId := by
  rw [advance_eq]

theorem kind_advance : (operator.advance region).kind = operator.kind := by
  rw [advance_eq]

theorem currentStep_le_advance :
    operator.currentStep ≤ (operator.advance region).currentStep := by
  rcases advance_cases operator region with same | ⟨_, _, _, next⟩
  · rw [same]
  · rw [next]
    exact Nat.le_succ _

end Operator

end AegisDB.Scheduler

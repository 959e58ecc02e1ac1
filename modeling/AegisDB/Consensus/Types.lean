import AegisDB.Foundation.BigEndian
import AegisDB.Foundation.Fault
import AegisDB.Foundation.OrderedMap

/-! # Raft types

The types of `raft/types.rs` and `raft/progress.rs`. Terms, indexes and node ids are
`u64`: they are natural numbers here, and sums and differences wrap around as they do
in the release build that the start scripts run. -/

namespace AegisDB.Consensus

open Foundation

/-! ## Machine arithmetic -/

def wordSize : Nat := 2 ^ 64

def wrap (number : Nat) : Nat := number % wordSize

def wrappingSub (left right : Nat) : Nat := wrap (left + (wordSize - right))

theorem wrap_of_lt {number : Nat} (small : number < wordSize) : wrap number = number :=
  Nat.mod_eq_of_lt small

theorem wrappingSub_of_le {left right : Nat} (ordered : right ≤ left)
    (small : left < wordSize) : wrappingSub left right = left - right := by
  have sum : left + (wordSize - right) = (left - right) + wordSize := by omega
  rw [wrappingSub, wrap, sum, Nat.add_mod_right]
  exact Nat.mod_eq_of_lt (by omega)

theorem wrappingSub_one_lt {number : Nat} (positive : 0 < number) :
    wrappingSub number 1 < number := by
  rcases Nat.lt_or_ge number wordSize with small | large
  · rw [wrappingSub_of_le positive small]
    exact Nat.sub_lt positive Nat.one_pos
  · exact (Nat.mod_lt _ (by decide)).trans_le large

/-! ## Messages -/

def NONE : Nat := 0

inductive StateType where
  | follower
  | candidate
  | leader
deriving DecidableEq, Repr

inductive EntryType where
  | normal
  | confChange
deriving DecidableEq, Repr

structure Entry where
  entryType : EntryType
  term : Nat
  index : Nat
  data : Bytes
deriving DecidableEq, Repr

def Entry.newNormal (term index : Nat) (data : Bytes) : Entry :=
  { entryType := .normal, term, index, data }

def Entry.newConfChange (term index : Nat) (data : Bytes) : Entry :=
  { entryType := .confChange, term, index, data }

inductive MessageType where
  | msgHup
  | msgBeat
  | msgPropose
  | msgAppend
  | msgAppendResponse
  | msgRequestVote
  | msgRequestVoteResponse
  | msgSnapshot
  | msgHeartbeat
  | msgHeartbeatResponse
  | msgTransferLeader
  | msgTimeoutNow
deriving DecidableEq, Repr

namespace MessageType

def isLocal : MessageType → Bool
  | .msgHup | .msgBeat | .msgPropose => true
  | _ => false

def isResponse : MessageType → Bool
  | .msgAppendResponse | .msgRequestVoteResponse | .msgHeartbeatResponse => true
  | _ => false

end MessageType

structure SnapshotMetadata where
  index : Nat
  term : Nat
deriving DecidableEq, Repr

structure Snapshot where
  data : Bytes
  metadata : SnapshotMetadata
deriving DecidableEq, Repr

def Snapshot.isEmpty (snapshot : Snapshot) : Bool := snapshot.metadata.index == 0

structure Message where
  msgType : MessageType := .msgHup
  toId : Nat := NONE
  fromId : Nat := NONE
  term : Nat := 0
  logTerm : Nat := 0
  index : Nat := 0
  entries : List Entry := []
  commit : Nat := 0
  snapshot : Option Snapshot := none
  reject : Bool := false
deriving DecidableEq, Repr

/-! ## Configuration and stored state -/

structure HardState where
  term : Nat
  vote : Nat
  commit : Nat
deriving DecidableEq, Repr

def HardState.isEmpty (hardState : HardState) : Bool :=
  hardState.term == 0 && hardState.vote == 0 && hardState.commit == 0

structure ConfState where
  nodes : List Nat
deriving DecidableEq, Repr

structure RaftConfig where
  id : Nat
  peers : List Nat
  electionTick : Nat
  heartbeatTick : Nat
  applied : Nat
deriving DecidableEq, Repr

def RaftConfig.validate (config : RaftConfig) : Fallible Unit :=
  if config.id = NONE then
    .error (.error "cannot use none as id")
  else if config.heartbeatTick = 0 then
    .error (.error "heartbeat tick must be greater than 0")
  else if config.electionTick ≤ config.heartbeatTick then
    .error (.error "election tick must be greater than heartbeat tick")
  else
    .ok ()

structure Storage where
  initialState : Fallible (HardState × ConfState)
  firstIndex : Fallible Nat
  lastIndex : Fallible Nat
  entries : Nat → Nat → Fallible (List Entry)

def Storage.fresh (members : List Nat) : Storage where
  initialState := .ok ({ term := 0, vote := NONE, commit := 0 }, { nodes := members })
  firstIndex := .ok 1
  lastIndex := .ok 0
  entries := fun _ _ => .ok []

/-! ## Replication progress -/

structure Progress where
  matchIndex : Nat
  nextIndex : Nat
deriving DecidableEq, Repr

namespace Progress

def new (nextIndex : Nat) : Progress := { matchIndex := 0, nextIndex }

def updateMatch (_progress : Progress) (matchIndex : Nat) : Progress :=
  { matchIndex, nextIndex := wrap (matchIndex + 1) }

def decreaseNext (progress : Progress) (rejectedIndex : Nat) : Progress :=
  if progress.nextIndex > 1 ∧ progress.nextIndex > wrap (rejectedIndex + 1) then
    { progress with nextIndex := wrap (rejectedIndex + 1) }
  else
    { progress with nextIndex := wrappingSub progress.nextIndex 1 }

@[simp] theorem matchIndex_decreaseNext (progress : Progress) (rejectedIndex : Nat) :
    (progress.decreaseNext rejectedIndex).matchIndex = progress.matchIndex := by
  rw [decreaseNext]
  split <;> rfl

end Progress

end AegisDB.Consensus

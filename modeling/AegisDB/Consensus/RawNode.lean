import AegisDB.Consensus.Raft

/-! # Nodes and what they hand out

`raft/rawnode.rs`. A `RawNode` wraps the state machine: the application steps it with
messages, and in turns takes what is ready (entries to persist, entries to apply,
messages to send) and tells the node to advance. -/

namespace AegisDB.Consensus

open Foundation

structure SoftState where
  lead : Nat
  raftState : StateType
deriving DecidableEq, Repr

def SoftState.isUpdated (softState other : SoftState) : Bool :=
  softState.lead != other.lead || softState.raftState != other.raftState

structure Ready where
  softState : Option SoftState
  hardState : HardState
  entries : List Entry
  snapshot : Option Snapshot
  committedEntries : List Entry
  messages : List Message
  mustSync : Bool
deriving DecidableEq, Repr

def Ready.hasReady (ready : Ready) : Bool :=
  ready.softState.isSome || !ready.hardState.isEmpty || !ready.entries.isEmpty ||
    ready.snapshot.isSome || !ready.committedEntries.isEmpty || !ready.messages.isEmpty

structure RawNode where
  raft : Raft
  prevSoftState : SoftState
  prevHardState : HardState
  prevStabled : Nat
  prevApplied : Nat

namespace Raft

def softState (raft : Raft) : SoftState := { lead := raft.lead, raftState := raft.state }

def hardState (raft : Raft) : HardState :=
  { term := raft.term, vote := raft.vote, commit := raft.raftLog.committed }

end Raft

namespace RawNode

def new (raft : Raft) : RawNode where
  raft := raft
  prevSoftState := raft.softState
  prevHardState := raft.hardState
  prevStabled := raft.raftLog.stabled
  prevApplied := raft.raftLog.applied

def handle (node : RawNode) (outcome : Outcome) : RawNode × Fallible Unit :=
  ({ node with raft := outcome.raft }, outcome.result)

def tick (node : RawNode) (draw : Nat) : RawNode × Fallible Unit :=
  node.handle (node.raft.tick draw)

def campaign (node : RawNode) (draw : Nat) : RawNode × Fallible Unit :=
  node.handle (node.raft.step draw { msgType := .msgHup, fromId := node.raft.id })

def propose (node : RawNode) (entryType : EntryType) (data : Bytes) (draw : Nat) :
    RawNode × Fallible Unit :=
  node.handle (node.raft.propose entryType data draw)

def step (node : RawNode) (draw : Nat) (m : Message) : RawNode × Fallible Unit :=
  if m.msgType.isLocal then
    (node, .error (.error "cannot step local message"))
  else if m.msgType.isResponse && (node.raft.prs.get? m.fromId).isNone then
    (node, .error (.error ("peer " ++ toString m.fromId ++ " not found")))
  else
    node.handle (node.raft.step draw m)

def transferLeader (node : RawNode) (transferee draw : Nat) : RawNode × Fallible Unit :=
  if node.raft.state ≠ .leader then
    (node, .error (.error "not leader"))
  else if transferee = node.raft.id then
    (node, .ok ())
  else if (node.raft.prs.get? transferee).isNone then
    (node, .error (.error ("transferee " ++ toString transferee ++ " not found")))
  else
    node.handle (node.raft.step draw
      { msgType := .msgTransferLeader, fromId := node.raft.id, toId := transferee })

def hardStateUpdated (node : RawNode) : Bool :=
  !node.raft.hardState.isEmpty && node.raft.hardState != node.prevHardState

def readyWith (node : RawNode) (entries committedEntries : List Entry) : Ready where
  softState :=
    if node.raft.softState.isUpdated node.prevSoftState then some node.raft.softState else none
  hardState :=
    if node.hardStateUpdated then node.raft.hardState else { term := 0, vote := 0, commit := 0 }
  entries := entries
  snapshot := node.raft.raftLog.snapshotToApply
  committedEntries := committedEntries
  messages := node.raft.msgs
  mustSync := node.hardStateUpdated || node.raft.raftLog.snapshotToApply.isSome

def entriesToApply (node : RawNode) : Fallible (List Entry) :=
  if node.raft.raftLog.applied < node.raft.raftLog.committed then node.raft.raftLog.nextEntries
  else .ok []

def ready (node : RawNode) : Fallible (Ready × RawNode) := do
  let entries ← node.raft.raftLog.unstableEntries
  let committedEntries ← node.entriesToApply
  return (node.readyWith entries committedEntries,
    { node with raft := { node.raft with msgs := [] } })

def hasReady (node : RawNode) : Bool :=
  let log := node.raft.raftLog
  node.raft.softState.isUpdated node.prevSoftState || node.hardStateUpdated ||
    log.lastIndex > log.stabled || log.snapshotToApply.isSome || log.applied < log.committed ||
    !node.raft.msgs.isEmpty

def stabilize (node : RawNode) (index : Nat) : RawNode :=
  { node with
    prevStabled := index
    raft := { node.raft with raftLog := { node.raft.raftLog with stabled := index } } }

def applyTo (node : RawNode) (index : Nat) : RawNode :=
  { node with
    prevApplied := index
    raft := { node.raft with raftLog := { node.raft.raftLog with applied := index } } }

def takePendingSnapshot (node : RawNode) : RawNode :=
  { node with
    raft := { node.raft with raftLog := { node.raft.raftLog with pendingSnapshot := none } } }

def advance (node : RawNode) (ready : Ready) : RawNode :=
  let node :=
    match ready.softState with
    | some softState => { node with prevSoftState := softState }
    | none => node
  let node :=
    if ready.hardState.isEmpty then node else { node with prevHardState := ready.hardState }
  let node :=
    match ready.entries.getLast? with
    | some lastEntry => node.stabilize lastEntry.index
    | none => node
  let node :=
    match ready.committedEntries.getLast? with
    | some lastEntry => node.applyTo lastEntry.index
    | none => node
  match ready.snapshot with
  | some snapshot =>
    if snapshot.isEmpty then node
    else
      ((node.stabilize snapshot.metadata.index).applyTo
        snapshot.metadata.index).takePendingSnapshot
  | none => node

end RawNode

/-! ## Sessions -/

def writeOver (stored entries : List Entry) : List Entry :=
  match entries with
  | [] => stored
  | first :: _ => (stored.filter fun entry => entry.index < first.index) ++ entries

/-- A node, the entries it has handed out to be applied, and the entries on its disk. -/
structure Session where
  node : RawNode
  handedOut : List Entry
  disk : List Entry

inductive NodeInput where
  | step (draw : Nat) (m : Message)
  | tick (draw : Nat)
  | propose (entryType : EntryType) (data : Bytes) (draw : Nat)
  | cycle
deriving DecidableEq, Repr

namespace Session

abbrev log (session : Session) : RaftLog := session.node.raft.raftLog

def start (node : RawNode) : Session where
  node := node
  handedOut := []
  disk := node.raft.raftLog.entries.filter fun entry => entry.index ≤ node.raft.raftLog.stabled

def cycle (session : Session) : Session :=
  match session.node.ready with
  | .error _ => session
  | .ok (ready, node) =>
    { node := node.advance ready
      handedOut := session.handedOut ++ ready.committedEntries
      disk := writeOver session.disk ready.entries }

def act (session : Session) : NodeInput → Session
  | .step draw m => { session with node := (session.node.step draw m).1 }
  | .tick draw => { session with node := (session.node.tick draw).1 }
  | .propose entryType data draw =>
    { session with node := (session.node.propose entryType data draw).1 }
  | .cycle => session.cycle

def run (session : Session) (inputs : List NodeInput) : Session := inputs.foldl act session

end Session

end AegisDB.Consensus

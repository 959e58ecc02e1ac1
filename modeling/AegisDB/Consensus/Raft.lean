import AegisDB.Consensus.Log
import Mathlib.Data.List.Sort

/-! # The Raft state machine

The synchronous handlers of `raft/raft.rs`. A handler may leave early, with an error
or by a panic; what it has changed until then stays changed, so an outcome carries the
state at the exit beside the result. The random election timeout is computed from a
`draw` that stands for the generator. -/

namespace AegisDB.Consensus

open Foundation

structure Raft where
  id : Nat
  term : Nat
  vote : Nat
  raftLog : RaftLog
  prs : OrderedMap Nat Progress
  state : StateType
  votes : OrderedMap Nat Bool
  msgs : List Message
  lead : Nat
  heartbeatTimeout : Nat
  electionTimeout : Nat
  heartbeatElapsed : Nat
  electionElapsed : Nat
  randomElectionTimeout : Nat

structure Outcome where
  raft : Raft
  result : Fallible Unit

namespace Outcome

def ok (raft : Raft) : Outcome := { raft, result := .ok () }

def error (raft : Raft) (message : String) : Outcome :=
  { raft, result := .error (.error message) }

def andThen (outcome : Outcome) (next : Raft → Outcome) : Outcome :=
  match outcome.result with
  | .ok () => next outcome.raft
  | .error fault => { raft := outcome.raft, result := .error fault }

def ignoreError (outcome : Outcome) : Outcome :=
  match outcome.result with
  | .error (.panic message) => { raft := outcome.raft, result := .error (.panic message) }
  | _ => .ok outcome.raft

@[simp] theorem raft_ok (raft : Raft) : (ok raft).raft = raft := rfl

@[simp] theorem ok_andThen (raft : Raft) (next : Raft → Outcome) :
    (ok raft).andThen next = next raft := rfl

@[simp] theorem raft_ignoreError (outcome : Outcome) :
    outcome.ignoreError.raft = outcome.raft := by
  rw [ignoreError]
  split <;> rfl

end Outcome

namespace Raft

def randomTimeout (electionTimeout draw : Nat) : Nat :=
  electionTimeout + draw % (electionTimeout + 1)

def insertPeers (id : Nat) (progress : Progress) (prs : OrderedMap Nat Progress)
    (peers : List Nat) : OrderedMap Nat Progress :=
  peers.foldl (fun prs peerId => if peerId ≠ id then prs.insert peerId progress else prs) prs

def new (config : RaftConfig) (storage : Storage) (draw : Nat) : Fallible Raft := do
  config.validate
  let (hardState, confState) ← storage.initialState
  let raftLog ← RaftLog.new storage
  let progress := Progress.new (wrap (raftLog.lastIndex + 1))
  let prs := insertPeers config.id progress .empty config.peers
  let prs :=
    if prs.size = 0 then insertPeers config.id progress prs confState.nodes else prs
  return {
    id := config.id
    term := hardState.term
    vote := hardState.vote
    raftLog := { raftLog with applied := config.applied }
    prs
    state := .follower
    votes := .empty
    msgs := []
    lead := NONE
    heartbeatTimeout := config.heartbeatTick
    electionTimeout := config.electionTick
    heartbeatElapsed := 0
    electionElapsed := 0
    randomElectionTimeout := randomTimeout config.electionTick draw }

def push (raft : Raft) (message : Message) : Raft :=
  { raft with msgs := raft.msgs ++ [message] }

def quorum (raft : Raft) : Nat := (raft.prs.size + 1) / 2 + 1

def peerIds (raft : Raft) : List Nat := raft.prs.keys.filter (· ≠ raft.id)

def forPeers (handle : Raft → Nat → Outcome) : List Nat → Raft → Outcome
  | [], raft => .ok raft
  | peer :: rest, raft => (handle raft peer).andThen (forPeers handle rest)

/-! ## Sending -/

def entriesFrom (raft : Raft) (nextIndex : Nat) : Fallible (List Entry) :=
  let log := raft.raftLog
  if nextIndex ≤ log.lastIndex then
    slice log.entries (wrappingSub nextIndex log.firstIndex)
      (min (wrap (wrappingSub log.lastIndex log.firstIndex + 1)) log.entries.length)
  else
    .ok []

def appendMessage (raft : Raft) (peer nextIndex : Nat) (entries : List Entry) : Message where
  msgType := .msgAppend
  toId := peer
  fromId := raft.id
  term := raft.term
  logTerm :=
    if nextIndex > 0 then (raft.raftLog.termSync (wrappingSub nextIndex 1)).getD 0 else 0
  index := wrappingSub nextIndex 1
  entries := entries
  commit := raft.raftLog.committed

def sendAppend (raft : Raft) (peer : Nat) : Outcome :=
  match raft.prs.get? peer with
  | none => .ok raft
  | some progress =>
    let nextIndex := progress.nextIndex
    if nextIndex > wrap (raft.raftLog.lastIndex + 1) then
      .ok raft
    else
      match raft.entriesFrom nextIndex with
      | .error fault => { raft, result := .error fault }
      | .ok entries => .ok (raft.push (raft.appendMessage peer nextIndex entries))

def bcastAppend (raft : Raft) : Outcome := forPeers sendAppend raft.peerIds raft

def heartbeatMessage (raft : Raft) (peer : Nat) : Message where
  msgType := .msgHeartbeat
  toId := peer
  fromId := raft.id
  term := raft.term
  commit := raft.raftLog.committed

def sendHeartbeat (raft : Raft) (peer : Nat) : Outcome :=
  .ok (raft.push (raft.heartbeatMessage peer))

def bcastHeartbeat (raft : Raft) : Outcome := forPeers sendHeartbeat raft.peerIds raft

/-! ## Changing roles -/

def becomeFollower (raft : Raft) (draw term lead : Nat) : Raft :=
  { raft with
    term
    lead
    state := .follower
    vote := NONE
    votes := .empty
    electionElapsed := 0
    randomElectionTimeout := randomTimeout raft.electionTimeout draw }

def becomeCandidate (raft : Raft) (draw : Nat) : Raft :=
  { raft with
    term := wrap (raft.term + 1)
    state := .candidate
    vote := raft.id
    votes := OrderedMap.empty.insert raft.id true
    lead := NONE
    electionElapsed := 0
    randomElectionTimeout := randomTimeout raft.electionTimeout draw }

def appendLocal (raft : Raft) (entries : List Entry) : Outcome :=
  match raft.raftLog.append entries with
  | .ok raftLog => .ok { raft with raftLog }
  | .error fault => { raft, result := .error fault }

def takeLead (raft : Raft) : Raft :=
  { raft with
    state := .leader
    lead := raft.id
    heartbeatElapsed := 0
    prs := raft.prs.mapValues fun _ => Progress.new (wrap (raft.raftLog.lastIndex + 1)) }

def noopEntry (raft : Raft) : Entry :=
  Entry.newNormal raft.term (wrap (raft.raftLog.lastIndex + 1)) []

def becomeLeader (raft : Raft) : Outcome :=
  (raft.takeLead.appendLocal [raft.noopEntry]).andThen fun raft => raft.bcastAppend.ignoreError

def requestVoteMessage (raft : Raft) (lastTerm peer : Nat) : Message where
  msgType := .msgRequestVote
  toId := peer
  fromId := raft.id
  term := raft.term
  logTerm := lastTerm
  index := raft.raftLog.lastIndex

def campaign (raft : Raft) (draw : Nat) : Outcome :=
  let raft := raft.becomeCandidate draw
  if raft.quorum = 1 then
    raft.becomeLeader
  else
    let lastIndex := raft.raftLog.lastIndex
    match raft.raftLog.termSync lastIndex with
    | none => .error raft ("cannot get term for index " ++ toString lastIndex)
    | some lastTerm =>
      forPeers (fun raft peer => .ok (raft.push (raft.requestVoteMessage lastTerm peer)))
        raft.peerIds raft

/-! ## Committing -/

def maybeCommit (raft : Raft) : Raft :=
  if raft.state ≠ .leader then
    raft
  else
    let indexes := ((raft.prs.values.map Progress.matchIndex).insertionSort (· ≤ ·)).reverse
    match indexes[raft.quorum - 1]? with
    | none => raft
    | some commitIndex =>
      if commitIndex > raft.raftLog.committed ∧
          (raft.raftLog.termSync commitIndex).getD 0 = raft.term then
        { raft with raftLog := { raft.raftLog with committed := commitIndex } }
      else
        raft

/-! ## Handlers -/

def appendResponse (raft : Raft) (peer : Nat) (reject : Bool) (index : Nat) : Message where
  msgType := .msgAppendResponse
  toId := peer
  fromId := raft.id
  term := raft.term
  reject := reject
  index := index

def followCommit (raft : Raft) (commit : Nat) : Raft :=
  if commit > raft.raftLog.committed then
    { raft with
      raftLog := { raft.raftLog with committed := min commit raft.raftLog.lastIndex } }
  else
    raft

def acceptEntries (raft : Raft) (m : Message) : Outcome :=
  (raft.appendLocal m.entries).andThen fun raft =>
    let raft := raft.followCommit m.commit
    .ok (raft.push (raft.appendResponse m.fromId false raft.raftLog.lastIndex))

def handleAppendEntries (raft : Raft) (m : Message) : Outcome :=
  if m.term < raft.term then
    .ok (raft.push (raft.appendResponse m.fromId true 0))
  else
    let raft := { raft with term := m.term, lead := m.fromId }
    if m.index > raft.raftLog.lastIndex then
      .ok (raft.push (raft.appendResponse m.fromId true raft.raftLog.lastIndex))
    else if m.index > 0 then
      match raft.raftLog.termSync m.index with
      | none => .error raft ("cannot get term for index " ++ toString m.index)
      | some term =>
        if term ≠ m.logTerm then
          .ok (raft.push (raft.appendResponse m.fromId true (m.index - 1)))
        else
          raft.acceptEntries m
    else
      raft.acceptEntries m

def handleHeartbeat (raft : Raft) (m : Message) : Outcome :=
  if m.term < raft.term then
    .ok raft
  else
    let raft := { raft with term := m.term, lead := m.fromId }
    let raft := raft.followCommit m.commit
    let response : Message :=
      { msgType := .msgHeartbeatResponse, toId := m.fromId, fromId := raft.id, term := raft.term }
    .ok (raft.push response)

def handleSnapshot (raft : Raft) (m : Message) : Outcome :=
  match m.snapshot with
  | none => .ok raft
  | some snapshot =>
    if snapshot.metadata.index ≤ raft.raftLog.committed then
      .ok raft
    else
      match raft.raftLog.applySnapshot snapshot with
      | .error fault => { raft, result := .error fault }
      | .ok raftLog =>
        let raft := { raft with raftLog }
        .ok (raft.push (raft.appendResponse m.fromId false raft.raftLog.lastIndex))

def voteResponse (raft : Raft) (peer : Nat) (reject : Bool) : Message where
  msgType := .msgRequestVoteResponse
  toId := peer
  fromId := raft.id
  term := raft.term
  reject := reject

def canVote (raft : Raft) (m : Message) : Bool := raft.vote == NONE || raft.vote == m.fromId

def logOk (raft : Raft) (m : Message) : Bool :=
  let lastIndex := raft.raftLog.lastIndex
  let lastTerm := (raft.raftLog.termSync lastIndex).getD 0
  m.logTerm > lastTerm || (m.logTerm == lastTerm && m.index ≥ lastIndex)

def handleRequestVote (raft : Raft) (draw : Nat) (m : Message) : Outcome :=
  if m.term < raft.term then
    .ok (raft.push (raft.voteResponse m.fromId true))
  else
    let raft := if m.term > raft.term then raft.becomeFollower draw m.term NONE else raft
    if raft.canVote m && raft.logOk m then
      let raft := { raft with vote := m.fromId, electionElapsed := 0 }
      .ok (raft.push (raft.voteResponse m.fromId false))
    else
      .ok (raft.push (raft.voteResponse m.fromId true))

def countVotes (raft : Raft) (granted : Bool) : Nat :=
  raft.votes.values.countP (· == granted)

def handleRequestVoteResponse (raft : Raft) (draw : Nat) (m : Message) : Outcome :=
  if m.term ≠ raft.term ∨ raft.state ≠ .candidate then
    .ok raft
  else
    let raft := { raft with votes := raft.votes.insert m.fromId (!m.reject) }
    if raft.countVotes true ≥ raft.quorum then
      raft.becomeLeader
    else if raft.countVotes false ≥ raft.quorum then
      .ok (raft.becomeFollower draw raft.term NONE)
    else
      .ok raft

def noteResponse (raft : Raft) (m : Message) : Raft :=
  match raft.prs.get? m.fromId with
  | none => raft
  | some progress =>
    let progress :=
      if m.reject then progress.decreaseNext m.index else progress.updateMatch m.index
    { raft with prs := raft.prs.insert m.fromId progress }

def handleAppendResponse (raft : Raft) (m : Message) : Outcome :=
  if m.term < raft.term then
    .ok raft
  else
    let raft := raft.noteResponse m
    let raft := if m.reject then raft else raft.maybeCommit
    match raft.prs.get? m.fromId with
    | none => .ok raft
    | some progress =>
      if m.reject then raft.sendAppend m.fromId
      else if progress.nextIndex ≤ raft.raftLog.lastIndex then raft.sendAppend m.fromId
      else .ok raft

def handleHeartbeatResponse (raft : Raft) (m : Message) : Outcome :=
  if m.term < raft.term then
    .ok raft
  else
    match raft.prs.get? m.fromId with
    | none => .ok raft
    | some progress =>
      if progress.nextIndex ≤ raft.raftLog.lastIndex then raft.sendAppend m.fromId
      else .ok raft

/-! ## Steps -/

def proposedEntry (raft : Raft) (lastIndex position : Nat) (entry : Entry) : Entry :=
  let index := wrap (lastIndex + 1 + position)
  if entry.entryType = .confChange then Entry.newConfChange raft.term index entry.data
  else Entry.newNormal raft.term index entry.data

def proposedEntries (raft : Raft) (entries : List Entry) : List Entry :=
  entries.mapIdx fun position entry => raft.proposedEntry raft.raftLog.lastIndex position entry

def stepFollower (raft : Raft) (draw : Nat) (m : Message) : Outcome :=
  match m.msgType with
  | .msgHup => raft.campaign draw
  | .msgBeat | .msgPropose =>
    if raft.lead ≠ NONE then .ok (raft.push { m with toId := raft.lead }) else .ok raft
  | .msgAppend => { raft with electionElapsed := 0 }.handleAppendEntries m
  | .msgHeartbeat => { raft with electionElapsed := 0 }.handleHeartbeat m
  | .msgSnapshot => { raft with electionElapsed := 0 }.handleSnapshot m
  | .msgRequestVote => raft.handleRequestVote draw m
  | _ => .ok raft

def stepCandidate (raft : Raft) (draw : Nat) (m : Message) : Outcome :=
  match m.msgType with
  | .msgHup => raft.campaign draw
  | .msgAppend => (raft.becomeFollower draw m.term m.fromId).handleAppendEntries m
  | .msgHeartbeat => (raft.becomeFollower draw m.term m.fromId).handleHeartbeat m
  | .msgSnapshot => (raft.becomeFollower draw m.term m.fromId).handleSnapshot m
  | .msgRequestVote => raft.handleRequestVote draw m
  | .msgRequestVoteResponse => raft.handleRequestVoteResponse draw m
  | _ => .ok raft

def stepLeader (raft : Raft) (draw : Nat) (m : Message) : Outcome :=
  match m.msgType with
  | .msgBeat => raft.bcastHeartbeat
  | .msgPropose =>
    (raft.appendLocal (raft.proposedEntries m.entries)).andThen fun raft =>
      raft.maybeCommit.bcastAppend
  | .msgAppendResponse => raft.handleAppendResponse m
  | .msgHeartbeatResponse => raft.handleHeartbeatResponse m
  | .msgRequestVote => raft.handleRequestVote draw m
  | .msgSnapshot => (raft.becomeFollower draw m.term m.fromId).handleSnapshot m
  | _ => .ok raft

def adoptTerm (raft : Raft) (draw : Nat) (m : Message) : Raft :=
  if m.term > raft.term then
    if m.msgType = .msgRequestVote ∨ m.msgType = .msgAppend then
      raft.becomeFollower draw m.term NONE
    else
      raft.becomeFollower draw m.term m.fromId
  else
    raft

def step (raft : Raft) (draw : Nat) (m : Message) : Outcome :=
  let raft := raft.adoptTerm draw m
  match raft.state with
  | .follower => raft.stepFollower draw m
  | .candidate => raft.stepCandidate draw m
  | .leader => raft.stepLeader draw m

def tick (raft : Raft) (draw : Nat) : Outcome :=
  match raft.state with
  | .leader =>
    if raft.heartbeatElapsed + 1 ≥ raft.heartbeatTimeout then
      ({ raft with heartbeatElapsed := 0 }.step draw
        { msgType := .msgBeat, fromId := raft.id }).ignoreError
    else
      .ok { raft with heartbeatElapsed := raft.heartbeatElapsed + 1 }
  | _ =>
    if raft.electionElapsed + 1 ≥ raft.randomElectionTimeout then
      ({ raft with electionElapsed := 0 }.step draw
        { msgType := .msgHup, fromId := raft.id }).ignoreError
    else
      .ok { raft with electionElapsed := raft.electionElapsed + 1 }

def propose (raft : Raft) (entryType : EntryType) (data : Bytes) (draw : Nat) : Outcome :=
  let entry : Entry := { entryType, term := raft.term, index := 0, data }
  raft.step draw { msgType := .msgPropose, fromId := raft.id, entries := [entry] }

end Raft

end AegisDB.Consensus

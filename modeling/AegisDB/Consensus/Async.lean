import AegisDB.Consensus.Raft

/-! # The asynchronous handlers

The second set of handlers of `raft/raft.rs`, which look terms up through the storage. They
differ from the synchronous ones in the lookup, and in what they do when it fails. -/

namespace AegisDB.Consensus

open Foundation

structure TermStorage extends Storage where
  term : Nat → Except String Nat

def TermStorage.fresh (members : List Nat) : TermStorage where
  toStorage := .fresh members
  term := fun index => if index = 0 then .ok 0 else .error "requested entry at index is unavailable"

namespace RaftLog

def term (storage : TermStorage) (log : RaftLog) (index : Nat) : Except String Nat :=
  if index < log.firstIndex then
    .error ("index " ++ toString index ++ " < first " ++ toString log.firstIndex)
  else
    let before := wrappingSub log.firstIndex 1
    match log.snapshotToApply.filter
        fun snapshot => index == before && snapshot.metadata.index == before with
    | some snapshot => .ok snapshot.metadata.term
    | none =>
      match if index ≤ log.lastIndex then log.entryAt index else none with
      | some entry => .ok entry.term
      | none => storage.term index

end RaftLog

namespace Raft

variable (storage : TermStorage)

/-! ## Sending -/

def appendMessageAsync (raft : Raft) (peer nextIndex : Nat) (entries : List Entry) : Message :=
  { raft.appendMessage peer nextIndex entries with
    logTerm :=
      if nextIndex > 0 then
        (raft.raftLog.term storage (wrappingSub nextIndex 1)).toOption.getD 0
      else
        0 }

def sendAppendAsync (raft : Raft) (peer : Nat) : Outcome :=
  match raft.prs.get? peer with
  | none => .ok raft
  | some progress =>
    let nextIndex := progress.nextIndex
    if nextIndex > wrap (raft.raftLog.lastIndex + 1) then
      .ok raft
    else
      match raft.entriesFrom nextIndex with
      | .error fault => { raft, result := .error fault }
      | .ok entries => .ok (raft.push (raft.appendMessageAsync storage peer nextIndex entries))

def bcastAppendAsync (raft : Raft) : Outcome :=
  forPeers (sendAppendAsync storage) raft.peerIds raft

/-! ## Campaigning and committing -/

def campaignAsync (raft : Raft) (draw : Nat) : Outcome :=
  let raft := raft.becomeCandidate draw
  if raft.quorum = 1 then
    raft.becomeLeader
  else
    match raft.raftLog.term storage raft.raftLog.lastIndex with
    | .error message => .error raft message
    | .ok lastTerm =>
      forPeers (fun raft peer => .ok (raft.push (raft.requestVoteMessage lastTerm peer)))
        raft.peerIds raft

def maybeCommitAsync (raft : Raft) : Outcome :=
  if raft.state ≠ .leader then
    .ok raft
  else
    let indexes := ((raft.prs.values.map Progress.matchIndex).insertionSort (· ≤ ·)).reverse
    match indexes[raft.quorum - 1]? with
    | none => .ok raft
    | some commitIndex =>
      if commitIndex > raft.raftLog.committed then
        match raft.raftLog.term storage commitIndex with
        | .error message => .error raft message
        | .ok term =>
          if term = raft.term then
            .ok { raft with raftLog := { raft.raftLog with committed := commitIndex } }
          else
            .ok raft
      else
        .ok raft

/-! ## Handlers -/

def handleAppendEntriesAsync (raft : Raft) (m : Message) : Outcome :=
  if m.term < raft.term then
    .ok (raft.push (raft.appendResponse m.fromId true 0))
  else
    let raft := { raft with term := m.term, lead := m.fromId }
    if m.index > raft.raftLog.lastIndex then
      .ok (raft.push (raft.appendResponse m.fromId true raft.raftLog.lastIndex))
    else if m.index > 0 then
      match raft.raftLog.term storage m.index with
      | .error message => .error raft message
      | .ok term =>
        if term ≠ m.logTerm then
          .ok (raft.push (raft.appendResponse m.fromId true (m.index - 1)))
        else
          raft.acceptEntries m
    else
      raft.acceptEntries m

def logOkAt (raft : Raft) (m : Message) (lastTerm : Nat) : Bool :=
  m.logTerm > lastTerm || (m.logTerm == lastTerm && m.index ≥ raft.raftLog.lastIndex)

def handleRequestVoteAsync (raft : Raft) (draw : Nat) (m : Message) : Outcome :=
  if m.term < raft.term then
    .ok (raft.push (raft.voteResponse m.fromId true))
  else
    let raft := if m.term > raft.term then raft.becomeFollower draw m.term NONE else raft
    match raft.raftLog.term storage raft.raftLog.lastIndex with
    | .error message => .error raft message
    | .ok lastTerm =>
      if raft.canVote m && raft.logOkAt m lastTerm then
        let raft := { raft with vote := m.fromId, electionElapsed := 0 }
        .ok (raft.push (raft.voteResponse m.fromId false))
      else
        .ok (raft.push (raft.voteResponse m.fromId true))

def handleAppendResponseAsync (raft : Raft) (m : Message) : Outcome :=
  if m.term < raft.term then
    .ok raft
  else
    let raft := raft.noteResponse m
    (if m.reject then .ok raft else raft.maybeCommitAsync storage).andThen fun raft =>
      match raft.prs.get? m.fromId with
      | none => .ok raft
      | some progress =>
        if m.reject then raft.sendAppendAsync storage m.fromId
        else if progress.nextIndex ≤ raft.raftLog.lastIndex then
          raft.sendAppendAsync storage m.fromId
        else .ok raft

def handleHeartbeatResponseAsync (raft : Raft) (m : Message) : Outcome :=
  if m.term < raft.term then
    .ok raft
  else
    match raft.prs.get? m.fromId with
    | none => .ok raft
    | some progress =>
      if progress.nextIndex ≤ raft.raftLog.lastIndex then raft.sendAppendAsync storage m.fromId
      else .ok raft

/-! ## Steps -/

def stepFollowerAsync (raft : Raft) (draw : Nat) (m : Message) : Outcome :=
  match m.msgType with
  | .msgHup => raft.campaignAsync storage draw
  | .msgBeat | .msgPropose =>
    if raft.lead ≠ NONE then .ok (raft.push { m with toId := raft.lead }) else .ok raft
  | .msgAppend => { raft with electionElapsed := 0 }.handleAppendEntriesAsync storage m
  | .msgHeartbeat => { raft with electionElapsed := 0 }.handleHeartbeat m
  | .msgSnapshot => { raft with electionElapsed := 0 }.handleSnapshot m
  | .msgRequestVote => raft.handleRequestVoteAsync storage draw m
  | _ => .ok raft

def stepCandidateAsync (raft : Raft) (draw : Nat) (m : Message) : Outcome :=
  match m.msgType with
  | .msgHup => raft.campaignAsync storage draw
  | .msgAppend =>
    (raft.becomeFollower draw m.term m.fromId).handleAppendEntriesAsync storage m
  | .msgHeartbeat => (raft.becomeFollower draw m.term m.fromId).handleHeartbeat m
  | .msgSnapshot => (raft.becomeFollower draw m.term m.fromId).handleSnapshot m
  | .msgRequestVote => raft.handleRequestVoteAsync storage draw m
  | .msgRequestVoteResponse => raft.handleRequestVoteResponse draw m
  | _ => .ok raft

def stepLeaderAsync (raft : Raft) (draw : Nat) (m : Message) : Outcome :=
  match m.msgType with
  | .msgBeat => raft.bcastHeartbeat
  | .msgPropose =>
    (raft.appendLocal (raft.proposedEntries m.entries)).andThen fun raft =>
      (raft.maybeCommitAsync storage).andThen fun raft => raft.bcastAppendAsync storage
  | .msgAppendResponse => raft.handleAppendResponseAsync storage m
  | .msgHeartbeatResponse => raft.handleHeartbeatResponseAsync storage m
  | .msgRequestVote => raft.handleRequestVoteAsync storage draw m
  | .msgSnapshot => (raft.becomeFollower draw m.term m.fromId).handleSnapshot m
  | _ => .ok raft

def stepAsync (raft : Raft) (draw : Nat) (m : Message) : Outcome :=
  let raft := raft.adoptTerm draw m
  match raft.state with
  | .follower => raft.stepFollowerAsync storage draw m
  | .candidate => raft.stepCandidateAsync storage draw m
  | .leader => raft.stepLeaderAsync storage draw m

end Raft

end AegisDB.Consensus

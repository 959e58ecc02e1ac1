import AegisDB.Consensus.AsyncSteps

/-! # What a node posts

Whom a node addresses its messages to: other nodes, and in its own name. A follower also
passes on what is proposed to it, unchanged but for the address. -/

namespace AegisDB.Consensus

open Foundation

def Message.PostedBy (m : Message) (node : Nat) : Prop :=
  m.fromId = node ∧ (m.msgType = .msgPropose ∨ m.msgType.isLocal = false ∧ m.toId ≠ node)

structure Raft.Corresponds (members : List Nat) (node : Nat) (raft : Raft) : Prop where
  id : raft.id = node
  peers : ∀ peer, (raft.prs.get? peer).isSome ↔ peer ∈ members ∧ peer ≠ node
  posted : ∀ m ∈ raft.msgs, m.PostedBy node

def IsRefusal (message : String) : Prop :=
  message = "cannot step local message" ∨
    ∃ peer : Nat, message = "peer " ++ toString peer ++ " not found"

structure Outcome.Corresponds (members : List Nat) (node : Nat) (outcome : Outcome) : Prop where
  raft : outcome.raft.Corresponds members node
  error : ∀ message, outcome.result = .error (.error message) → ¬ IsRefusal message

variable {members : List Nat} {node : Nat} {raft : Raft} {m : Message}

theorem not_isRefusal_term (index : Nat) :
    ¬ IsRefusal ("cannot get term for index " ++ toString index) := by
  intro refusal
  rcases refusal with isLocal | ⟨peer, unknown⟩
  · have seventh := congrArg (fun text => text.toList[7]?) isLocal
    simp at seventh
  · have first := congrArg (fun text => text.toList[0]?) unknown
    simp at first

namespace Raft.Corresponds

variable (corresponds : raft.Corresponds members node)

include corresponds

theorem change {after : Raft} (sameId : after.id = raft.id) (samePeers : after.prs = raft.prs)
    (sameMsgs : after.msgs = raft.msgs) : after.Corresponds members node where
  id := sameId.trans corresponds.id
  peers := samePeers ▸ corresponds.peers
  posted := sameMsgs ▸ corresponds.posted

variable {message : Message}

theorem push (posted : message.PostedBy node) : (raft.push message).Corresponds members node where
  id := corresponds.id
  peers := corresponds.peers
  posted := by
    intro other member
    rcases List.mem_append.mp member with old | new
    · exact corresponds.posted other old
    · rw [List.mem_singleton.mp new]
      exact posted

theorem pushOwn (own : message.fromId = raft.id) (notLocal : message.msgType.isLocal = false)
    (other : message.toId ≠ node) : (raft.push message).Corresponds members node :=
  corresponds.push ⟨own.trans corresponds.id, .inr ⟨notLocal, other⟩⟩

theorem becomeFollower (draw term lead : Nat) :
    (raft.becomeFollower draw term lead).Corresponds members node :=
  corresponds.change rfl rfl rfl

theorem takeLead :
    raft.takeLead.Corresponds members node where
  id := corresponds.id
  peers peer := by
    rw [Raft.takeLead, OrderedMap.get?_mapValues, Option.isSome_map]
    exact corresponds.peers peer
  posted := corresponds.posted

theorem noteResponse (m : Message) :
    (raft.noteResponse m).Corresponds members node := by
  rw [Raft.noteResponse]
  split
  · exact corresponds
  · rename_i progress present
    refine ⟨corresponds.id, ?_, corresponds.posted⟩
    intro peer
    rw [← corresponds.peers peer, OrderedMap.get?_insert]
    split
    · rename_i same
      simp [same, present]
    · rfl

theorem maybeCommit :
    raft.maybeCommit.Corresponds members node := by
  rw [maybeCommit_eq]
  exact corresponds.change rfl rfl rfl

theorem followCommit (commit : Nat) :
    (raft.followCommit commit).Corresponds members node := by
  rw [followCommit_eq]
  exact corresponds.change rfl rfl rfl

theorem ne_of_mem_peerIds {peer : Nat} (member : peer ∈ raft.peerIds) : peer ≠ node := by
  rw [← corresponds.id]
  simpa using (List.mem_filter.mp member).2

end Raft.Corresponds

namespace Outcome.Corresponds

theorem ok (corresponds : raft.Corresponds members node) :
    (Outcome.ok raft).Corresponds members node :=
  ⟨corresponds, by simp [Outcome.ok]⟩

variable {outcome : Outcome}

theorem of_noError (corresponds : outcome.raft.Corresponds members node)
    (noError : outcome.NoError) : outcome.Corresponds members node :=
  ⟨corresponds, fun message failed => absurd failed (noError message)⟩

theorem andThen {next : Raft → Outcome} (corresponds : outcome.Corresponds members node)
    (rest : ∀ raft : Raft, raft.Corresponds members node → (next raft).Corresponds members node) :
    (outcome.andThen next).Corresponds members node := by
  rw [Outcome.andThen]
  split
  · exact rest outcome.raft corresponds.raft
  · rename_i fault failed
    refine ⟨corresponds.raft, fun message isError => corresponds.error message ?_⟩
    rw [failed]
    exact isError

theorem ignoreError (corresponds : outcome.Corresponds members node) :
    outcome.ignoreError.Corresponds members node := by
  refine ⟨?_, ?_⟩
  · rw [Outcome.raft_ignoreError]
    exact corresponds.raft
  · intro message failed
    rw [Outcome.ignoreError] at failed
    split at failed
    · cases failed
    · cases failed

end Outcome.Corresponds

/-! ## Handlers -/

def Raft.Handles (raft : Raft) (m : Message) : Prop :=
  match m.msgType with
  | .msgHup | .msgTransferLeader => True
  | .msgBeat => raft.state = .leader ∧ m.term ≤ raft.term
  | .msgPropose => m.fromId = raft.id
  | _ => m.fromId ≠ raft.id

namespace Raft.Corresponds

theorem forPeers {handle : Raft → Nat → Outcome} {peers : List Nat}
    (each : ∀ raft : Raft, raft.Corresponds members node → ∀ peer ∈ peers,
      (handle raft peer).Corresponds members node)
    (corresponds : raft.Corresponds members node) :
    (Raft.forPeers handle peers raft).Corresponds members node := by
  induction peers generalizing raft with
  | nil => exact .ok corresponds
  | cons peer rest induction =>
    refine (each raft corresponds peer List.mem_cons_self).andThen ?_
    intro after
    exact induction fun other otherCorresponds later member =>
      each other otherCorresponds later (List.mem_cons_of_mem _ member)

variable (corresponds : raft.Corresponds members node)

include corresponds

theorem sendAppend {peer : Nat}
    (other : peer ≠ node) : (raft.sendAppend peer).Corresponds members node := by
  refine .of_noError ?_ (noError_sendAppend raft peer)
  rcases raft.sendAppend_cases peer with same | ⟨progress, entries, _, _, pushed⟩
  · rw [same]
    exact corresponds
  · rw [pushed]
    exact corresponds.pushOwn rfl rfl other

theorem bcastAppend :
    raft.bcastAppend.Corresponds members node := by
  refine corresponds.forPeers ?_
  intro other otherCorresponds peer member
  exact otherCorresponds.sendAppend (corresponds.ne_of_mem_peerIds member)

theorem bcastHeartbeat :
    raft.bcastHeartbeat.Corresponds members node := by
  refine corresponds.forPeers ?_
  intro other otherCorresponds peer member
  exact .ok (otherCorresponds.pushOwn rfl rfl (corresponds.ne_of_mem_peerIds member))

theorem appendLocal (entries : List Entry) :
    (raft.appendLocal entries).Corresponds members node := by
  refine .of_noError ?_ (noError_appendLocal raft entries)
  rw [Raft.appendLocal]
  split
  · exact corresponds.change rfl rfl rfl
  · exact corresponds

theorem becomeLeader :
    raft.becomeLeader.Corresponds members node := by
  refine (corresponds.takeLead.appendLocal [raft.noopEntry]).andThen ?_
  intro after afterCorresponds
  exact afterCorresponds.bcastAppend.ignoreError

variable (draw : Nat)

theorem campaign :
    (raft.campaign draw).Corresponds members node := by
  have candidate : (raft.becomeCandidate draw).Corresponds members node :=
    corresponds.change rfl rfl rfl
  rw [Raft.campaign]
  dsimp only
  split
  · exact candidate.becomeLeader
  · split
    · refine ⟨candidate, fun message failed => ?_⟩
      cases failed
      exact not_isRefusal_term _
    · refine candidate.forPeers ?_
      intro other otherCorresponds peer member
      exact .ok (otherCorresponds.pushOwn rfl rfl (candidate.ne_of_mem_peerIds member))

theorem counted (m : Message) :
    (raft.counted m).Corresponds members node := by
  rw [Raft.counted]
  split
  · exact corresponds.noteResponse m
  · exact (corresponds.noteResponse m).maybeCommit

omit corresponds

section Answers

variable (corresponds : raft.Corresponds members node) (other : m.fromId ≠ node)

include corresponds other

theorem acceptEntries : (raft.acceptEntries m).Corresponds members node := by
  refine (corresponds.appendLocal m.entries).andThen ?_
  intro after afterCorresponds
  exact .ok ((afterCorresponds.followCommit m.commit).pushOwn rfl rfl other)

theorem handleAppendEntries : (raft.handleAppendEntries m).Corresponds members node := by
  have following : { raft with term := m.term, lead := m.fromId }.Corresponds members node :=
    corresponds.change rfl rfl rfl
  rw [Raft.handleAppendEntries]
  split
  · exact .ok (corresponds.pushOwn rfl rfl other)
  · dsimp only
    split
    · exact .ok (following.pushOwn rfl rfl other)
    · split
      · split
        · refine ⟨following, fun message failed => ?_⟩
          cases failed
          exact not_isRefusal_term _
        · split
          · exact .ok (following.pushOwn rfl rfl other)
          · exact following.acceptEntries other
      · exact following.acceptEntries other

theorem handleHeartbeat : (raft.handleHeartbeat m).Corresponds members node := by
  have following : { raft with term := m.term, lead := m.fromId }.Corresponds members node :=
    corresponds.change rfl rfl rfl
  rw [Raft.handleHeartbeat]
  split
  · exact .ok corresponds
  · exact .ok ((following.followCommit m.commit).pushOwn rfl rfl other)

theorem handleSnapshot : (raft.handleSnapshot m).Corresponds members node := by
  rw [Raft.handleSnapshot]
  split
  · exact .ok corresponds
  · split
    · exact .ok corresponds
    · rename_i newer
      split
      · rename_i failed
        rw [RaftLog.applySnapshot, if_neg newer] at failed
        split at failed
        · cases failed
        · cases failed
      · rename_i raftLog _
        have restored : { raft with raftLog }.Corresponds members node :=
          corresponds.change rfl rfl rfl
        exact .ok (restored.pushOwn rfl rfl other)

theorem handleRequestVote (draw : Nat) :
    (raft.handleRequestVote draw m).Corresponds members node := by
  rw [Raft.handleRequestVote]
  split
  · exact .ok (corresponds.pushOwn rfl rfl other)
  · have asked : (if m.term > raft.term then raft.becomeFollower draw m.term NONE
        else raft).Corresponds members node := by
      split
      · exact corresponds.becomeFollower draw m.term NONE
      · exact corresponds
    generalize (if m.term > raft.term then raft.becomeFollower draw m.term NONE else raft) =
      voter at asked ⊢
    dsimp only
    split
    · have voted : { voter with vote := m.fromId, electionElapsed := 0 }.Corresponds members
          node := asked.change rfl rfl rfl
      exact .ok (voted.pushOwn rfl rfl other)
    · exact .ok (asked.pushOwn rfl rfl other)

theorem handleAppendResponse : (raft.handleAppendResponse m).Corresponds members node := by
  rcases raft.handleAppendResponse_cases m with ⟨_, older⟩ | ⟨_, quiet | sends⟩
  · rw [older]
    exact .ok corresponds
  · rw [quiet]
    exact .ok (corresponds.counted m)
  · rw [sends]
    exact (corresponds.counted m).sendAppend other

theorem handleHeartbeatResponse :
    (raft.handleHeartbeatResponse m).Corresponds members node := by
  rcases raft.handleHeartbeatResponse_cases m with quiet | sends
  · rw [quiet]
    exact .ok corresponds
  · rw [sends]
    exact corresponds.sendAppend other

end Answers

include corresponds

theorem handleRequestVoteResponse
    (m : Message) : (raft.handleRequestVoteResponse draw m).Corresponds members node := by
  have counting :
      { raft with votes := raft.votes.insert m.fromId (!m.reject) }.Corresponds members node :=
    corresponds.change rfl rfl rfl
  rw [Raft.handleRequestVoteResponse]
  split
  · exact .ok corresponds
  · dsimp only
    split
    · exact counting.becomeLeader
    · split
      · exact .ok (counting.becomeFollower _ _ _)
      · exact .ok counting

variable (handles : raft.Handles m)

include handles

theorem stepFollower (follower : raft.state = .follower) :
    (raft.stepFollower draw m).Corresponds members node := by
  have rested : { raft with electionElapsed := 0 }.Corresponds members node :=
    corresponds.change rfl rfl rfl
  rw [Handles, corresponds.id] at handles
  rw [Raft.stepFollower]
  cases isType : m.msgType with
  | msgHup => exact corresponds.campaign draw
  | msgBeat =>
    rw [isType] at handles
    cases follower.symm.trans handles.1
  | msgPropose =>
    rw [isType] at handles
    dsimp only
    split
    · exact .ok (corresponds.push ⟨handles, .inl rfl⟩)
    · exact .ok corresponds
  | msgAppend =>
    rw [isType] at handles
    exact rested.handleAppendEntries handles
  | msgHeartbeat =>
    rw [isType] at handles
    exact rested.handleHeartbeat handles
  | msgSnapshot =>
    rw [isType] at handles
    exact rested.handleSnapshot handles
  | msgRequestVote =>
    rw [isType] at handles
    exact corresponds.handleRequestVote handles draw
  | _ => exact .ok corresponds

theorem stepCandidate : (raft.stepCandidate draw m).Corresponds members node := by
  have following := corresponds.becomeFollower draw m.term m.fromId
  rw [Handles, corresponds.id] at handles
  rw [Raft.stepCandidate]
  cases isType : m.msgType with
  | msgHup => exact corresponds.campaign draw
  | msgAppend =>
    rw [isType] at handles
    exact following.handleAppendEntries handles
  | msgHeartbeat =>
    rw [isType] at handles
    exact following.handleHeartbeat handles
  | msgSnapshot =>
    rw [isType] at handles
    exact following.handleSnapshot handles
  | msgRequestVote =>
    rw [isType] at handles
    exact corresponds.handleRequestVote handles draw
  | msgRequestVoteResponse => exact corresponds.handleRequestVoteResponse draw m
  | _ => exact .ok corresponds

theorem stepLeader : (raft.stepLeader draw m).Corresponds members node := by
  rw [Handles, corresponds.id] at handles
  rw [Raft.stepLeader]
  cases isType : m.msgType with
  | msgBeat => exact corresponds.bcastHeartbeat
  | msgPropose =>
    refine (corresponds.appendLocal _).andThen ?_
    intro after afterCorresponds
    exact afterCorresponds.maybeCommit.bcastAppend
  | msgAppendResponse =>
    rw [isType] at handles
    exact corresponds.handleAppendResponse handles
  | msgHeartbeatResponse =>
    rw [isType] at handles
    exact corresponds.handleHeartbeatResponse handles
  | msgRequestVote =>
    rw [isType] at handles
    exact corresponds.handleRequestVote handles draw
  | msgSnapshot =>
    rw [isType] at handles
    exact (corresponds.becomeFollower draw m.term m.fromId).handleSnapshot handles
  | _ => exact .ok corresponds

theorem step : (raft.step draw m).Corresponds members node := by
  have adopted : (raft.adoptTerm draw m).Corresponds members node ∧
      (raft.adoptTerm draw m).Handles m := by
    rcases raft.adoptTerm_cases draw m with ⟨_, same⟩ | ⟨lead, newer, adopts⟩
    · rw [same]
      exact ⟨corresponds, handles⟩
    · rw [adopts]
      refine ⟨corresponds.becomeFollower draw m.term lead, ?_⟩
      rw [Handles] at handles ⊢
      cases isType : m.msgType with
      | msgBeat =>
        rw [isType] at handles
        exact absurd handles.2 (not_le.mpr newer)
      | _ =>
        rw [isType] at handles
        exact handles
  rw [Raft.step]
  split
  · rename_i follower
    exact adopted.1.stepFollower draw adopted.2 follower
  · exact adopted.1.stepCandidate draw adopted.2
  · exact adopted.1.stepLeader draw adopted.2

omit handles

theorem tick :
    (raft.tick draw).Corresponds members node := by
  rw [Raft.tick]
  split
  · rename_i leader
    have rested : { raft with heartbeatElapsed := 0 }.Corresponds members node :=
      corresponds.change rfl rfl rfl
    split
    · refine (rested.step draw ?_).ignoreError
      exact ⟨leader, Nat.zero_le _⟩
    · exact .ok (corresponds.change rfl rfl rfl)
  · have rested : { raft with electionElapsed := 0 }.Corresponds members node :=
      corresponds.change rfl rfl rfl
    split
    · refine (rested.step draw ?_).ignoreError
      trivial
    · exact .ok (corresponds.change rfl rfl rfl)

theorem propose (entryType : EntryType) (data : Bytes) (draw : Nat) :
    (raft.propose entryType data draw).Corresponds members node :=
  corresponds.step draw rfl

end Raft.Corresponds

end AegisDB.Consensus

import AegisDB.Consensus.LogChanges

/-! # What one message does to a node

There is no filter for messages of older terms in front of the handlers. Where the
handlers of a role check the term themselves, an older message changes nothing but a
timer; where they do not, it takes the node back. -/

namespace AegisDB.Consensus

open Foundation

/-! ## Term and vote -/

/-- The term does not fall, and the vote of a term that stays is kept. -/
structure MovesForward (raft after : Raft) : Prop where
  term : raft.term ≤ after.term
  vote : after.term = raft.term → raft.vote ≠ NONE → after.vote = raft.vote

namespace Raft

def ballot (raft : Raft) : Nat × Nat := (raft.term, raft.vote)

variable {raft after : Raft} {m : Message}

theorem movesForward_of_ballot (same : after.ballot = raft.ballot) : MovesForward raft after := by
  simp only [ballot, Prod.mk.injEq] at same
  exact ⟨same.1.ge, fun _ _ => same.2⟩

theorem movesForward_of_newer {term vote : Nat} (ballot : after.ballot = (term, vote))
    (newer : raft.term < term) : MovesForward raft after := by
  simp only [Raft.ballot, Prod.mk.injEq] at ballot
  refine ⟨by omega, fun same => ?_⟩
  omega

theorem movesForward_iff_of_cleared {term : Nat} (ballot : after.ballot = (term, NONE))
    (notNewer : term ≤ raft.term) :
    MovesForward raft after ↔ term = raft.term ∧ raft.vote = NONE := by
  simp only [Raft.ballot, Prod.mk.injEq] at ballot
  constructor
  · intro forward
    have same : term = raft.term := by
      have := forward.term
      omega
    refine ⟨same, ?_⟩
    by_contra voted
    have kept := forward.vote (ballot.1.trans same) voted
    exact voted (kept.symm.trans ballot.2)
  · intro ⟨same, unvoted⟩
    exact ⟨by omega, fun _ voted => absurd unvoted voted⟩

/-! ### What the handlers do to term and vote -/

theorem blind_ballot : Blind ballot := ⟨fun _ _ => rfl, fun _ _ => rfl⟩

theorem ballot_campaign (raft : Raft) (draw : Nat) :
    (raft.campaign draw).raft.ballot = (wrap (raft.term + 1), raft.id) := by
  rw [campaign]
  dsimp only
  split
  · exact view_becomeLeader blind_ballot (raft.becomeCandidate draw)
  · split
    · rfl
    · exact forPeers_preserves (fun other => other.ballot = (wrap (raft.term + 1), raft.id))
        (fun _ _ same => same) rfl

variable (draw : Nat)

theorem movesForward_handleRequestVote (notNewer : m.term ≤ raft.term) :
    MovesForward raft (raft.handleRequestVote draw m).raft := by
  rw [handleRequestVote]
  split
  · exact movesForward_of_ballot rfl
  · rw [if_neg (not_lt.mpr notNewer)]
    dsimp only
    split_ifs with granted
    · refine ⟨le_rfl, fun _ voted => ?_⟩
      have free : raft.vote = NONE ∨ raft.vote = m.fromId := by
        simpa [canVote] using (Bool.and_eq_true_iff.mp granted).1
      exact (free.resolve_left voted).symm
    · exact movesForward_of_ballot rfl

theorem ballot_noteResponse (raft : Raft) (m : Message) :
    (raft.noteResponse m).ballot = raft.ballot := by
  rw [noteResponse_eq]
  rfl

theorem ballot_handleAppendResponse (raft : Raft) (m : Message) :
    (raft.handleAppendResponse m).raft.ballot = raft.ballot := by
  rw [view_handleAppendResponse blind_ballot, ballot_noteResponse, ite_self]

theorem ballot_handleHeartbeatResponse (raft : Raft) (m : Message) :
    (raft.handleHeartbeatResponse m).raft.ballot = raft.ballot :=
  view_handleHeartbeatResponse blind_ballot.messages raft m

/-! ### One message -/

def LosesBy (raft : Raft) (m : Message) : Prop :=
  let raft := { raft with votes := raft.votes.insert m.fromId (!m.reject) }
  raft.countVotes true < raft.quorum ∧ raft.quorum ≤ raft.countVotes false

/-- The term stays in its range, and no vote is given up in a term that is not newer. -/
def KeepsBallot (raft : Raft) (m : Message) : Prop :=
  if raft.term < m.term then
    m.msgType = .msgHup → m.term + 1 < wordSize ∨
      raft.term = 0 ∧ (raft.vote = NONE ∨ raft.vote = raft.id)
  else
    match raft.state, m.msgType with
    | .follower, .msgHup | .candidate, .msgHup => raft.term + 1 < wordSize
    | .candidate, .msgAppend | .candidate, .msgHeartbeat | .candidate, .msgSnapshot
    | .leader, .msgSnapshot => m.term = raft.term ∧ raft.vote = NONE
    | .candidate, .msgRequestVoteResponse =>
      m.term = raft.term → raft.LosesBy m → raft.vote = NONE
    | _, _ => True

theorem movesForward_campaign_iff (small : raft.term < wordSize) :
    MovesForward raft (raft.campaign draw).raft ↔ raft.term + 1 < wordSize := by
  have ballot := raft.ballot_campaign draw
  constructor
  · intro forward
    by_contra last
    have wrapped : wrap (raft.term + 1) = 0 := by
      have end_ : raft.term + 1 = wordSize := by omega
      rw [end_, wrap, Nat.mod_self]
    rw [wrapped] at ballot
    have term : (raft.campaign draw).raft.term = 0 := congrArg Prod.fst ballot
    have := forward.term
    have large : 1 < wordSize := by decide
    omega
  · intro room
    rw [wrap_of_lt room] at ballot
    exact movesForward_of_newer ballot (Nat.lt_succ_self _)

theorem movesForward_handleRequestVoteResponse_iff (candidate : raft.state = .candidate) :
    MovesForward raft (raft.handleRequestVoteResponse draw m).raft ↔
      (m.term = raft.term → raft.LosesBy m → raft.vote = NONE) := by
  rw [handleRequestVoteResponse]
  split_ifs with other
  · have different : m.term ≠ raft.term := other.resolve_right (not_not.mpr candidate)
    exact ⟨fun _ current => absurd current different, fun _ => movesForward_of_ballot rfl⟩
  · have other : m.term = raft.term := by
      by_contra different
      exact other (.inl different)
    dsimp only
    split
    · rename_i won
      refine ⟨fun _ _ loses => absurd loses.1 (not_lt.mpr won), fun _ => ?_⟩
      exact movesForward_of_ballot (view_becomeLeader blind_ballot _)
    · rename_i notWon
      split_ifs with lost
      · have loses : raft.LosesBy m := ⟨not_le.mp notWon, lost⟩
        refine (movesForward_iff_of_cleared rfl le_rfl).trans ?_
        exact ⟨fun both _ _ => both.2, fun unvoted => ⟨rfl, unvoted other loses⟩⟩
      · exact ⟨fun _ _ loses => absurd loses.2 lost, fun _ => movesForward_of_ballot rfl⟩

theorem movesForward_stepFollower_iff (small : raft.term < wordSize)
    (notNewer : m.term ≤ raft.term) :
    MovesForward raft (raft.stepFollower draw m).raft ↔
      (m.msgType = .msgHup → raft.term + 1 < wordSize) := by
  have kept : ∀ {after : Raft}, after.ballot = raft.ballot → m.msgType ≠ .msgHup →
      (MovesForward raft after ↔ (m.msgType = .msgHup → raft.term + 1 < wordSize)) :=
    fun same other => ⟨fun _ hup => absurd hup other, fun _ => movesForward_of_ballot same⟩
  have current : ∀ {ballot : Nat × Nat},
      ballot = (if m.term < raft.term then raft.ballot else (m.term, raft.vote)) →
      ballot = raft.ballot := by
    rintro _ rfl
    split
    · rfl
    · have same : m.term = raft.term := by omega
      rw [same]
      rfl
  rw [stepFollower]
  split
  · rename_i hup
    rw [movesForward_campaign_iff draw small]
    simp [hup]
  · rename_i beat
    split
    · exact kept rfl (by simp [beat])
    · exact kept rfl (by simp [beat])
  · rename_i propose
    split
    · exact kept rfl (by simp [propose])
    · exact kept rfl (by simp [propose])
  · rename_i append
    exact kept (current (view_handleAppendEntries blind_ballot _ m)) (by simp [append])
  · rename_i heartbeat
    exact kept (current (view_handleHeartbeat blind_ballot _ m)) (by simp [heartbeat])
  · rename_i snapshot
    exact kept (view_handleSnapshot blind_ballot _ m) (by simp [snapshot])
  · rename_i request
    exact ⟨fun _ hup => by simp [request] at hup,
      fun _ => movesForward_handleRequestVote draw notNewer⟩
  · rename_i notHup _ _ _ _ _ _
    exact kept rfl notHup

theorem ballot_becomeFollower_handle (raft : Raft) (draw lead : Nat) (m : Message) :
    ((raft.becomeFollower draw m.term lead).handleAppendEntries m).raft.ballot =
        (m.term, NONE) ∧
      ((raft.becomeFollower draw m.term lead).handleHeartbeat m).raft.ballot = (m.term, NONE) ∧
      ((raft.becomeFollower draw m.term lead).handleSnapshot m).raft.ballot =
        (m.term, NONE) := by
  rw [view_handleAppendEntries blind_ballot, view_handleHeartbeat blind_ballot,
    view_handleSnapshot blind_ballot]
  exact ⟨ite_self _, ite_self _, rfl⟩

theorem movesForward_stepCandidate_iff (small : raft.term < wordSize)
    (notNewer : m.term ≤ raft.term) (candidate : raft.state = .candidate) :
    MovesForward raft (raft.stepCandidate draw m).raft ↔ raft.KeepsBallot m := by
  have cleared := raft.ballot_becomeFollower_handle draw m.fromId m
  rw [KeepsBallot, if_neg (not_lt.mpr notNewer), candidate, stepCandidate]
  cases m.msgType with
  | msgHup => exact movesForward_campaign_iff draw small
  | msgAppend => exact movesForward_iff_of_cleared cleared.1 notNewer
  | msgHeartbeat => exact movesForward_iff_of_cleared cleared.2.1 notNewer
  | msgSnapshot => exact movesForward_iff_of_cleared cleared.2.2 notNewer
  | msgRequestVote =>
    exact iff_of_true (movesForward_handleRequestVote draw notNewer) trivial
  | msgRequestVoteResponse => exact movesForward_handleRequestVoteResponse_iff draw candidate
  | _ => exact iff_of_true (movesForward_of_ballot rfl) trivial

theorem movesForward_stepLeader_iff (notNewer : m.term ≤ raft.term)
    (leader : raft.state = .leader) :
    MovesForward raft (raft.stepLeader draw m).raft ↔ raft.KeepsBallot m := by
  have cleared := raft.ballot_becomeFollower_handle draw m.fromId m
  rw [KeepsBallot, if_neg (not_lt.mpr notNewer), leader, stepLeader]
  cases m.msgType with
  | msgBeat =>
    exact iff_of_true
      (movesForward_of_ballot (view_bcastHeartbeat blind_ballot.messages raft)) trivial
  | msgPropose =>
    refine iff_of_true (movesForward_of_ballot ?_) trivial
    apply view_andThen (view_appendLocal blind_ballot raft _)
    intro other same
    rw [view_bcastAppend blind_ballot.messages, view_maybeCommit blind_ballot, same]
  | msgAppendResponse =>
    exact iff_of_true (movesForward_of_ballot (raft.ballot_handleAppendResponse m)) trivial
  | msgHeartbeatResponse =>
    exact iff_of_true (movesForward_of_ballot (raft.ballot_handleHeartbeatResponse m)) trivial
  | msgRequestVote =>
    exact iff_of_true (movesForward_handleRequestVote draw notNewer) trivial
  | msgSnapshot => exact movesForward_iff_of_cleared cleared.2.2 notNewer
  | _ => exact iff_of_true (movesForward_of_ballot rfl) trivial

theorem movesForward_wrapped_iff (ballot : after.ballot = (0, raft.id)) :
    MovesForward raft after ↔
      raft.term = 0 ∧ (raft.vote = NONE ∨ raft.vote = raft.id) := by
  simp only [Raft.ballot, Prod.mk.injEq] at ballot
  constructor
  · intro forward
    have atZero : raft.term = 0 := by
      have := forward.term
      omega
    refine ⟨atZero, or_iff_not_imp_left.mpr fun voted => ?_⟩
    rw [← forward.vote (ballot.1.trans atZero.symm) voted, ballot.2]
  · rintro ⟨atZero, unvoted | own⟩
    · exact ⟨by omega, fun _ voted => absurd unvoted voted⟩
    · exact ⟨by omega, fun _ _ => ballot.2.trans own.symm⟩

theorem movesForward_newer_iff (draw lead : Nat) (newer : raft.term < m.term)
    (small : m.term < wordSize) :
    MovesForward raft ((raft.becomeFollower draw m.term lead).stepFollower draw m).raft ↔
      raft.KeepsBallot m := by
  have followed : MovesForward (raft.becomeFollower draw m.term lead)
      ((raft.becomeFollower draw m.term lead).stepFollower draw m).raft ↔
      (m.msgType = .msgHup → m.term + 1 < wordSize) :=
    movesForward_stepFollower_iff draw small le_rfl
  have onward : MovesForward (raft.becomeFollower draw m.term lead)
      ((raft.becomeFollower draw m.term lead).stepFollower draw m).raft →
      MovesForward raft ((raft.becomeFollower draw m.term lead).stepFollower draw m).raft := by
    intro forward
    have risen : m.term ≤ _ := forward.term
    exact ⟨newer.le.trans risen, fun same => by omega⟩
  rw [KeepsBallot, if_pos newer]
  by_cases hup : m.msgType = .msgHup
  · by_cases room : m.term + 1 < wordSize
    · exact iff_of_true (onward (followed.mpr fun _ => room)) fun _ => .inl room
    · have ballot := (raft.becomeFollower draw m.term lead).ballot_campaign draw
      have last : (raft.becomeFollower draw m.term lead).term + 1 = wordSize := by
        change m.term + 1 = wordSize
        omega
      rw [last, wrap, Nat.mod_self] at ballot
      simp only [stepFollower, hup, room, false_or, forall_const]
      exact movesForward_wrapped_iff ballot
  · exact iff_of_true (onward (followed.mpr fun isHup => absurd isHup hup))
      fun isHup => absurd isHup hup

theorem movesForward_step_iff (raft : Raft) (draw : Nat) (m : Message)
    (raftSmall : raft.term < wordSize) (small : m.term < wordSize) :
    MovesForward raft (raft.step draw m).raft ↔ raft.KeepsBallot m := by
  rw [step]
  rcases raft.adoptTerm_cases draw m with ⟨notNewer, same⟩ | ⟨lead, newer, adopted⟩
  · rw [same]
    cases role : raft.state with
    | follower =>
      refine (movesForward_stepFollower_iff draw raftSmall notNewer).trans ?_
      rw [KeepsBallot, if_neg (not_lt.mpr notNewer), role]
      cases m.msgType <;> simp
    | candidate => exact movesForward_stepCandidate_iff draw raftSmall notNewer role
    | leader => exact movesForward_stepLeader_iff draw notNewer role
  · rw [adopted]
    exact movesForward_newer_iff draw lead newer small

def Fires (raft : Raft) : Prop :=
  raft.state ≠ .leader ∧ raft.electionElapsed + 1 ≥ raft.randomElectionTimeout

theorem movesForward_tick_iff (small : raft.term < wordSize) :
    MovesForward raft (raft.tick draw).raft ↔ (raft.Fires → raft.term + 1 < wordSize) := by
  have notNewer : ¬ raft.term < 0 := Nat.not_lt_zero _
  have positive : 0 < wordSize := by decide
  rw [tick]
  split
  · rename_i leader
    refine iff_of_true ?_ fun fires => absurd leader fires.1
    split
    · have beaten : MovesForward { raft with heartbeatElapsed := 0 }
          ({ raft with heartbeatElapsed := 0 }.step draw
            { msgType := .msgBeat, fromId := raft.id }).raft := by
        rw [movesForward_step_iff { raft with heartbeatElapsed := 0 } draw
          { msgType := .msgBeat, fromId := raft.id } small positive, KeepsBallot,
          if_neg notNewer, leader]
        trivial
      rw [Outcome.raft_ignoreError]
      exact ⟨beaten.term, beaten.vote⟩
    · exact movesForward_of_ballot rfl
  · rename_i notLeader
    split_ifs with elapsed
    · have campaigned : MovesForward { raft with electionElapsed := 0 }
          ({ raft with electionElapsed := 0 }.step draw
            { msgType := .msgHup, fromId := raft.id }).raft ↔ raft.term + 1 < wordSize := by
        rw [movesForward_step_iff { raft with electionElapsed := 0 } draw
          { msgType := .msgHup, fromId := raft.id } small positive, KeepsBallot, if_neg notNewer]
        cases role : raft.state with
        | follower => rfl
        | candidate => rfl
        | leader => exact absurd role notLeader
      have fires : raft.Fires := ⟨notLeader, elapsed⟩
      rw [Outcome.raft_ignoreError]
      constructor
      · exact fun forward _ => campaigned.mp ⟨forward.term, forward.vote⟩
      · intro room
        have forward := campaigned.mpr (room fires)
        exact ⟨forward.term, forward.vote⟩
    · exact iff_of_true (movesForward_of_ballot rfl) fun fires => absurd fires.2 elapsed

end Raft

/-- Term and vote move forward exactly if the message keeps the ballot or, at a tick, a campaign
does not take the term out of its range. -/
theorem movesForward_iff {raft : Raft} (raftSmall : raft.term < wordSize) :
    (∀ draw m, m.term < wordSize →
      (MovesForward raft (raft.step draw m).raft ↔ raft.KeepsBallot m)) ∧
    (∀ draw, MovesForward raft (raft.tick draw).raft ↔
      (raft.Fires → raft.term + 1 < wordSize)) :=
  ⟨fun draw m small => Raft.movesForward_step_iff raft draw m raftSmall small,
    fun draw => Raft.movesForward_tick_iff draw raftSmall⟩

def standing : Raft where
  id := 1
  term := 2
  vote := 1
  raftLog :=
    { committed := 0, applied := 0, stabled := 0, entries := [], pendingSnapshot := none }
  prs := (OrderedMap.empty.insert 2 (Progress.new 1)).insert 3 (Progress.new 1)
  state := .candidate
  votes := OrderedMap.empty.insert 1 true
  msgs := []
  lead := NONE
  heartbeatTimeout := 1
  electionTimeout := 2
  heartbeatElapsed := 0
  electionElapsed := 1
  randomElectionTimeout := 2

/-- A vote for another candidate is refused, and the next campaign is in term 3. -/
theorem movesForward_standing :
    MovesForward standing
        (standing.step 0 { msgType := .msgRequestVote, fromId := 2, toId := 1, term := 2 }).raft ∧
      MovesForward standing (standing.tick 0).raft ∧ (standing.tick 0).raft.term = 3 :=
  ⟨((movesForward_iff (by decide)).1 0 _ (by decide)).mpr trivial,
    ((movesForward_iff (by decide)).2 0).mpr fun _ => by decide, by decide +kernel⟩

/-- An append of term 1 takes the candidate back to term 1. -/
theorem term_falls :
    ∃ raft draw m, raft.term < wordSize ∧ m.term < wordSize ∧
      ¬ MovesForward raft (raft.step draw m).raft := by
  refine ⟨standing, 0, { msgType := .msgAppend, fromId := 2, toId := 1, term := 1 },
    by decide, by decide, fun forward => ?_⟩
  have fallen : (standing.step 0
      { msgType := .msgAppend, fromId := 2, toId := 1, term := 1 }).raft.term = 1 := by
    decide +kernel
  have kept := forward.term
  rw [fallen] at kept
  exact absurd kept (by decide)

/-! ## Messages of older terms -/

/-- Role, leader, log and progress are as before, and only rejections were sent. -/
structure Untouched (raft after : Raft) : Prop where
  state : after.state = raft.state
  lead : after.lead = raft.lead
  entries : after.raftLog.entries = raft.raftLog.entries
  pendingSnapshot : after.raftLog.pendingSnapshot = raft.raftLog.pendingSnapshot
  committed : after.raftLog.committed = raft.raftLog.committed
  applied : after.raftLog.applied = raft.raftLog.applied
  prs : after.prs = raft.prs
  rejections : ∃ sent, after.msgs = raft.msgs ++ sent ∧ ∀ message ∈ sent, message.reject = true

def MessageType.isNetwork (msgType : MessageType) : Bool :=
  msgType.isResponse || msgType == .msgAppend || msgType == .msgHeartbeat ||
    msgType == .msgSnapshot || msgType == .msgRequestVote

namespace Raft

variable {raft after : Raft} {m : Message}

theorem untouched_of_timer (elapsed : Nat) :
    Untouched raft { raft with electionElapsed := elapsed } :=
  ⟨rfl, rfl, rfl, rfl, rfl, rfl, rfl, [], (List.append_nil _).symm, nofun⟩

theorem untouched_of_rejection {message : Message} (elapsed : Nat)
    (rejects : message.reject = true) :
    Untouched raft ({ raft with electionElapsed := elapsed }.push message) := by
  refine ⟨rfl, rfl, rfl, rfl, rfl, rfl, rfl, [message], rfl, ?_⟩
  simp [rejects]

def Ignores (raft : Raft) (m : Message) : Prop :=
  match raft.state, m.msgType with
  | .candidate, .msgAppend | .candidate, .msgHeartbeat | .candidate, .msgSnapshot
  | .leader, .msgSnapshot => False
  | .follower, .msgSnapshot =>
    ∀ snapshot ∈ m.snapshot, snapshot.metadata.index ≤ raft.raftLog.committed
  | _, _ => True

theorem untouched_handleSnapshot_iff (elapsed : Nat) :
    Untouched raft ({ raft with electionElapsed := elapsed }.handleSnapshot m).raft ↔
      ∀ snapshot ∈ m.snapshot, snapshot.metadata.index ≤ raft.raftLog.committed := by
  rw [handleSnapshot]
  split
  · rename_i absent
    exact iff_of_true (untouched_of_timer elapsed) (by simp [absent])
  · rename_i snapshot present
    split
    · rename_i behind
      refine iff_of_true (untouched_of_timer elapsed) ?_
      simpa [present] using behind
    · rename_i ahead
      have notEmpty : snapshot.isEmpty = false := by
        change ¬ snapshot.metadata.index ≤ raft.raftLog.committed at ahead
        simp only [Snapshot.isEmpty, beq_eq_false_iff_ne]
        omega
      have applied : raft.raftLog.applySnapshot snapshot =
          .ok { committed := snapshot.metadata.index, applied := snapshot.metadata.index,
                stabled := snapshot.metadata.index, entries := [],
                pendingSnapshot := some snapshot } := by
        rw [RaftLog.applySnapshot, if_neg (by simp [notEmpty]), if_neg ahead]
      refine iff_of_false (fun untouched => ?_) fun behind => ahead (behind snapshot present)
      have committed := untouched.committed
      rw [applied] at committed
      change snapshot.metadata.index = raft.raftLog.committed at committed
      exact ahead committed.le

theorem not_untouched_of_follower (notFollower : raft.state ≠ .follower)
    (follows : after.state = .follower) : ¬ Untouched raft after := by
  intro untouched
  exact notFollower (untouched.state ▸ follows)

theorem state_becomeFollower_handle (raft : Raft) (draw term lead : Nat) (m : Message) :
    ((raft.becomeFollower draw term lead).handleAppendEntries m).raft.state = .follower ∧
      ((raft.becomeFollower draw term lead).handleHeartbeat m).raft.state = .follower ∧
      ((raft.becomeFollower draw term lead).handleSnapshot m).raft.state = .follower := by
  have blind : Blind Raft.state := ⟨fun _ _ => rfl, fun _ _ => rfl⟩
  rw [view_handleAppendEntries blind, view_handleHeartbeat blind, view_handleSnapshot blind]
  exact ⟨ite_self _, ite_self _, rfl⟩

theorem untouched_stepFollower_iff (draw : Nat) (stale : m.term < raft.term)
    (follower : raft.state = .follower) (network : m.msgType.isNetwork = true) :
    Untouched raft (raft.stepFollower draw m).raft ↔ raft.Ignores m := by
  rw [Ignores, follower, stepFollower]
  cases kind : m.msgType with
  | msgAppend =>
    refine iff_of_true ?_ trivial
    dsimp only
    rw [handleAppendEntries, if_pos stale]
    exact untouched_of_rejection 0 rfl
  | msgHeartbeat =>
    refine iff_of_true ?_ trivial
    dsimp only
    rw [handleHeartbeat, if_pos stale]
    exact untouched_of_timer 0
  | msgSnapshot => exact untouched_handleSnapshot_iff 0
  | msgRequestVote =>
    refine iff_of_true ?_ trivial
    dsimp only
    rw [handleRequestVote, if_pos stale]
    exact untouched_of_rejection raft.electionElapsed rfl
  | msgHup => simp [kind, MessageType.isNetwork, MessageType.isResponse] at network
  | msgBeat => simp [kind, MessageType.isNetwork, MessageType.isResponse] at network
  | msgPropose => simp [kind, MessageType.isNetwork, MessageType.isResponse] at network
  | _ => exact iff_of_true (untouched_of_timer raft.electionElapsed) trivial

theorem untouched_stepCandidate_iff (draw : Nat) (stale : m.term < raft.term)
    (candidate : raft.state = .candidate) (network : m.msgType.isNetwork = true) :
    Untouched raft (raft.stepCandidate draw m).raft ↔ raft.Ignores m := by
  have follows := raft.state_becomeFollower_handle draw m.term m.fromId m
  have notFollower : raft.state ≠ .follower := by simp [candidate]
  rw [Ignores, candidate, stepCandidate]
  cases kind : m.msgType with
  | msgAppend => exact iff_of_false (not_untouched_of_follower notFollower follows.1) not_false
  | msgHeartbeat => exact iff_of_false (not_untouched_of_follower notFollower follows.2.1) not_false
  | msgSnapshot => exact iff_of_false (not_untouched_of_follower notFollower follows.2.2) not_false
  | msgRequestVote =>
    refine iff_of_true ?_ trivial
    dsimp only
    rw [handleRequestVote, if_pos stale]
    exact untouched_of_rejection raft.electionElapsed rfl
  | msgRequestVoteResponse =>
    refine iff_of_true ?_ trivial
    dsimp only
    rw [handleRequestVoteResponse, if_pos (.inl stale.ne)]
    exact untouched_of_timer raft.electionElapsed
  | msgHup => simp [kind, MessageType.isNetwork, MessageType.isResponse] at network
  | _ => exact iff_of_true (untouched_of_timer raft.electionElapsed) trivial

theorem untouched_stepLeader_iff (draw : Nat) (stale : m.term < raft.term)
    (leader : raft.state = .leader) (network : m.msgType.isNetwork = true) :
    Untouched raft (raft.stepLeader draw m).raft ↔ raft.Ignores m := by
  have follows := raft.state_becomeFollower_handle draw m.term m.fromId m
  have notFollower : raft.state ≠ .follower := by simp [leader]
  rw [Ignores, leader, stepLeader]
  cases kind : m.msgType with
  | msgAppendResponse =>
    refine iff_of_true ?_ trivial
    dsimp only
    rw [handleAppendResponse, if_pos stale]
    exact untouched_of_timer raft.electionElapsed
  | msgHeartbeatResponse =>
    refine iff_of_true ?_ trivial
    dsimp only
    rw [handleHeartbeatResponse, if_pos stale]
    exact untouched_of_timer raft.electionElapsed
  | msgRequestVote =>
    refine iff_of_true ?_ trivial
    dsimp only
    rw [handleRequestVote, if_pos stale]
    exact untouched_of_rejection raft.electionElapsed rfl
  | msgSnapshot => exact iff_of_false (not_untouched_of_follower notFollower follows.2.2) not_false
  | msgBeat => simp [kind, MessageType.isNetwork, MessageType.isResponse] at network
  | msgPropose => simp [kind, MessageType.isNetwork, MessageType.isResponse] at network
  | _ => exact iff_of_true (untouched_of_timer raft.electionElapsed) trivial

end Raft

/-- An older message leaves the node untouched exactly if the node ignores it. -/
theorem untouched_iff_ignores {raft : Raft} {m : Message} (draw : Nat)
    (network : m.msgType.isNetwork = true) (stale : m.term < raft.term) :
    Untouched raft (raft.step draw m).raft ↔ raft.Ignores m := by
  have same : raft.adoptTerm draw m = raft := by
    rw [Raft.adoptTerm, if_neg (by omega)]
  rw [Raft.step, same]
  cases role : raft.state with
  | follower => exact Raft.untouched_stepFollower_iff draw stale role network
  | candidate => exact Raft.untouched_stepCandidate_iff draw stale role network
  | leader => exact Raft.untouched_stepLeader_iff draw stale role network

/-- An older vote request and an older response leave a candidate alone. -/
theorem untouched_standing :
    Untouched standing
        (standing.step 0 { msgType := .msgRequestVote, fromId := 2, toId := 1, term := 1 }).raft ∧
      Untouched standing (standing.step 0
        { msgType := .msgRequestVoteResponse, fromId := 2, toId := 1, term := 1 }).raft :=
  ⟨(untouched_iff_ignores 0 (by decide) (by decide)).mpr trivial,
    (untouched_iff_ignores 0 (by decide) (by decide)).mpr trivial⟩

/-- A heartbeat of term 1 makes the candidate of term 2 a follower. -/
theorem candidate_touched_by_stale_heartbeat :
    ∃ raft draw m, m.msgType.isNetwork = true ∧ m.term < raft.term ∧
      ¬ Untouched raft (raft.step draw m).raft := by
  refine ⟨standing, 0, { msgType := .msgHeartbeat, fromId := 2, toId := 1, term := 1 },
    by decide, by decide, fun untouched => ?_⟩
  have follows : (standing.step 0
      { msgType := .msgHeartbeat, fromId := 2, toId := 1, term := 1 }).raft.state =
      .follower := by decide +kernel
  exact absurd (untouched.state.symm.trans follows) (by decide)

end AegisDB.Consensus

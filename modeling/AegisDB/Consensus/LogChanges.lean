import AegisDB.Consensus.Moves

/-! # What a message changes

Most handlers leave most of a node alone: what a view of the node shows is followed
through them. The log is changed at most once for a message, and then at most the commit
index; this is so for every message, in time or not. -/

namespace AegisDB.Consensus

open Foundation Outcome

namespace Raft

/-! ## Views -/

def BlindToMessages {β : Type} (view : Raft → β) : Prop :=
  ∀ raft msgs, view { raft with msgs } = view raft

structure Blind {β : Type} (view : Raft → β) : Prop where
  messages : BlindToMessages view
  raftLog : ∀ raft raftLog, view { raft with raftLog } = view raft

theorem forPeers_preserves {handle : Raft → Nat → Outcome} (property : Raft → Prop)
    (each : ∀ raft peer, property raft → property (handle raft peer).raft) {peers : List Nat}
    {raft : Raft} (holds : property raft) : property (forPeers handle peers raft).raft := by
  induction peers generalizing raft with
  | nil => exact holds
  | cons peer rest induction =>
    rw [forPeers, andThen]
    split
    · exact induction (each raft peer holds)
    · exact each raft peer holds

section View

variable {β : Type} {view : Raft → β}

theorem view_push (blind : BlindToMessages view) (raft : Raft) (message : Message) :
    view (raft.push message) = view raft :=
  blind raft _

theorem view_sendAppend (blind : BlindToMessages view) (raft : Raft) (peer : Nat) :
    view (raft.sendAppend peer).raft = view raft := by
  rcases raft.sendAppend_cases peer with same | ⟨progress, entries, _, _, pushed⟩
  · rw [same]
  · rw [pushed, view_push blind]

theorem view_bcastAppend (blind : BlindToMessages view) (raft : Raft) :
    view raft.bcastAppend.raft = view raft :=
  forPeers_preserves (fun other => view other = view raft)
    (fun other peer same => (view_sendAppend blind other peer).trans same) rfl

theorem view_bcastHeartbeat (blind : BlindToMessages view) (raft : Raft) :
    view raft.bcastHeartbeat.raft = view raft :=
  forPeers_preserves (fun other => view other = view raft)
    (fun other _ same => (view_push blind other _).trans same) rfl

theorem view_andThen {outcome : Outcome} {next : Raft → Outcome} {shown : β}
    (first : view outcome.raft = shown)
    (rest : ∀ other : Raft, view other = shown → view (next other).raft = shown) :
    view (outcome.andThen next).raft = shown := by
  rw [andThen]
  split
  · exact rest outcome.raft first
  · exact first

variable (blind : Blind view) (raft : Raft)

include blind

theorem view_appendLocal (entries : List Entry) :
    view (raft.appendLocal entries).raft = view raft := by
  rw [appendLocal]
  split
  · rename_i raftLog _
    exact blind.raftLog raft raftLog
  · rfl

theorem view_becomeLeader :
    view raft.becomeLeader.raft = view raft.takeLead := by
  apply view_andThen
  · exact view_appendLocal blind raft.takeLead [raft.noopEntry]
  · intro other same
    rw [raft_ignoreError, view_bcastAppend blind.messages, same]

theorem view_maybeCommit :
    view raft.maybeCommit = view raft := by
  rw [maybeCommit_eq]
  exact blind.raftLog raft _

theorem view_followCommit (commit : Nat) :
    view (raft.followCommit commit) = view raft := by
  rw [followCommit_eq]
  exact blind.raftLog raft _

theorem view_acceptEntries (m : Message) :
    view (raft.acceptEntries m).raft = view raft := by
  apply view_andThen (view_appendLocal blind raft m.entries)
  intro other same
  exact ((view_push blind.messages _ _).trans (view_followCommit blind other m.commit)).trans same

theorem view_handleAppendEntries (m : Message) :
    view (raft.handleAppendEntries m).raft =
      if m.term < raft.term then view raft
      else view { raft with term := m.term, lead := m.fromId } := by
  rw [handleAppendEntries]
  split
  · exact view_push blind.messages raft _
  · dsimp only
    split
    · exact view_push blind.messages { raft with term := m.term, lead := m.fromId } _
    · split
      · split
        · rfl
        · split
          · exact view_push blind.messages { raft with term := m.term, lead := m.fromId } _
          · exact view_acceptEntries blind _ m
      · exact view_acceptEntries blind _ m

theorem view_handleHeartbeat (m : Message) :
    view (raft.handleHeartbeat m).raft =
      if m.term < raft.term then view raft
      else view { raft with term := m.term, lead := m.fromId } := by
  rw [handleHeartbeat]
  split
  · rfl
  · exact (view_push blind.messages _ _).trans (view_followCommit blind _ m.commit)

theorem view_handleSnapshot (m : Message) :
    view (raft.handleSnapshot m).raft = view raft := by
  rw [handleSnapshot]
  split
  · rfl
  · split
    · rfl
    · split
      · rfl
      · exact (view_push blind.messages _ _).trans (blind.raftLog raft _)

theorem view_counted (m : Message) :
    view (raft.counted m) = view (raft.noteResponse m) := by
  rw [counted]
  split
  · rfl
  · exact view_maybeCommit blind (raft.noteResponse m)

theorem view_handleAppendResponse (m : Message) :
    view (raft.handleAppendResponse m).raft =
      if m.term < raft.term then view raft else view (raft.noteResponse m) := by
  rcases raft.handleAppendResponse_cases m with ⟨older, same⟩ | ⟨notOlder, ending⟩
  · rw [same, if_pos older]
    rfl
  · rw [if_neg (not_lt.mpr notOlder), ← view_counted blind]
    rcases ending with quiet | sends
    · rw [quiet]
      rfl
    · rw [sends]
      exact view_sendAppend blind.messages (raft.counted m) m.fromId

omit blind

theorem view_handleHeartbeatResponse (blind : BlindToMessages view) (raft : Raft) (m : Message) :
    view (raft.handleHeartbeatResponse m).raft = view raft := by
  rcases raft.handleHeartbeatResponse_cases m with quiet | sends
  · rw [quiet]
    rfl
  · rw [sends]
    exact view_sendAppend blind raft m.fromId

end View

end Raft

/-! ## The commit index -/

inductive CommitChange (log : RaftLog) : RaftLog → Prop where
  | keep : CommitChange log log
  | raise (index : Nat) (above : log.committed < index) :
      CommitChange log { log with committed := index }
  | follow (index : Nat) (above : log.committed < index) :
      CommitChange log { log with committed := min index log.lastIndex }

variable {log after : RaftLog}

theorem CommitChange.entries (change : CommitChange log after) :
    after.entries = log.entries := by
  cases change with
  | keep | raise | follow => rfl

def RaftLog.follow (log : RaftLog) (commit : Nat) : RaftLog :=
  if commit > log.committed then { log with committed := min commit log.lastIndex } else log

namespace RaftLog

theorem follow_change (log : RaftLog) (commit : Nat) : CommitChange log (log.follow commit) := by
  rw [follow]
  split_ifs with above
  · exact .follow commit above
  · exact .keep

theorem follow_eq (log : RaftLog) (commit : Nat) :
    log.follow commit = { log with committed := (log.follow commit).committed } := by
  rw [follow]
  split <;> rfl

end RaftLog

namespace Raft

theorem raftLog_followCommit (raft : Raft) (commit : Nat) :
    (raft.followCommit commit).raftLog = raft.raftLog.follow commit := by
  rw [followCommit, RaftLog.follow]
  split <;> rfl

theorem maybeCommit_change (raft : Raft) :
    CommitChange raft.raftLog raft.maybeCommit.raftLog := by
  rw [maybeCommit]
  split
  · exact .keep
  · dsimp only
    split
    · exact .keep
    · rename_i index _
      split_ifs with chosen
      · exact .raise index chosen.1
      · exact .keep

end Raft

/-! ## Append messages -/

inductive Appended (m : Message) (log : RaftLog) :
    RaftLog → Fallible Unit → Option (Bool × Nat) → Prop where
  | beyond (beyond : log.lastIndex < m.index) :
      Appended m log log (.ok ()) (some (true, log.lastIndex))
  | unknown (within : m.index ≤ log.lastIndex) (positive : 0 < m.index)
      (missing : log.termSync m.index = none) :
      Appended m log log
        (.error (.error ("cannot get term for index " ++ toString m.index))) none
  | mismatch (term : Nat) (within : m.index ≤ log.lastIndex) (positive : 0 < m.index)
      (found : log.termSync m.index = some term) (differs : term ≠ m.logTerm) :
      Appended m log log (.ok ()) (some (true, m.index - 1))
  | fail (fault : Fault) (accepted : log.Accepts m)
      (failed : log.append m.entries = .error fault) : Appended m log log (.error fault) none
  | take (after : RaftLog) (accepted : log.Accepts m)
      (appended : log.append m.entries = .ok after) :
      Appended m log (after.follow m.commit) (.ok ()) (some (false, after.lastIndex))

namespace Raft

def answerMessage (raft : Raft) (m : Message) (answer : Bool × Nat) : Message where
  msgType := .msgAppendResponse
  toId := m.fromId
  fromId := raft.id
  term := m.term
  reject := answer.1
  index := answer.2

structure EndsAppend (raft : Raft) (m : Message) (outcome : Outcome)
    (answer : Option (Bool × Nat)) : Prop where
  ending : Appended m raft.raftLog outcome.raft.raftLog outcome.result answer
  msgs : outcome.raft.msgs = raft.msgs ++ (answer.map (raft.answerMessage m)).toList

variable {m : Message}

theorem acceptEntries_ends (raft : Raft) (current : raft.term = m.term)
    (accepted : raft.raftLog.Accepts m) :
    ∃ answer, raft.EndsAppend m (raft.acceptEntries m) answer := by
  rw [acceptEntries, appendLocal]
  cases appended : raft.raftLog.append m.entries with
  | error fault => exact ⟨none, .fail fault accepted appended, (List.append_nil _).symm⟩
  | ok after =>
    have committed := raftLog_followCommit { raft with raftLog := after } m.commit
    refine ⟨some (false, after.lastIndex), ?_, ?_⟩
    · have taken := Appended.take after accepted appended
      rw [← committed] at taken
      exact taken
    · change _ ++ [_] = _ ++ [_]
      rw [followCommit_eq, lastIndex_followCommit]
      simp only [appendResponse, answerMessage, current]
      rfl

theorem handleAppendEntries_ends {raft : Raft} (current : raft.term ≤ m.term) :
    ∃ answer, raft.EndsAppend m (raft.handleAppendEntries m) answer := by
  rw [handleAppendEntries, if_neg (not_lt.mpr current)]
  dsimp only
  split
  · rename_i beyond
    exact ⟨_, .beyond beyond, rfl⟩
  · rename_i within
    split
    · rename_i positive
      split
      · rename_i missing
        exact ⟨_, .unknown (not_lt.mp within) positive missing, (List.append_nil _).symm⟩
      · rename_i term found
        split_ifs with differs
        · exact ⟨_, .mismatch term (not_lt.mp within) positive found differs, rfl⟩
        · rw [not_not.mp differs] at found
          rcases acceptEntries_ends { raft with term := m.term, lead := m.fromId } rfl
            ⟨not_lt.mp within, fun _ => found⟩ with ⟨answer, ending, msgs⟩
          exact ⟨answer, ending, msgs⟩
    · rename_i atStart
      rcases acceptEntries_ends { raft with term := m.term, lead := m.fromId } rfl
        ⟨not_lt.mp within, fun positive => absurd positive atStart⟩ with ⟨answer, ending, msgs⟩
      exact ⟨answer, ending, msgs⟩

/-! ## The entries -/

def Hears (raft : Raft) (m : Message) : Prop :=
  raft.term < m.term ∨ raft.state = .candidate ∨ raft.state = .follower ∧ raft.term ≤ m.term

instance decidableHears (raft : Raft) (m : Message) : Decidable (raft.Hears m) :=
  inferInstanceAs (Decidable (_ ∨ _ ∨ _))

end Raft

inductive LogChange (m : Message) (heard : Prop) (log : RaftLog) : RaftLog → Prop where
  | keep : LogChange m heard log log
  | extend (entries : List Entry) (after : RaftLog)
      (count : entries.length = 1 ∨
        m.msgType = .msgPropose ∧ entries.length = m.entries.length)
      (numbered : ∀ position entry, entries[position]? = some entry →
        entry.index = wrap (log.lastIndex + 1 + position))
      (appended : log.append entries = .ok after) : LogChange m heard log after
  | accept (after : RaftLog) (offered : m.msgType = .msgAppend) (hears : heard)
      (accepted : log.Accepts m) (appended : log.append m.entries = .ok after) :
      LogChange m heard log after
  | restore (snapshot : Snapshot) (after : RaftLog) (sent : m.msgType = .msgSnapshot)
      (applied : log.applySnapshot snapshot = .ok after) : LogChange m heard log after

def LogEffect (m : Message) (heard : Prop) (log after : RaftLog) : Prop :=
  ∃ middle, LogChange m heard log middle ∧ CommitChange middle after

variable {m : Message} {heard : Prop}

theorem LogEffect.of_eq (same : after = log) : LogEffect m heard log after :=
  ⟨log, .keep, same ▸ .keep⟩

theorem Appended.effect {result : Fallible Unit}
    {answer : Option (Bool × Nat)} (ending : Appended m log after result answer)
    (offered : m.msgType = .msgAppend) (hears : heard) : LogEffect m heard log after := by
  cases ending with
  | beyond | unknown | mismatch | fail => exact .of_eq rfl
  | take middle accepted appended =>
    exact ⟨middle, .accept middle offered hears accepted appended, middle.follow_change m.commit⟩

namespace Raft

theorem blind_raftLog : BlindToMessages Raft.raftLog := fun _ _ => rfl

variable (raft : Raft)

theorem becomeLeader_effect :
    LogEffect m heard raft.raftLog raft.becomeLeader.raft.raftLog := by
  rw [becomeLeader, appendLocal]
  cases appended : raft.raftLog.append [raft.noopEntry] with
  | error fault =>
    have failed : raft.takeLead.raftLog.append [raft.noopEntry] = .error fault := appended
    rw [failed]
    exact .of_eq rfl
  | ok raftLog =>
    have done : raft.takeLead.raftLog.append [raft.noopEntry] = .ok raftLog := appended
    rw [done, ok_andThen, raft_ignoreError, view_bcastAppend blind_raftLog]
    refine ⟨raftLog, .extend [raft.noopEntry] _ (.inl rfl) ?_ appended, .keep⟩
    intro position entry found
    rcases List.getElem?_eq_some_iff.mp found with ⟨inside, value⟩
    have atStart : position = 0 := by simpa using inside
    subst atStart
    rw [← value]
    rfl

variable (draw : Nat)

theorem campaign_effect :
    LogEffect m heard raft.raftLog (raft.campaign draw).raft.raftLog := by
  rw [campaign]
  dsimp only
  split
  · exact (raft.becomeCandidate draw).becomeLeader_effect
  · split
    · exact .of_eq rfl
    · exact .of_eq (forPeers_preserves (fun other => other.raftLog = raft.raftLog)
        (fun _ _ same => same) rfl)

theorem handleAppendEntries_effect (offered : m.msgType = .msgAppend)
    (hears : raft.term ≤ m.term → heard) :
    LogEffect m heard raft.raftLog (raft.handleAppendEntries m).raft.raftLog := by
  by_cases older : m.term < raft.term
  · rw [handleAppendEntries, if_pos older]
    exact .of_eq rfl
  · rcases handleAppendEntries_ends (not_lt.mp older) with ⟨_, ending, _⟩
    exact ending.effect offered (hears (not_lt.mp older))

theorem handleHeartbeat_effect :
    LogEffect m heard raft.raftLog (raft.handleHeartbeat m).raft.raftLog := by
  rw [handleHeartbeat]
  split
  · exact .of_eq rfl
  · refine ⟨raft.raftLog, .keep, ?_⟩
    have followed := raftLog_followCommit { raft with term := m.term, lead := m.fromId } m.commit
    exact followed ▸ raft.raftLog.follow_change m.commit

theorem handleSnapshot_effect (sent : m.msgType = .msgSnapshot) :
    LogEffect m heard raft.raftLog (raft.handleSnapshot m).raft.raftLog := by
  rw [handleSnapshot]
  split
  · exact .of_eq rfl
  · rename_i snapshot _
    split
    · exact .of_eq rfl
    · split
      · exact .of_eq rfl
      · rename_i raftLog applied
        exact ⟨raftLog, .restore snapshot raftLog sent applied, .keep⟩

theorem handleRequestVote_raftLog :
    (raft.handleRequestVote draw m).raft.raftLog = raft.raftLog := by
  rw [handleRequestVote]
  split
  · rfl
  · split
    · dsimp only
      split <;> rfl
    · dsimp only
      split <;> rfl

theorem handleRequestVoteResponse_effect :
    LogEffect m heard raft.raftLog (raft.handleRequestVoteResponse draw m).raft.raftLog := by
  rw [handleRequestVoteResponse]
  split
  · exact .of_eq rfl
  · dsimp only
    split
    · exact becomeLeader_effect { raft with votes := raft.votes.insert m.fromId (!m.reject) }
    · split
      · exact .of_eq rfl
      · exact .of_eq rfl

theorem raftLog_noteResponse (m : Message) :
    (raft.noteResponse m).raftLog = raft.raftLog := by
  rw [noteResponse_eq]

theorem handleAppendResponse_raftLog :
    (raft.handleAppendResponse m).raft.raftLog =
      if m.term < raft.term then raft.raftLog else (raft.counted m).raftLog := by
  rcases raft.handleAppendResponse_cases m with ⟨older, same⟩ | ⟨notOlder, ending⟩
  · rw [same, if_pos older]
    rfl
  · rw [if_neg (not_lt.mpr notOlder)]
    rcases ending with quiet | sends
    · rw [quiet]
      rfl
    · rw [sends]
      exact view_sendAppend blind_raftLog (raft.counted m) m.fromId

theorem counted_change (m : Message) :
    CommitChange raft.raftLog (raft.counted m).raftLog := by
  rw [← raftLog_noteResponse raft m, counted]
  split
  · exact .keep
  · exact (raft.noteResponse m).maybeCommit_change

theorem handleAppendResponse_change :
    CommitChange raft.raftLog (raft.handleAppendResponse m).raft.raftLog := by
  rw [handleAppendResponse_raftLog]
  split
  · exact .keep
  · exact raft.counted_change m

theorem handleAppendResponse_effect :
    LogEffect m heard raft.raftLog (raft.handleAppendResponse m).raft.raftLog :=
  ⟨raft.raftLog, .keep, raft.handleAppendResponse_change⟩

theorem handleHeartbeatResponse_raftLog :
    (raft.handleHeartbeatResponse m).raft.raftLog = raft.raftLog :=
  view_handleHeartbeatResponse blind_raftLog raft m

theorem propose_effect (proposed : m.msgType = .msgPropose) :
    LogEffect m heard raft.raftLog
      ((raft.appendLocal (raft.proposedEntries m.entries)).andThen
        fun raft => raft.maybeCommit.bcastAppend).raft.raftLog := by
  rw [appendLocal]
  cases appended : raft.raftLog.append (raft.proposedEntries m.entries) with
  | error fault => exact .of_eq rfl
  | ok raftLog =>
    rw [ok_andThen, view_bcastAppend blind_raftLog]
    have count : (raft.proposedEntries m.entries).length = m.entries.length :=
      List.length_mapIdx
    refine ⟨raftLog, .extend _ raftLog (.inr ⟨proposed, count⟩) ?_ appended,
      { raft with raftLog }.maybeCommit_change⟩
    intro position entry found
    rw [proposedEntries, List.getElem?_mapIdx] at found
    rcases Option.map_eq_some_iff.mp found with ⟨original, _, rfl⟩
    rw [proposedEntry_eq]

/-! ## Steps -/

theorem stepFollower_effect (hears : raft.term ≤ m.term → heard) :
    LogEffect m heard raft.raftLog (raft.stepFollower draw m).raft.raftLog := by
  rw [stepFollower]
  split
  · exact raft.campaign_effect draw
  · split <;> exact .of_eq rfl
  · split <;> exact .of_eq rfl
  · rename_i offered
    exact handleAppendEntries_effect { raft with electionElapsed := 0 } offered hears
  · exact handleHeartbeat_effect { raft with electionElapsed := 0 }
  · rename_i sent
    exact handleSnapshot_effect { raft with electionElapsed := 0 } sent
  · exact .of_eq (raft.handleRequestVote_raftLog draw)
  · exact .of_eq rfl

theorem stepCandidate_effect (hears : heard) :
    LogEffect m heard raft.raftLog (raft.stepCandidate draw m).raft.raftLog := by
  rw [stepCandidate]
  split
  · exact raft.campaign_effect draw
  · rename_i offered
    exact (raft.becomeFollower draw m.term m.fromId).handleAppendEntries_effect offered
      fun _ => hears
  · exact (raft.becomeFollower draw m.term m.fromId).handleHeartbeat_effect
  · rename_i sent
    exact (raft.becomeFollower draw m.term m.fromId).handleSnapshot_effect sent
  · exact .of_eq (raft.handleRequestVote_raftLog draw)
  · exact raft.handleRequestVoteResponse_effect draw
  · exact .of_eq rfl

theorem stepLeader_effect :
    LogEffect m heard raft.raftLog (raft.stepLeader draw m).raft.raftLog := by
  rw [stepLeader]
  split
  · exact .of_eq (view_bcastHeartbeat blind_raftLog raft)
  · rename_i proposed
    exact raft.propose_effect proposed
  · exact raft.handleAppendResponse_effect
  · exact .of_eq raft.handleHeartbeatResponse_raftLog
  · exact .of_eq (raft.handleRequestVote_raftLog draw)
  · rename_i sent
    exact (raft.becomeFollower draw m.term m.fromId).handleSnapshot_effect sent
  · exact .of_eq rfl

theorem step_effect (m : Message) :
    LogEffect m (raft.Hears m) raft.raftLog (raft.step draw m).raft.raftLog := by
  rw [step]
  rcases raft.adoptTerm_cases draw m with ⟨_, same⟩ | ⟨lead, newer, adopted⟩
  · rw [same]
    split
    · rename_i follower
      exact raft.stepFollower_effect draw fun notOlder => .inr (.inr ⟨follower, notOlder⟩)
    · rename_i candidate
      exact raft.stepCandidate_effect draw (.inr (.inl candidate))
    · exact raft.stepLeader_effect draw
  · rw [adopted]
    exact (raft.becomeFollower draw m.term lead).stepFollower_effect draw fun _ => .inl newer

end Raft

end AegisDB.Consensus

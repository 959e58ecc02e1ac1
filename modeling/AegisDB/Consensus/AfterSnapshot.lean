import AegisDB.Consensus.Appends
import AegisDB.Consensus.Cycles

/-! # Logs that a snapshot has replaced

A snapshot empties the log. The term at its index can then no longer be looked up, not
even while the snapshot is still to be applied: votes are given as if that term were 0,
and the leader's next append message ends in an error. -/

namespace AegisDB.Consensus

open Foundation RaftLog RawNode List

/-! ## Voting -/

structure LogPosition where
  term : Nat
  index : Nat
deriving DecidableEq, Repr

def LogPosition.AtMost (position other : LogPosition) : Prop :=
  position.term < other.term ∨ position.term = other.term ∧ position.index ≤ other.index

instance decidableAtMost (position other : LogPosition) : Decidable (position.AtMost other) :=
  inferInstanceAs (Decidable (_ ∨ _))

theorem LogPosition.AtMost.trans {first second third : LogPosition} (left : first.AtMost second)
    (right : second.AtMost third) : first.AtMost third := by
  unfold AtMost at *
  omega

theorem LogPosition.AtMost.refl (position : LogPosition) : position.AtMost position :=
  .inr ⟨rfl, le_rfl⟩

namespace RaftLog

def lastPosition (log : RaftLog) (restored : SnapshotMetadata) : LogPosition :=
  match log.entries.getLast? with
  | some entry => { term := entry.term, index := entry.index }
  | none => { term := restored.term, index := restored.index }

def votingPosition (log : RaftLog) : LogPosition where
  term := (log.termSync log.lastIndex).getD 0
  index := log.lastIndex

/-- The log holds entries and no pending snapshot, and the entry at the place of its last
index has at least the term of the last entry. -/
def FindsLast (log : RaftLog) : Prop :=
  log.snapshotToApply = none ∧
    ∃ last ∈ log.entries.getLast?, ∃ entry ∈ log.entryAt last.index, last.term ≤ entry.term

theorem Sequential.findsLast {before : Nat} {log : RaftLog} (sequential : log.Sequential before)
    (noSnapshot : log.snapshotToApply = none) (notEmpty : log.entries ≠ []) : log.FindsLast := by
  have isLast := getLast?_eq_some_getLast notEmpty
  refine ⟨noSnapshot, _, isLast, _, ?_, le_rfl⟩
  rw [← lastIndex_of_getLast? noSnapshot isLast, sequential.entryAt_lastIndex noSnapshot]
  exact isLast

section VotingPosition

variable {log : RaftLog}

theorem votingPosition_of_last {last : Entry} (positive : 0 < log.firstIndex)
    (noSnapshot : log.snapshotToApply = none) (isLast : log.entries.getLast? = some last) :
    log.votingPosition = ⟨((log.entryAt last.index).map Entry.term).getD 0, last.index⟩ := by
  rw [votingPosition, termSync_of_positive positive, lastIndex_of_getLast? noSnapshot isLast,
    if_pos le_rfl]
  split_ifs with isZero
  · rw [entryAt_of_lt (isZero ▸ positive)]
    rfl
  · rfl

theorem lastIndex_lt_firstIndex (positive : 0 < log.firstIndex) (small : log.lastIndex < wordSize)
    (nothing : log.snapshotToApply = none → log.entries = []) :
    log.lastIndex < log.firstIndex := by
  have next : log.firstIndex = wrap (log.lastIndex + 1) := by
    cases pending : log.snapshotToApply with
    | some snapshot => rw [firstIndex_of_snapshot pending, lastIndex_of_snapshot pending]
    | none =>
      rw [firstIndex_of_nil pending (nothing pending), lastIndex_of_nil pending (nothing pending)]
  rw [next] at positive ⊢
  rcases Nat.lt_or_ge (log.lastIndex + 1) wordSize with inside | atEnd
  · rw [wrap_of_lt inside]
    exact Nat.lt_succ_self _
  · have wraps : log.lastIndex + 1 = wordSize := by omega
    rw [wraps, wrap, Nat.mod_self] at positive
    exact absurd positive (lt_irrefl 0)

theorem votingPosition_of_nothing (positive : 0 < log.firstIndex) (small : log.lastIndex < wordSize)
    (nothing : log.snapshotToApply = none → log.entries = []) :
    log.votingPosition = ⟨0, log.lastIndex⟩ := by
  rw [votingPosition, termSync_of_positive positive,
    entryAt_of_lt (lastIndex_lt_firstIndex positive small nothing), if_pos le_rfl]
  split <;> rfl

theorem atMost_votingPosition_iff (positive : 0 < log.firstIndex)
    (small : log.lastIndex < wordSize) (restored : SnapshotMetadata) :
    (log.lastPosition restored).AtMost log.votingPosition ↔
      log.FindsLast ∨ (log.lastPosition restored).term = 0 ∧
        (log.lastPosition restored).index ≤ log.lastIndex := by
  by_cases holds : log.snapshotToApply = none ∧ log.entries ≠ []
  · rcases holds with ⟨noSnapshot, notEmpty⟩
    have isLast := getLast?_eq_some_getLast notEmpty
    generalize log.entries.getLast notEmpty = last at isLast
    rw [votingPosition_of_last positive noSnapshot isLast,
      lastIndex_of_getLast? noSnapshot isLast, FindsLast, lastPosition, isLast]
    cases found : log.entryAt last.index with
    | none => simp [LogPosition.AtMost, found]
    | some entry =>
      simp [LogPosition.AtMost, noSnapshot, found]
      omega
  · have nothing : log.snapshotToApply = none → log.entries = [] := by
      intro noSnapshot
      by_contra notEmpty
      exact holds ⟨noSnapshot, notEmpty⟩
    have notFound : ¬ log.FindsLast := by
      intro finds
      rcases finds with ⟨noSnapshot, last, isLast, _⟩
      rw [nothing noSnapshot] at isLast
      cases isLast
    rw [votingPosition_of_nothing positive small nothing, or_iff_right notFound]
    simp [LogPosition.AtMost]

end VotingPosition

end RaftLog

namespace Raft

variable {raft : Raft} {m : Message}

def Grants (raft : Raft) (draw : Nat) (m : Message) : Prop :=
  ∃ response, (raft.handleRequestVote draw m).raft.msgs = raft.msgs ++ [response] ∧
    response.reject = false

theorem logOk_iff :
    raft.logOk m = true ↔ raft.raftLog.votingPosition.AtMost ⟨m.logTerm, m.index⟩ := by
  simp only [logOk, Bool.or_eq_true, Bool.and_eq_true, decide_eq_true_eq, beq_iff_eq,
    LogPosition.AtMost, votingPosition]
  rw [eq_comm (a := m.logTerm)]

theorem logOk_of_grants {draw : Nat} (grants : raft.Grants draw m) : raft.logOk m = true := by
  rcases grants with ⟨response, answered, granted⟩
  have refused {voter : Raft} (sameMsgs : voter.msgs = raft.msgs)
      (rejected : (voter.push (voter.voteResponse m.fromId true)).msgs = raft.msgs ++ [response]) :
      False := by
    rw [← sameMsgs] at rejected
    rcases singleton_inj.mp (append_cancel_left rejected) with rfl
    cases granted
  rw [handleRequestVote] at answered
  split at answered
  · exact absurd answered (refused rfl)
  · have same : (if m.term > raft.term then raft.becomeFollower draw m.term NONE
        else raft).raftLog = raft.raftLog ∧
        (if m.term > raft.term then raft.becomeFollower draw m.term NONE
          else raft).msgs = raft.msgs := by
      split <;> exact ⟨rfl, rfl⟩
    dsimp only at answered
    generalize (if m.term > raft.term then raft.becomeFollower draw m.term NONE
        else raft) = voter at same answered
    split_ifs at answered with both
    · rw [logOk_iff, ← same.1, ← logOk_iff]
      exact (Bool.and_eq_true_iff.mp both).2
    · exact absurd answered (refused same.2)

def voteRequest (raft : Raft) (position : LogPosition) : Message where
  msgType := .msgRequestVote
  fromId := raft.vote
  term := raft.term
  logTerm := position.term
  index := position.index

theorem grants_voteRequest (draw : Nat) {position : LogPosition}
    (upToDate : raft.raftLog.votingPosition.AtMost position) :
    raft.Grants draw (raft.voteRequest position) := by
  have logOk : raft.logOk (raft.voteRequest position) = true := logOk_iff.mpr upToDate
  have canVote : raft.canVote (raft.voteRequest position) = true := by
    simp [Raft.canVote, voteRequest]
  have notOlder : ¬ (raft.voteRequest position).term < raft.term := lt_irrefl raft.term
  have notNewer : ¬ (raft.voteRequest position).term > raft.term := lt_irrefl raft.term
  rw [Grants, handleRequestVote, if_neg notOlder]
  dsimp only
  rw [if_neg notNewer, logOk, canVote]
  exact ⟨_, rfl, rfl⟩

end Raft

/-- Votes only go to candidates that are as up to date as the voter exactly if the voter
finds the term of its last entry, or its last position is of term 0. Without entries, or with
a pending snapshot, it finds none. -/
theorem votes_upToDate_iff (raft : Raft) (restored : SnapshotMetadata)
    (positive : 0 < raft.raftLog.firstIndex) (small : raft.raftLog.lastIndex < wordSize) :
    (∀ draw m, raft.Grants draw m →
        (raft.raftLog.lastPosition restored).AtMost ⟨m.logTerm, m.index⟩) ↔
      raft.raftLog.FindsLast ∨ (raft.raftLog.lastPosition restored).term = 0 ∧
        (raft.raftLog.lastPosition restored).index ≤ raft.raftLog.lastIndex := by
  rw [← atMost_votingPosition_iff positive small]
  constructor
  · intro upToDate
    exact upToDate 0 _ (raft.grants_voteRequest 0 (.refl raft.raftLog.votingPosition))
  · intro looksUp draw m grants
    exact looksUp.trans (Raft.logOk_iff.mp (Raft.logOk_of_grants grants))

def twoTerms : List Entry := [.newNormal 1 1 [], .newNormal 2 2 []]

theorem votes_upToDate_of_entries :
    (followerWith 0 twoTerms).raftLog.FindsLast ∧
      ∀ draw m, (followerWith 0 twoTerms).Grants draw m →
        ((followerWith 0 twoTerms).raftLog.lastPosition { index := 0, term := 0 }).AtMost
          ⟨m.logTerm, m.index⟩ := by
  have numbered : Numbered 0 twoTerms := numbered_iff.mpr rfl
  have sequential : (followerWith 0 twoTerms).raftLog.Sequential 0 :=
    ⟨numbered, nofun, nofun, by decide⟩
  have finds := sequential.findsLast rfl (by decide)
  exact ⟨finds, (votes_upToDate_iff _ _ (by decide) (by decide)).mpr (.inl finds)⟩

def tenEntries : Snapshot where
  data := []
  metadata := { index := 10, term := 5 }

def snapshotOf (snapshot : Snapshot) : Message where
  msgType := .msgSnapshot
  toId := 1
  fromId := 2
  term := 6
  snapshot := some snapshot

/-- A voter that has just taken the snapshot votes for a candidate of term 7 that has a
single entry of term 1. -/
theorem vote_after_snapshot :
    ∃ (raft : Raft) (m : Message) (snapshot : Snapshot) (request : Message),
      raft.raftLog.entries = [] ∧ m.snapshot = some snapshot ∧
      (raft.step 0 m).raft.raftLog.entries = [] ∧
      (raft.step 0 m).raft.raftLog.pendingSnapshot = some snapshot ∧
      (raft.step 0 m).raft.Grants 0 request ∧
      ¬ ((raft.step 0 m).raft.raftLog.lastPosition snapshot.metadata).AtMost
        ⟨request.logTerm, request.index⟩ := by
  refine ⟨followerWith 0 [], snapshotOf tenEntries, tenEntries,
    { msgType := .msgRequestVote, fromId := 3, term := 7, logTerm := 1, index := 1 }, rfl, rfl,
    by decide +kernel, by decide +kernel, ⟨_, rfl, rfl⟩, by decide +kernel⟩

/-! ## Appending -/

def Snapshot.restoredLog (snapshot : Snapshot) : RaftLog where
  committed := snapshot.metadata.index
  applied := snapshot.metadata.index
  stabled := snapshot.metadata.index
  entries := []
  pendingSnapshot := some snapshot

section Restoring

variable {raft : Raft} {m : Message} {snapshot : Snapshot}

variable (positive : 0 < snapshot.metadata.index)

include positive

theorem Snapshot.isEmpty_eq_false :
    snapshot.isEmpty = false := by
  rw [isEmpty, beq_eq_false_iff_ne]
  exact positive.ne'

theorem Snapshot.snapshotToApply_restoredLog :
    snapshot.restoredLog.snapshotToApply = some snapshot := by
  simp [snapshotToApply, restoredLog, isEmpty_eq_false positive]

theorem Snapshot.lastIndex_restoredLog :
    snapshot.restoredLog.lastIndex = snapshot.metadata.index :=
  lastIndex_of_snapshot (snapshotToApply_restoredLog positive)

theorem Snapshot.unstableEntries_restoredLog (small : snapshot.metadata.index < wordSize) :
    snapshot.restoredLog.unstableEntries = .ok [] := by
  have first := firstIndex_of_snapshot (snapshotToApply_restoredLog positive)
  have start : (if snapshot.metadata.index ≥ snapshot.restoredLog.firstIndex then
      wrap (snapshot.metadata.index - snapshot.restoredLog.firstIndex + 1) else 0) = 0 := by
    rw [first]
    rcases Nat.lt_or_ge (snapshot.metadata.index + 1) wordSize with room | atEnd
    · rw [wrap_of_lt room, if_neg (by omega)]
    · have isLast : snapshot.metadata.index + 1 = wordSize := by omega
      have wraps : wrap (snapshot.metadata.index + 1) = 0 := by rw [isLast, wrap, Nat.mod_self]
      rw [wraps, if_pos (Nat.zero_le _), Nat.sub_zero, wraps]
  have sliced : snapshot.restoredLog.unstableEntries = slice [] _ 0 := rfl
  rw [sliced]
  exact congrArg (slice [] · 0) start

omit positive

theorem Raft.handleSnapshot_restores (raft : Raft) (sent : m.snapshot = some snapshot)
    (newer : raft.raftLog.committed < snapshot.metadata.index) :
    (raft.handleSnapshot m).raft.raftLog = snapshot.restoredLog ∧
      (raft.handleSnapshot m).raft.state = raft.state := by
  have notEmpty := Snapshot.isEmpty_eq_false (by omega : 0 < snapshot.metadata.index)
  have applied : raft.raftLog.applySnapshot snapshot = .ok snapshot.restoredLog := by
    rw [applySnapshot, notEmpty, if_neg (by simp), if_neg (not_le.mpr newer)]
    rfl
  rw [handleSnapshot, sent]
  dsimp only
  rw [if_neg (not_le.mpr newer), applied]
  exact ⟨rfl, rfl⟩

theorem Raft.step_restores (draw : Nat) (follows : raft.state = .follower)
    (isSnapshot : m.msgType = .msgSnapshot) (sent : m.snapshot = some snapshot)
    (newer : raft.raftLog.committed < snapshot.metadata.index) :
    (raft.step draw m).raft.raftLog = snapshot.restoredLog ∧
      (raft.step draw m).raft.state = .follower := by
  have handled (other : Raft) (follows : other.state = .follower)
      (sameLog : other.raftLog = raft.raftLog) :
      (other.stepFollower draw m).raft.raftLog = snapshot.restoredLog ∧
        (other.stepFollower draw m).raft.state = .follower := by
    rw [stepFollower]
    simp only [isSnapshot]
    have restores := Raft.handleSnapshot_restores { other with electionElapsed := 0 } sent
      (sameLog ▸ newer)
    exact ⟨restores.1, restores.2.trans follows⟩
  rw [step]
  rcases raft.adoptTerm_cases draw m with ⟨_, same⟩ | ⟨lead, _, adopted⟩
  · rw [same]
    simp only [follows]
    exact handled raft follows rfl
  · rw [adopted]
    exact handled (raft.becomeFollower draw m.term lead) rfl rfl

end Restoring

inductive SnapshotPhase where
  | restored
  | advanced
deriving DecidableEq, Repr

def RawNode.inPhase (node : RawNode) : SnapshotPhase → RawNode
  | .restored => node
  | .advanced => (Session.start node).cycle.node

/-- The node takes the entries behind the snapshot and can look all of them up. -/
structure Resumes (raft : Raft) (snapshot : Snapshot) (draw : Nat) (m : Message) : Prop where
  ok : (raft.step draw m).result = .ok ()
  accepted : ∃ response, (raft.step draw m).raft.msgs = raft.msgs ++ [response] ∧
    response.reject = false
  last : (raft.step draw m).raft.raftLog.lastIndex = snapshot.metadata.index + m.entries.length
  terms : ∀ entry ∈ m.entries,
    (raft.step draw m).raft.raftLog.termSync entry.index = some entry.term
  term : (raft.step draw m).raft.raftLog.termSync snapshot.metadata.index =
    some snapshot.metadata.term

theorem Appended.accepts_of_ok {m : Message} {log after : RaftLog} {answer : Bool × Nat}
    (ending : Appended m log after (.ok ()) (some answer)) (notRejected : answer.1 = false) :
    log.Accepts m := by
  cases ending with
  | beyond | mismatch => cases notRejected
  | take _ accepted _ => exact accepted

section Resuming

variable {raft : Raft} {snapshot : Snapshot} {m : Message}

theorem resumes_iff_pending (draw : Nat) (follows : raft.state = .follower)
    (isEmpty : raft.raftLog.entries = []) (atEnd : raft.raftLog.lastIndex = snapshot.metadata.index)
    (positive : 0 < snapshot.metadata.index) (offered : m.msgType = .msgAppend)
    (current : m.term = raft.term) (index : m.index = snapshot.metadata.index)
    (logTerm : m.logTerm = snapshot.metadata.term) (fits : m.index + m.entries.length < wordSize) :
    Resumes raft snapshot draw m ↔
      snapshot.metadata.index + 1 = wordSize ∧
        (raft.raftLog.snapshotToApply.map fun pending => pending.metadata.term) =
          some snapshot.metadata.term := by
  have hears : raft.Hears m := .inr (.inr ⟨follows, current.ge⟩)
  have lookup := (sequential_of_nil isEmpty (by omega)).termSync_of_le positive atEnd.ge
  rcases Raft.step_endsAppend draw offered hears with ⟨answer, ending, msgs⟩
  constructor
  · intro resumes
    rcases resumes.accepted with ⟨response, answered, notRejected⟩
    rw [answered] at msgs
    rw [resumes.ok] at ending
    cases answer with
    | none => simp at msgs
    | some answer =>
      rcases singleton_inj.mp (append_cancel_left msgs) with rfl
      have found := (ending.accepts_of_ok notRejected).2 (by omega)
      rw [index, logTerm, lookup] at found
      split at found
      · rename_i room
        exact ⟨room, found⟩
      · cases found
  · intro ⟨room, found⟩
    rw [if_pos room, found] at lookup
    have noEntries : m.entries = [] := length_eq_zero_iff.mp (by omega)
    have accepted : raft.raftLog.Accepts m := by
      refine ⟨(index.trans atEnd.symm).le, fun _ => ?_⟩
      rw [index, logTerm, lookup]
    have unchanged : raft.raftLog.append m.entries = .ok raft.raftLog := by
      rw [noEntries]
      rfl
    rcases ending.of_accepts accepted with
      ⟨fault, failed, _⟩ | ⟨middle, appended, follows, ok, answers⟩
    · rw [unchanged] at failed
      cases failed
    · rw [unchanged] at appended
      rcases Except.ok.inj appended with rfl
      rw [answers] at msgs
      refine ⟨ok, ⟨_, msgs, rfl⟩, ?_, by simp [noEntries], ?_⟩
      · rw [follows, lastIndex_follow, atEnd, noEntries]
        rfl
      · rw [follows, termSync_follow, lookup]

theorem RawNode.advance_of_snapshot (node : RawNode) {ready : Ready}
    (noEntries : ready.entries = []) (noCommitted : ready.committedEntries = [])
    (pending : ready.snapshot = some snapshot) (notEmpty : snapshot.isEmpty = false) :
    (node.advance ready).raft.raftLog =
        { node.raft.raftLog with
          stabled := snapshot.metadata.index
          applied := snapshot.metadata.index
          pendingSnapshot := none } ∧
      (node.advance ready).raft.state = node.raft.state := by
  rw [advance]
  simp only [noEntries, noCommitted, pending, notEmpty]
  cases ready.softState <;> cases ready.hardState.isEmpty <;> exact ⟨rfl, rfl⟩

theorem RawNode.cycle_restored {node : RawNode}
    (restored : node.raft.raftLog = snapshot.restoredLog)
    (positive : 0 < snapshot.metadata.index) (small : snapshot.metadata.index < wordSize) :
    Fallible.NoPanic node.ready ∧
      (Session.start node).cycle.log = { snapshot.restoredLog with pendingSnapshot := none } ∧
      (Session.start node).cycle.node.raft.state = node.raft.state := by
  have unstable : (Session.start node).log.unstableEntries = .ok [] := by
    change node.raft.raftLog.unstableEntries = .ok []
    rw [restored, Snapshot.unstableEntries_restoredLog positive small]
  have next : (Session.start node).node.entriesToApply = .ok [] := by
    change node.entriesToApply = .ok []
    rw [entriesToApply, restored]
    exact if_neg (lt_irrefl _)
  have ready := Session.ready_eq_ok unstable next
  have pending : (node.readyWith [] []).snapshot = some snapshot := by
    change node.raft.raftLog.snapshotToApply = some snapshot
    rw [restored, Snapshot.snapshotToApply_restoredLog positive]
  have cycled : (Session.start node).cycle.node =
      { node with raft := { node.raft with msgs := [] } }.advance (node.readyWith [] []) := by
    rw [Session.cycle, ready]
    rfl
  rcases advance_of_snapshot { node with raft := { node.raft with msgs := [] } } rfl rfl pending
    (Snapshot.isEmpty_eq_false positive) with ⟨log, state⟩
  rw [← cycled] at log state
  refine ⟨fun message failed => ?_, ?_, state⟩
  · cases ready.symm.trans failed
  · rw [Session.log, log]
    dsimp only
    rw [restored]
    rfl

/-- A follower takes a snapshot. Behind it, an append message is taken only before the
cycle, and only at the end of the number range, where no entry fits. -/
theorem resumes_iff {node : RawNode} {sent m : Message} (draw drawAgain : Nat)
    (phase : SnapshotPhase) (follows : node.raft.state = .follower)
    (isSnapshot : sent.msgType = .msgSnapshot) (carries : sent.snapshot = some snapshot)
    (newer : node.raft.raftLog.committed < snapshot.metadata.index)
    (offered : m.msgType = .msgAppend)
    (current : m.term = ((node.step draw sent).1.inPhase phase).raft.term)
    (index : m.index = snapshot.metadata.index) (logTerm : m.logTerm = snapshot.metadata.term)
    (fits : m.index + m.entries.length < wordSize) :
    Resumes ((node.step draw sent).1.inPhase phase).raft snapshot drawAgain m ↔
      phase = .restored ∧ snapshot.metadata.index + 1 = wordSize := by
  have positive : 0 < snapshot.metadata.index := Nat.zero_lt_of_lt newer
  have small : snapshot.metadata.index < wordSize := by omega
  have stepped : (node.step draw sent).1.raft = (node.raft.step draw sent).raft := by
    simp [RawNode.step, isSnapshot, MessageType.isLocal, MessageType.isResponse, RawNode.handle]
  rcases Raft.step_restores draw follows isSnapshot carries newer with ⟨restored, followsStill⟩
  rw [← stepped] at restored followsStill
  generalize (node.step draw sent).1 = after at current restored followsStill
  cases phase with
  | restored =>
    have pending := Snapshot.snapshotToApply_restoredLog positive
    rw [inPhase] at current ⊢
    rw [resumes_iff_pending drawAgain followsStill (by rw [restored]; rfl)
      (by rw [restored, Snapshot.lastIndex_restoredLog positive]) positive offered current index
      logTerm fits, restored, pending]
    simp
  | advanced =>
    rcases cycle_restored restored positive small with ⟨_, log, state⟩
    rw [Session.log] at log
    rw [inPhase] at current ⊢
    rw [resumes_iff_pending drawAgain (state.trans followsStill) (congrArg entries log)
      (congrArg lastIndex log) positive offered current index logTerm fits, log]
    simp [snapshotToApply]

end Resuming

def allEntries : Snapshot where
  data := []
  metadata := { index := wordSize - 1, term := 5 }

def appendBehind (snapshot : Snapshot) (entries : List Entry) : Message where
  msgType := .msgAppend
  toId := 1
  fromId := 2
  term := 6
  logTerm := snapshot.metadata.term
  index := snapshot.metadata.index
  entries := entries

theorem resumes_at_last_index :
    Resumes (((RawNode.new (followerWith 0 [])).step 0 (snapshotOf allEntries)).1.inPhase
      .restored).raft allEntries 0 (appendBehind allEntries []) :=
  (resumes_iff 0 0 .restored rfl rfl rfl (by decide) rfl rfl rfl rfl (by decide)).mpr
    ⟨rfl, by decide⟩

/-- A follower takes a snapshot up to index 10. Whether it has gone through a cycle or not,
the next entry of the leader is not taken, and no answer is sent. -/
theorem replication_stops_at_snapshot :
    ∃ (node : RawNode) (sent m : Message) (snapshot : Snapshot),
      node.raft.state = .follower ∧ sent.msgType = .msgSnapshot ∧ sent.snapshot = some snapshot ∧
      node.raft.raftLog.committed < snapshot.metadata.index ∧ m.msgType = .msgAppend ∧
      m.index = snapshot.metadata.index ∧ m.logTerm = snapshot.metadata.term ∧
      Numbered m.index m.entries ∧
      ∀ phase, m.term = ((node.step 0 sent).1.inPhase phase).raft.term ∧
        (((node.step 0 sent).1.inPhase phase).raft.step 0 m).result =
          .error (.error "cannot get term for index 10") ∧
        (((node.step 0 sent).1.inPhase phase).raft.step 0 m).raft.msgs =
          ((node.step 0 sent).1.inPhase phase).raft.msgs := by
  refine ⟨RawNode.new (followerWith 0 []), snapshotOf tenEntries,
    appendBehind tenEntries [Entry.newNormal 6 11 []], tenEntries, rfl, rfl, rfl, by decide, rfl,
    rfl, rfl, by decide, ?_⟩
  intro phase
  cases phase with
  | restored => decide +kernel
  | advanced => decide +kernel

end AegisDB.Consensus

import AegisDB.Consensus.Progressing

/-! # Responses in checked arithmetic

How a leader handles the responses of its peers when a subtraction below zero is a
panic, as in a build that checks for overflow. Where none occurs, this is what the
wrapping arithmetic computes; so the checked handlers only add the question when one
does. -/

namespace AegisDB.Consensus

open Foundation

def underflow : Fault := .panic "attempt to subtract with overflow"

theorem checkedSub_of_lt {left right : Nat} (below : left < right) :
    checkedSub left right = .error underflow := by
  rw [checkedSub, if_neg (not_le.mpr below)]
  rfl

/-! ## The log -/

namespace RaftLog

def termSyncChecked (log : RaftLog) (index : Nat) : Fallible (Option Nat) :=
  if index = 0 then
    .ok (some 0)
  else if index < log.firstIndex then
    .ok none
  else do
    let beforeFirst ← checkedSub log.firstIndex 1
    if index = beforeFirst then
      return match log.snapshotToApply with
        | some snapshot =>
          if snapshot.metadata.index = beforeFirst then some snapshot.metadata.term else none
        | none => none
    else if index ≤ log.lastIndex then
      let offset ← checkedSub index log.firstIndex
      return log.entries[offset]?.map Entry.term
    else
      return none

def entriesFromChecked (log : RaftLog) (nextIndex : Nat) : Fallible (List Entry) :=
  if nextIndex ≤ log.lastIndex then do
    let start ← checkedSub nextIndex log.firstIndex
    let span ← checkedSub log.lastIndex log.firstIndex
    slice log.entries start (min (wrap (span + 1)) log.entries.length)
  else
    .ok []

def CanSend (log : RaftLog) (nextIndex : Nat) : Prop :=
  nextIndex ≤ log.lastIndex → nextIndex ≤ wrap (log.lastIndex + 1) → log.firstIndex ≤ nextIndex

instance decidableCanSend (log : RaftLog) (nextIndex : Nat) : Decidable (log.CanSend nextIndex) :=
  inferInstanceAs (Decidable (_ → _))

theorem canSend_of_commitChange {log after : RaftLog} (change : CommitChange log after)
    (nextIndex : Nat) : after.CanSend nextIndex ↔ log.CanSend nextIndex := by
  cases change with
  | keep | raise | follow => exact Iff.rfl

def Answers (log : RaftLog) (progress : Progress) (m : Message) : Prop :=
  if m.reject = false ∨ 1 < progress.nextIndex ∧ wrap (m.index + 1) < progress.nextIndex then
    log.CanSend (wrap (m.index + 1))
  else
    0 < progress.nextIndex ∧ log.CanSend (progress.nextIndex - 1)

instance decidableAnswers (log : RaftLog) (progress : Progress) (m : Message) :
    Decidable (log.Answers progress m) := by
  unfold Answers
  infer_instance

namespace Sequential

variable {before : Nat} {log : RaftLog}

theorem termSyncChecked (sequential : log.Sequential before) (notEmpty : log.entries ≠ [])
    (index : Nat) : log.termSyncChecked index = .ok (log.termSync index) := by
  have first := sequential.firstIndex_of_ne_nil notEmpty
  have small := sequential.small
  have positive := List.length_pos_of_ne_nil notEmpty
  have wrapping : wrappingSub (before + 1) 1 = before :=
    wrappingSub_of_le (by omega) (by omega)
  rw [RaftLog.termSyncChecked, RaftLog.termSync, first, wrapping,
    checkedSub_eq_ok (by omega : 1 ≤ before + 1)]
  by_cases isZero : index = 0
  · rw [if_pos isZero, if_pos isZero]
  · rw [if_neg isZero, if_neg isZero]
    by_cases compacted : index < before + 1
    · rw [if_pos compacted, if_pos compacted]
    · have inside : ¬ index = before := by omega
      rw [if_neg compacted, if_neg compacted, if_neg inside, RaftLog.entryAt, first,
        if_neg compacted, checkedSub_eq_ok (not_lt.mp compacted)]
      simp only [bind, Except.bind, pure, Except.pure, Nat.add_sub_cancel, if_neg inside]
      split <;> rfl

theorem entriesFromChecked (sequential : log.Sequential before) (notEmpty : log.entries ≠ [])
    {nextIndex : Nat} (above : before < nextIndex) (within : nextIndex ≤ log.lastIndex) :
    log.entriesFromChecked nextIndex = .ok (log.entries.drop (nextIndex - (before + 1))) := by
  have first := sequential.firstIndex_of_ne_nil notEmpty
  have last := sequential.lastIndex (sequential.noSnapshot_of_le above within)
  have small := sequential.small
  have span : before + log.entries.length - (before + 1) + 1 = log.entries.length := by omega
  rw [RaftLog.entriesFromChecked, if_pos within, first, last,
    checkedSub_eq_ok (by omega : before + 1 ≤ nextIndex), checkedSub_eq_ok (by omega)]
  simp only [bind, Except.bind]
  rw [span, wrap_of_lt (by omega), Nat.min_self, slice_eq_ok (by omega) le_rfl,
    List.take_of_length_le (by simp)]

end Sequential

end RaftLog

/-! ## The handlers -/

namespace Progress

def decreaseNextChecked (progress : Progress) (rejectedIndex : Nat) : Fallible Progress :=
  if progress.nextIndex > 1 ∧ progress.nextIndex > wrap (rejectedIndex + 1) then
    .ok { progress with nextIndex := wrap (rejectedIndex + 1) }
  else do
    let nextIndex ← checkedSub progress.nextIndex 1
    return { progress with nextIndex }

end Progress

namespace Raft

def appendMessageChecked (raft : Raft) (peer nextIndex : Nat) (entries : List Entry) :
    Fallible Message := do
  let logTerm ←
    if nextIndex > 0 then do
      let previous ← checkedSub nextIndex 1
      let term ← raft.raftLog.termSyncChecked previous
      pure (term.getD 0)
    else
      pure 0
  let index ← checkedSub nextIndex 1
  return {
    msgType := .msgAppend
    toId := peer
    fromId := raft.id
    term := raft.term
    logTerm
    index
    entries
    commit := raft.raftLog.committed }

def sendAppendChecked (raft : Raft) (peer : Nat) : Fallible Raft :=
  match raft.prs.get? peer with
  | none => .ok raft
  | some progress =>
    let nextIndex := progress.nextIndex
    if nextIndex > wrap (raft.raftLog.lastIndex + 1) then
      .ok raft
    else do
      let entries ← raft.raftLog.entriesFromChecked nextIndex
      let message ← raft.appendMessageChecked peer nextIndex entries
      return raft.push message

def maybeCommitChecked (raft : Raft) : Fallible Raft :=
  if raft.state ≠ .leader then
    .ok raft
  else
    let indexes := ((raft.prs.values.map Progress.matchIndex).insertionSort (· ≤ ·)).reverse
    if indexes.length ≥ raft.quorum then do
      let position ← checkedSub raft.quorum 1
      let commitIndex ← elementAt indexes position
      if commitIndex > raft.raftLog.committed then
        let term ← raft.raftLog.termSyncChecked commitIndex
        if term.getD 0 = raft.term then
          return { raft with raftLog := { raft.raftLog with committed := commitIndex } }
        else
          return raft
      else
        return raft
    else
      .ok raft

def noteResponseChecked (raft : Raft) (m : Message) : Fallible Raft :=
  match raft.prs.get? m.fromId with
  | none => .ok raft
  | some progress => do
    let progress ←
      if m.reject then progress.decreaseNextChecked m.index
      else pure (progress.updateMatch m.index)
    return { raft with prs := raft.prs.insert m.fromId progress }

def handleAppendResponseChecked (raft : Raft) (m : Message) : Fallible Raft :=
  if m.term < raft.term then
    .ok raft
  else do
    let raft ← raft.noteResponseChecked m
    let raft ← if m.reject then pure raft else raft.maybeCommitChecked
    match raft.prs.get? m.fromId with
    | none => return raft
    | some progress =>
      if m.reject then raft.sendAppendChecked m.fromId
      else if progress.nextIndex ≤ raft.raftLog.lastIndex then raft.sendAppendChecked m.fromId
      else return raft

def handleHeartbeatResponseChecked (raft : Raft) (m : Message) : Fallible Raft :=
  if m.term < raft.term then
    .ok raft
  else
    match raft.prs.get? m.fromId with
    | none => .ok raft
    | some progress =>
      if progress.nextIndex ≤ raft.raftLog.lastIndex then raft.sendAppendChecked m.fromId
      else .ok raft

def stepResponseChecked (raft : Raft) (draw : Nat) (m : Message) : Fallible Raft :=
  let raft := raft.adoptTerm draw m
  match raft.state, m.msgType with
  | .leader, .msgAppendResponse => raft.handleAppendResponseChecked m
  | .leader, .msgHeartbeatResponse => raft.handleHeartbeatResponseChecked m
  | _, _ => .ok raft

/-! ## When nothing is subtracted below zero -/

structure Checks (checked : Fallible Raft) (outcome : Outcome) (condition : Prop) : Prop where
  fine : condition → checked = .ok outcome.raft ∧ outcome.result = .ok ()
  fails : ¬ condition → checked = .error underflow

namespace Checks

variable {checked : Fallible Raft} {outcome : Outcome} {condition : Prop}

theorem of_ok {raft : Raft} (holds : condition) : Checks (.ok raft) (.ok raft) condition :=
  ⟨fun _ => ⟨rfl, rfl⟩, fun fails => absurd holds fails⟩

theorem congr {other : Prop} (same : other ↔ condition)
    (checks : Checks checked outcome condition) : Checks checked outcome other :=
  ⟨fun holds => checks.fine (same.mp holds), fun fails => checks.fails (mt same.mpr fails)⟩

theorem exists_ok_iff (checks : Checks checked outcome condition) :
    (∃ after, checked = .ok after) ↔ condition := by
  constructor
  · intro ⟨after, ended⟩
    by_contra fails
    rw [checks.fails fails] at ended
    cases ended
  · intro holds
    exact ⟨outcome.raft, (checks.fine holds).1⟩

end Checks

/-- The log has entries, one after another, and all progress is inside the number range. -/
structure Healthy (before : Nat) (raft : Raft) : Prop where
  sequential : raft.raftLog.Sequential before
  notEmpty : raft.raftLog.entries ≠ []
  small : ∀ peer progress, raft.prs.get? peer = some progress → progress.nextIndex < wordSize

section Handlers

variable {before : Nat} {raft : Raft} {m : Message} {progress : Progress}

variable (healthy : raft.Healthy before)

include healthy

theorem Healthy.appendMessageChecked (peer : Nat) {nextIndex : Nat} (entries : List Entry)
    (positive : 0 < nextIndex) (small : nextIndex < wordSize) :
    raft.appendMessageChecked peer nextIndex entries =
      .ok (raft.appendMessage peer nextIndex entries) := by
  have wrapping := wrappingSub_of_le positive small
  rw [Raft.appendMessageChecked, appendMessage, wrapping, checkedSub_eq_ok positive]
  simp only [bind, Except.bind, pure, Except.pure, if_pos positive,
    healthy.sequential.termSyncChecked healthy.notEmpty]

theorem Healthy.entriesFrom {nextIndex : Nat}
    (above : before < nextIndex) (within : nextIndex ≤ raft.raftLog.lastIndex) :
    raft.entriesFrom nextIndex = raft.raftLog.entriesFromChecked nextIndex := by
  have first := healthy.sequential.firstIndex_of_ne_nil healthy.notEmpty
  have last := healthy.sequential.lastIndex (healthy.sequential.noSnapshot_of_le above within)
  have small := healthy.sequential.small
  rw [Raft.entriesFrom, RaftLog.entriesFromChecked, if_pos within, if_pos within, first, last,
    wrappingSub_of_le (by omega) (by omega), wrappingSub_of_le (by omega) small,
    checkedSub_eq_ok (by omega : before + 1 ≤ nextIndex), checkedSub_eq_ok (by omega)]
  rfl

theorem Healthy.sendAppend {peer : Nat} (known : raft.prs.get? peer = some progress) :
    Checks (raft.sendAppendChecked peer) (raft.sendAppend peer)
      (raft.raftLog.CanSend progress.nextIndex) := by
  have first := healthy.sequential.firstIndex_of_ne_nil healthy.notEmpty
  have small := healthy.small peer progress known
  rw [sendAppendChecked, Raft.sendAppend, known, RaftLog.CanSend, first]
  dsimp only
  by_cases beyond : wrap (raft.raftLog.lastIndex + 1) < progress.nextIndex
  · rw [if_pos beyond, if_pos beyond]
    exact .of_ok fun _ near => absurd near (not_le.mpr beyond)
  · have near := not_lt.mp beyond
    rw [if_neg beyond, if_neg beyond]
    by_cases within : progress.nextIndex ≤ raft.raftLog.lastIndex
    · by_cases above : before < progress.nextIndex
      · rw [healthy.entriesFrom above within,
          healthy.sequential.entriesFromChecked healthy.notEmpty above within]
        simp only [bind, Except.bind, pure, Except.pure,
          healthy.appendMessageChecked peer _ (by omega : 0 < progress.nextIndex) small]
        exact .of_ok fun _ _ => above
      · refine ⟨fun holds => absurd (holds within near) (by omega), fun _ => ?_⟩
        rw [RaftLog.entriesFromChecked, if_pos within, first, checkedSub_of_lt (by omega)]
        rfl
    · -- The next index is the one after the last, so it is not 0.
      have positive : 0 < progress.nextIndex := by omega
      rw [Raft.entriesFrom, RaftLog.entriesFromChecked, if_neg within, if_neg within]
      simp only [bind, Except.bind, pure, Except.pure,
        healthy.appendMessageChecked peer _ positive small]
      exact .of_ok fun inside => absurd inside within

theorem Healthy.maybeCommitChecked :
    raft.maybeCommitChecked = .ok raft.maybeCommit := by
  have positive : 1 ≤ raft.quorum := Nat.le_add_left 1 _
  rw [Raft.maybeCommitChecked, maybeCommit]
  by_cases follows : raft.state ≠ .leader
  · rw [if_pos follows, if_pos follows]
  · rw [if_neg follows, if_neg follows]
    dsimp only
    generalize ((raft.prs.values.map Progress.matchIndex).insertionSort (· ≤ ·)).reverse = indexes
    by_cases enough : raft.quorum ≤ indexes.length
    · have found := List.getElem?_eq_getElem (by omega : raft.quorum - 1 < indexes.length)
      rw [if_pos enough, checkedSub_eq_ok positive, found]
      simp only [bind, Except.bind, pure, Except.pure, elementAt_eq_ok found,
        healthy.sequential.termSyncChecked healthy.notEmpty]
      split
      · rename_i above
        split
        · rename_i own
          rw [if_pos ⟨above, own⟩]
        · rename_i notOwn
          rw [if_neg fun both => notOwn both.2]
      · rename_i notAbove
        rw [if_neg fun both => notAbove both.1]
    · rw [if_neg enough, List.getElem?_eq_none (by omega)]

theorem Healthy.sendIfBehind {peer : Nat} (known : raft.prs.get? peer = some progress) :
    Checks
      (if progress.nextIndex ≤ raft.raftLog.lastIndex then raft.sendAppendChecked peer
        else .ok raft)
      (if progress.nextIndex ≤ raft.raftLog.lastIndex then raft.sendAppend peer else .ok raft)
      (raft.raftLog.CanSend progress.nextIndex) := by
  split
  · exact healthy.sendAppend known
  · rename_i upToDate
    exact .of_ok fun behind => absurd behind upToDate

omit healthy

variable (known : raft.prs.get? m.fromId = some progress)

include known

theorem noteResponse_of_known :
    raft.noteResponse m =
      { raft with prs := raft.prs.insert m.fromId (progress.noted m) } := by
  rw [noteResponse, known]
  rfl

theorem get?_noteResponse : (raft.noteResponse m).prs.get? m.fromId = some (progress.noted m) := by
  rw [noteResponse_of_known known]
  exact OrderedMap.get?_insert_same _ _ _

theorem noteResponseChecked_eq (small : progress.nextIndex < wordSize)
    (positive : m.reject = false ∨ 0 < progress.nextIndex) :
    raft.noteResponseChecked m = .ok (raft.noteResponse m) := by
  rw [noteResponseChecked, noteResponse, known]
  dsimp only
  cases rejected : m.reject with
  | false => rfl
  | true =>
    have positive : 0 < progress.nextIndex := positive.resolve_left (by simp [rejected])
    simp only [if_true, Progress.decreaseNextChecked, Progress.decreaseNext]
    split
    · rfl
    · rw [checkedSub_eq_ok positive, wrappingSub_of_le positive small]
      rfl

theorem noteResponseChecked_of_zero (rejected : m.reject = true) (isZero : progress.nextIndex = 0) :
    raft.noteResponseChecked m = .error underflow := by
  rw [noteResponseChecked, known]
  dsimp only
  rw [if_pos rejected, Progress.decreaseNextChecked, if_neg (by omega),
    checkedSub_of_lt (by omega)]
  rfl

omit known

theorem answers_of_rejected (log : RaftLog) (rejected : m.reject = true)
    (positive : 0 < progress.nextIndex) (small : progress.nextIndex < wordSize) :
    log.Answers progress m ↔ log.CanSend (progress.noted m).nextIndex := by
  rw [RaftLog.Answers, Progress.noted, if_pos rejected, Progress.nextIndex_decreaseNext,
    wrappingSub_of_le positive small, rejected]
  simp only [Bool.true_eq_false, false_or]
  split
  · exact Iff.rfl
  · exact and_iff_right positive

include healthy

theorem Healthy.noteResponse (m : Message) :
    (raft.noteResponse m).Healthy before := by
  cases known : raft.prs.get? m.fromId with
  | none =>
    rw [Raft.noteResponse, known]
    exact healthy
  | some progress =>
    rw [noteResponse_of_known known]
    refine ⟨healthy.sequential, healthy.notEmpty, ?_⟩
    intro peer other found
    rw [OrderedMap.get?_insert] at found
    split at found
    · rw [← Option.some.inj found]
      exact progress.nextIndex_noted_lt m
    · exact healthy.small peer other found

theorem Healthy.of_commitChange {after : Raft}
    (change : CommitChange raft.raftLog after.raftLog) (samePeers : after.prs = raft.prs) :
    after.Healthy before := by
  have sequential := healthy.sequential
  refine ⟨?_, change.entries ▸ healthy.notEmpty, samePeers ▸ healthy.small⟩
  generalize after.raftLog = later at change
  cases change with
  | keep => exact sequential
  | raise | follow =>
    exact ⟨sequential.numbered, sequential.restored, sequential.atStart, sequential.small⟩

theorem Healthy.maybeCommit : raft.maybeCommit.Healthy before :=
  healthy.of_commitChange raft.maybeCommit_change (by rw [maybeCommit_eq])

variable (current : raft.term ≤ m.term)

include known current

theorem Healthy.handleAppendResponse_accepted (accepted : m.reject = false) :
    Checks (raft.handleAppendResponseChecked m) (raft.handleAppendResponse m)
      (raft.raftLog.CanSend (wrap (m.index + 1))) := by
  have noted := healthy.noteResponse m
  have updated : (raft.noteResponse m).maybeCommit.prs.get? m.fromId =
      some (progress.noted m) := by
    rw [maybeCommit_eq]
    exact get?_noteResponse known
  have next : (progress.noted m).nextIndex = wrap (m.index + 1) := by
    rw [Progress.noted, accepted]
    rfl
  have sends := noted.maybeCommit.sendIfBehind updated
  rw [next, RaftLog.canSend_of_commitChange (raft.noteResponse m).maybeCommit_change,
    raftLog_noteResponse] at sends
  have noteOk := noteResponseChecked_eq known (healthy.small m.fromId progress known)
    (.inl accepted)
  rw [handleAppendResponseChecked, Raft.handleAppendResponse, if_neg (not_lt.mpr current),
    if_neg (not_lt.mpr current), noteOk]
  simp only [accepted, noted.maybeCommitChecked, bind, Except.bind, pure, Except.pure,
    Bool.false_eq_true, if_false, updated, next]
  exact sends

theorem Healthy.handleAppendResponse_rejected (rejected : m.reject = true)
    (positive : 0 < progress.nextIndex) :
    Checks (raft.handleAppendResponseChecked m) (raft.handleAppendResponse m)
      (raft.raftLog.CanSend (progress.noted m).nextIndex) := by
  have sends := (healthy.noteResponse m).sendAppend (get?_noteResponse known)
  rw [raftLog_noteResponse] at sends
  have noteOk := noteResponseChecked_eq known (healthy.small m.fromId progress known)
    (.inr positive)
  rw [handleAppendResponseChecked, Raft.handleAppendResponse, if_neg (not_lt.mpr current),
    if_neg (not_lt.mpr current), noteOk]
  simp only [rejected, bind, Except.bind, pure, Except.pure, if_true, get?_noteResponse known]
  exact sends

theorem Healthy.handleAppendResponse :
    Checks (raft.handleAppendResponseChecked m) (raft.handleAppendResponse m)
      (raft.raftLog.Answers progress m) := by
  cases rejected : m.reject with
  | false =>
    apply (healthy.handleAppendResponse_accepted known current rejected).congr
    rw [RaftLog.Answers, if_pos (.inl rejected)]
  | true =>
    by_cases isZero : progress.nextIndex = 0
    · have unanswered : ¬ raft.raftLog.Answers progress m := by
        rw [RaftLog.Answers, if_neg (by simp [rejected, isZero])]
        omega
      refine ⟨fun answers => absurd answers unanswered, fun _ => ?_⟩
      rw [handleAppendResponseChecked, if_neg (not_lt.mpr current),
        noteResponseChecked_of_zero known rejected isZero]
      rfl
    · have positive := Nat.pos_of_ne_zero isZero
      exact (healthy.handleAppendResponse_rejected known current rejected positive).congr
        (answers_of_rejected raft.raftLog rejected positive
          (healthy.small m.fromId progress known))

theorem Healthy.handleHeartbeatResponse :
    Checks (raft.handleHeartbeatResponseChecked m) (raft.handleHeartbeatResponse m)
      (raft.raftLog.CanSend progress.nextIndex) := by
  rw [handleHeartbeatResponseChecked, Raft.handleHeartbeatResponse, if_neg (not_lt.mpr current),
    if_neg (not_lt.mpr current), known]
  exact healthy.sendIfBehind known

end Handlers

/-! ## Runs of responses -/

def IsResponse (m : Message) : Prop :=
  m.msgType = .msgAppendResponse ∨ m.msgType = .msgHeartbeatResponse

/-- A response of the leader's term, from a peer it knows, asks for entries it has. -/
def Withstands (raft : Raft) (input : Nat × Message) : Prop :=
  raft.state = .leader → input.2.term = raft.term →
    ∀ progress ∈ raft.prs.get? input.2.fromId,
      if input.2.msgType = .msgAppendResponse then raft.raftLog.Answers progress input.2
      else raft.raftLog.CanSend progress.nextIndex

instance decidableWithstands (raft : Raft) (input : Nat × Message) :
    Decidable (raft.Withstands input) := by
  unfold Withstands
  infer_instance

def HandlesChecked (raft : Raft) (input : Nat × Message) : Prop :=
  ∃ after, raft.stepResponseChecked input.1 input.2 = .ok after

section Runs

variable {before : Nat} {raft : Raft} {m : Message}

theorem step_response (draw : Nat) (response : IsResponse m)
    (idle : ¬ (raft.state = .leader ∧ m.term ≤ raft.term)) :
    raft.step draw m = .ok (raft.adoptTerm draw m) ∧
      raft.stepResponseChecked draw m = .ok (raft.adoptTerm draw m) := by
  have notLeader : (raft.adoptTerm draw m).state ≠ .leader := by
    rcases raft.adoptTerm_cases draw m with ⟨notNewer, same⟩ | ⟨lead, _, adopted⟩
    · rw [same]
      exact fun leads => idle ⟨leads, notNewer⟩
    · rw [adopted]
      exact StateType.noConfusion
  rw [step, stepResponseChecked]
  generalize raft.adoptTerm draw m = adopted at notLeader ⊢
  cases role : adopted.state with
  | leader => exact absurd role notLeader
  | follower =>
    rcases response with isAppend | isHeartbeat
    · simp [stepFollower, isAppend]
    · simp [stepFollower, isHeartbeat]
  | candidate =>
    rcases response with isAppend | isHeartbeat
    · simp [stepCandidate, isAppend]
    · simp [stepCandidate, isHeartbeat]

variable (healthy : raft.Healthy before)

include healthy

theorem Healthy.handleAppendResponse_unknown
    (current : raft.term ≤ m.term) (unknown : raft.prs.get? m.fromId = none) :
    Checks (raft.handleAppendResponseChecked m) (raft.handleAppendResponse m) True := by
  have same : raft.noteResponse m = raft := by rw [Raft.noteResponse, unknown]
  have stillUnknown : raft.maybeCommit.prs.get? m.fromId = none := by
    rw [maybeCommit_eq]
    exact unknown
  rw [handleAppendResponseChecked, Raft.handleAppendResponse, if_neg (not_lt.mpr current),
    if_neg (not_lt.mpr current), noteResponseChecked, unknown, same]
  cases m.reject with
  | false =>
    simp only [bind, Except.bind, pure, Except.pure, Bool.false_eq_true, if_false,
      healthy.maybeCommitChecked, stillUnknown]
    exact .of_ok trivial
  | true =>
    simp only [bind, Except.bind, pure, Except.pure, if_true, unknown]
    exact .of_ok trivial

theorem Healthy.checks_append (notNewer : m.term ≤ raft.term) :
    Checks (raft.handleAppendResponseChecked m) (raft.handleAppendResponse m)
      (m.term = raft.term → ∀ progress ∈ raft.prs.get? m.fromId,
        raft.raftLog.Answers progress m) := by
  rcases Nat.lt_or_eq_of_le notNewer with older | current
  · rw [handleAppendResponseChecked, Raft.handleAppendResponse, if_pos older, if_pos older]
    exact .of_ok fun current => absurd current older.ne
  · cases known : raft.prs.get? m.fromId with
    | none =>
      exact (healthy.handleAppendResponse_unknown current.ge known).congr (by simp)
    | some progress =>
      exact (healthy.handleAppendResponse known current.ge).congr (by simp [current])

theorem Healthy.checks_heartbeat (notNewer : m.term ≤ raft.term) :
    Checks (raft.handleHeartbeatResponseChecked m) (raft.handleHeartbeatResponse m)
      (m.term = raft.term → ∀ progress ∈ raft.prs.get? m.fromId,
        raft.raftLog.CanSend progress.nextIndex) := by
  rcases Nat.lt_or_eq_of_le notNewer with older | current
  · rw [handleHeartbeatResponseChecked, Raft.handleHeartbeatResponse, if_pos older, if_pos older]
    exact .of_ok fun current => absurd current older.ne
  · cases known : raft.prs.get? m.fromId with
    | none =>
      rw [handleHeartbeatResponseChecked, Raft.handleHeartbeatResponse,
        if_neg (not_lt.mpr current.ge), if_neg (not_lt.mpr current.ge), known]
      exact .of_ok (by simp)
    | some progress =>
      exact (healthy.handleHeartbeatResponse known current.ge).congr (by simp [current])

theorem Healthy.checks_step (draw : Nat) (response : IsResponse m) :
    Checks (raft.stepResponseChecked draw m) (raft.step draw m) (raft.Withstands (draw, m)) := by
  by_cases active : raft.state = .leader ∧ m.term ≤ raft.term
  · rcases active with ⟨leads, notNewer⟩
    rw [step_of_leader draw leads notNewer, stepLeader, stepResponseChecked,
      adoptTerm_of_le draw notNewer, leads]
    rcases response with isAppend | isHeartbeat
    · rw [isAppend]
      exact (healthy.checks_append notNewer).congr (by simp [Withstands, leads, isAppend])
    · rw [isHeartbeat]
      exact (healthy.checks_heartbeat notNewer).congr (by simp [Withstands, leads, isHeartbeat])
  · rcases step_response draw response active with ⟨stepped, checked⟩
    rw [stepped, checked]
    exact .of_ok fun leads current => absurd ⟨leads, current.le⟩ active

theorem Healthy.receive {input : Nat × Message}
    (response : IsResponse input.2) : (raft.receive input).Healthy before := by
  have blindPrs : Blind Raft.prs := ⟨fun _ _ => rfl, fun _ _ => rfl⟩
  by_cases active : raft.state = .leader ∧ input.2.term ≤ raft.term
  · rcases active with ⟨leads, notNewer⟩
    rw [Raft.receive, step_of_leader input.1 leads notNewer, stepLeader]
    rcases response with isAppend | isHeartbeat
    · rw [isAppend]
      have change : CommitChange raft.raftLog
          (raft.handleAppendResponse input.2).raft.raftLog := raft.handleAppendResponse_change
      have peers := view_handleAppendResponse blindPrs raft input.2
      split at peers
      · exact healthy.of_commitChange change peers
      · rw [← raftLog_noteResponse raft input.2] at change
        exact (healthy.noteResponse input.2).of_commitChange change peers
    · rw [isHeartbeat]
      refine healthy.of_commitChange ?_ (view_handleHeartbeatResponse blindPrs.messages raft _)
      rw [handleHeartbeatResponse_raftLog]
      exact .keep
  · rw [Raft.receive, (step_response input.1 response active).1, Outcome.raft_ok]
    rcases raft.adoptTerm_cases input.1 input.2 with ⟨_, same⟩ | ⟨lead, _, adopted⟩
    · rw [same]
      exact healthy
    · rw [adopted]
      exact ⟨healthy.sequential, healthy.notEmpty, healthy.small⟩

omit healthy

/-- All responses are handled exactly if each one asks for entries that the leader has
when it comes. -/
theorem responses_handled_iff (healthy : raft.Healthy before)
    {inputs : List (Nat × Message)} (responses : ∀ input ∈ inputs, IsResponse input.2) :
    (∀ past input, past ++ [input] <+: inputs →
        (past.foldl Raft.receive raft).HandlesChecked input) ↔
      Guarded Raft.receive Withstands raft inputs := by
  apply forall_steps_iff_guarded_of_invariant (Healthy before) healthy
  · intro state input member healthy
    exact healthy.receive (responses input member)
  · intro state input member healthy
    exact (healthy.checks_step input.1 (responses input member)).exists_ok_iff

end Runs

def heartbeatResponseOf : Nat × Message :=
  (0, { msgType := .msgHeartbeatResponse, fromId := 1, toId := 2, term := 2 })

theorem healthy_leaderOfTwo {nextIndex : Nat} (small : nextIndex < wordSize) :
    (leaderOfTwo nextIndex).Healthy 0 := by
  have consecutive : (leaderOfTwo 0).raftLog.Consecutive 0 := by decide +kernel
  refine ⟨consecutive.sequential, List.cons_ne_nil _ _, ?_⟩
  intro peer progress found
  rw [leaderOfTwo, leaderWith, OrderedMap.get?_insert] at found
  split at found
  · rw [← Option.some.inj found]
    exact small
  · cases found

def fewResponses : List (Nat × Message) :=
  [responseOf true 0, heartbeatResponseOf, responseOf false 2]

theorem responses_handled_leaderOfTwo :
    (leaderOfTwo 3).Healthy 0 ∧
      ∀ past input, past ++ [input] <+: fewResponses →
        (past.foldl Raft.receive (leaderOfTwo 3)).HandlesChecked input := by
  have healthy := healthy_leaderOfTwo (by decide : 3 < wordSize)
  have responses : ∀ input ∈ fewResponses, IsResponse input.2 := by
    intro input member
    simp only [fewResponses, List.mem_cons, List.not_mem_nil, or_false] at member
    rcases member with rfl | rfl | rfl
    · exact .inl rfl
    · exact .inr rfl
    · exact .inl rfl
  exact ⟨healthy, (responses_handled_iff healthy responses).mpr (by decide +kernel)⟩

/-- A peer without any entry rejects the first message of a new leader; the second copy of
its response takes the next index to 0, before the log. -/
theorem duplicated_rejection_underflows :
    (leaderOfTwo 3).Healthy 0 ∧ (leaderOfTwo 3).state = .leader ∧
      IsResponse (responseOf true 0).2 ∧
      (leaderOfTwo 3).HandlesChecked (responseOf true 0) ∧
      ((leaderOfTwo 3).receive (responseOf true 0)).stepResponseChecked 0
        (responseOf true 0).2 = .error underflow := by
  have response : IsResponse (responseOf true 0).2 := .inl rfl
  have healthy := healthy_leaderOfTwo (by decide : 3 < wordSize)
  have first := healthy.checks_step 0 response
  have second := (healthy.receive response).checks_step 0 response
  exact ⟨healthy, rfl, response, first.exists_ok_iff.mpr (by decide +kernel),
    second.fails (by decide +kernel)⟩

end Raft

end AegisDB.Consensus

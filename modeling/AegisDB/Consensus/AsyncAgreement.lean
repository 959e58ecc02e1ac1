import AegisDB.Consensus.Async
import AegisDB.Consensus.LogChanges

/-! # When the two sets of handlers agree

A synchronous handler and its asynchronous twin look terms up in different ways. What the two
lookups answer is said once; campaigns, appended entries, votes and commits follow from it. -/

namespace AegisDB.Consensus

open Foundation RaftLog

/-! ## The two lookups -/

namespace RaftLog

/-- The entry at the index, if the log has it in memory. -/
def inMemory (log : RaftLog) (index : Nat) : Option Entry :=
  if index ≤ log.lastIndex then log.entryAt index else none

/-- What `term_sync` and `term` answer. They differ at index 0, and where only the storage can
know the term. -/
inductive Lookups (storage : TermStorage) (log : RaftLog) (index : Nat) :
    Option Nat → Except String Nat → Prop
  | zero (isZero : index = 0) {message : String} :
      Lookups storage log index (some 0) (.error message)
  | compacted (notZero : index ≠ 0) (early : index < log.firstIndex) {message : String} :
      Lookups storage log index none (.error message)
  | held (within : log.firstIndex ≤ index) {entry : Entry}
      (isHeld : log.inMemory index = some entry) :
      Lookups storage log index (some entry.term) (.ok entry.term)
  | stored (within : log.firstIndex ≤ index) (gone : log.inMemory index = none) :
      Lookups storage log index none (storage.term index)

theorem lookups {log : RaftLog} (positive : 0 < log.firstIndex) (storage : TermStorage)
    (index : Nat) : Lookups storage log index (log.termSync index) (log.term storage index) := by
  rw [termSync_of_positive positive, term]
  by_cases early : index < log.firstIndex
  · rw [if_pos early]
    by_cases isZero : index = 0
    · rw [if_pos isZero]
      exact .zero isZero
    · rw [if_neg isZero, entryAt_of_lt early, Option.map_none, ite_self]
      exact .compacted isZero early
  · have notBefore : index ≠ wrappingSub log.firstIndex 1 := by
      have := wrappingSub_one_lt positive
      omega
    have noSnapshot : (log.snapshotToApply.filter fun snapshot =>
        index == wrappingSub log.firstIndex 1 &&
          snapshot.metadata.index == wrappingSub log.firstIndex 1) = none := by
      simp [notBefore]
    have inMemoryTerm : (if index ≤ log.lastIndex then (log.entryAt index).map Entry.term
        else none) = (log.inMemory index).map Entry.term := by
      rw [inMemory]
      split <;> rfl
    rw [if_neg (by omega), if_neg early, inMemoryTerm]
    dsimp only
    rw [noSnapshot]
    dsimp only
    cases isHeld : log.inMemory index with
    | none =>
      rw [inMemory] at isHeld
      rw [isHeld]
      exact .stored (not_lt.mp early) isHeld
    | some entry =>
      rw [inMemory] at isHeld
      rw [isHeld]
      exact .held (not_lt.mp early) isHeld

/-- Both lookups find the term, or neither does: the index lies before the log, its entry is in
memory, or the storage cannot tell the term. -/
def BothFind (storage : TermStorage) (log : RaftLog) (index : Nat) : Prop :=
  index < log.firstIndex ∨ (log.inMemory index).isSome ∨
    ∃ message, storage.term index = .error message

theorem positive_of_append {log after : RaftLog} {entries : List Entry}
    (positive : 0 < log.firstIndex) (appended : log.append entries = .ok after) :
    0 < after.firstIndex := by
  rcases append_eq_ok appended with rfl | ⟨entry, rest, kept, rfl, above, ⟨more, split⟩, rfl⟩
  · exact positive
  · cases pending : log.snapshotToApply with
    | some snapshot =>
      rw [firstIndex_of_snapshot pending] at positive
      exact positive.trans_eq (firstIndex_of_snapshot (by exact pending)).symm
    | none =>
      cases kept with
      | nil =>
        exact (Nat.zero_lt_of_lt above).trans_eq
          (firstIndex_of_head? (by exact pending) rfl).symm
      | cons head tail =>
        rw [firstIndex_of_head? pending (congrArg List.head? split).symm] at positive
        exact positive.trans_eq (firstIndex_of_head? (by exact pending) rfl).symm

end RaftLog

/-! ## Agreement -/

inductive Ending where
  | ok
  | err
  | panics

def Ending.of : Fallible Unit → Ending
  | .ok _ => .ok
  | .error (.error _) => .err
  | .error (.panic _) => .panics

namespace Outcome

/-- The same state, messages included, and both `Ok`, both `Err` or both a panic. -/
def Agree (left right : Outcome) : Prop :=
  left.raft = right.raft ∧ Ending.of left.result = Ending.of right.result

def NoError (outcome : Outcome) : Prop :=
  ∀ message, outcome.result ≠ .error (.error message)

namespace NoError

theorem ok (raft : Raft) : (Outcome.ok raft).NoError := by
  intro message
  simp [Outcome.ok]

variable {outcome : Outcome}

theorem andThen {next : Raft → Outcome} (noError : outcome.NoError)
    (rest : ∀ raft, (next raft).NoError) : (outcome.andThen next).NoError := by
  intro message
  rw [Outcome.andThen]
  split
  · exact rest _ message
  · rename_i fault failed
    have first := noError message
    rwa [failed] at first

theorem ending_ne (noError : outcome.NoError) : Ending.of outcome.result ≠ .err := by
  rcases outcome with ⟨raft, (message | message) | _⟩
  · exact absurd rfl (noError message)
  · nofun
  · nofun

theorem forPeers {handle : Raft → Nat → Outcome} (each : ∀ raft peer, (handle raft peer).NoError)
    (peers : List Nat) (raft : Raft) : (Raft.forPeers handle peers raft).NoError := by
  induction peers generalizing raft with
  | nil => exact .ok raft
  | cons peer rest induction => exact (each raft peer).andThen induction

end NoError

end Outcome

namespace Raft

variable {storage : TermStorage} {raft : Raft} {draw : Nat} {m : Message}

theorem lookup_agree_iff {log : RaftLog} (positive : 0 < log.firstIndex) {index : Nat}
    {message : String} {next : Nat → Outcome} (noError : ∀ term, (next term).NoError) :
    Outcome.Agree
      (match log.termSync index with
      | none => .error raft message
      | some term => next term)
      (match log.term storage index with
      | .error message => .error raft message
      | .ok term => next term) ↔
      index ≠ 0 ∧ log.BothFind storage index := by
  have found := lookups positive storage index
  generalize log.termSync index = sync at found ⊢
  generalize log.term storage index = async at found ⊢
  cases found with
  | zero isZero =>
    exact iff_of_false (fun agree => (noError 0).ending_ne agree.2) fun both => both.1 isZero
  | compacted notZero early => exact iff_of_true ⟨rfl, rfl⟩ ⟨notZero, .inl early⟩
  | held within isHeld =>
    exact iff_of_true ⟨rfl, rfl⟩ ⟨by omega, .inr (.inl (by simp [isHeld]))⟩
  | stored within gone =>
    have onlyStored : log.BothFind storage index ↔
        ∃ message, storage.term index = .error message := by
      simp [BothFind, gone, within]
    rw [onlyStored, and_iff_right (by omega)]
    cases storage.term index with
    | error message => exact iff_of_true ⟨rfl, rfl⟩ ⟨message, rfl⟩
    | ok term => exact iff_of_false (fun agree => (noError term).ending_ne agree.2.symm) (by simp)

/-! ## Campaigns -/

/-- The candidate wins alone, or has entries whose last term both lookups find or neither. -/
def CampaignAlike (storage : TermStorage) (raft : Raft) : Prop :=
  raft.quorum = 1 ∨
    raft.raftLog.lastIndex ≠ 0 ∧ raft.raftLog.BothFind storage raft.raftLog.lastIndex

theorem campaign_agree_iff (positive : 0 < raft.raftLog.firstIndex) :
    (raft.campaign draw).Agree (raft.campaignAsync storage draw) ↔
      CampaignAlike storage (raft.becomeCandidate draw) := by
  rw [campaign, campaignAsync, CampaignAlike]
  dsimp only
  by_cases alone : (raft.becomeCandidate draw).quorum = 1
  · rw [if_pos alone, if_pos alone]
    exact iff_of_true ⟨rfl, rfl⟩ (.inl alone)
  · rw [if_neg alone, if_neg alone, or_iff_right alone]
    exact lookup_agree_iff positive fun term =>
      .forPeers (fun _ _ => .ok _) _ _

/-! ## Appended entries -/

/-- The message is old, or begins after or before all entries, or both lookups find the term
at its index or neither. -/
def AppendAlike (storage : TermStorage) (raft : Raft) (m : Message) : Prop :=
  m.term < raft.term ∨ raft.raftLog.lastIndex < m.index ∨ m.index = 0 ∨
    raft.raftLog.BothFind storage m.index

theorem noError_appendLocal (raft : Raft) (entries : List Entry) :
    (raft.appendLocal entries).NoError := by
  intro message
  rw [appendLocal]
  cases appended : raft.raftLog.append entries with
  | ok raftLog => simp [Outcome.ok]
  | error fault =>
    rcases fault_of_append appended with ⟨indexes, rfl⟩
    simp

theorem handleAppendEntries_agree_iff (positive : 0 < raft.raftLog.firstIndex) :
    (raft.handleAppendEntries m).Agree (raft.handleAppendEntriesAsync storage m) ↔
      AppendAlike storage raft m := by
  rw [handleAppendEntries, handleAppendEntriesAsync, AppendAlike]
  by_cases old : m.term < raft.term
  · simp [old, Outcome.Agree]
  · rw [if_neg old, if_neg old, or_iff_right old]
    dsimp only
    by_cases beyond : raft.raftLog.lastIndex < m.index
    · simp [beyond, Outcome.Agree]
    · rw [if_neg beyond, if_neg beyond, or_iff_right beyond]
      by_cases first : m.index = 0
      · simp [first, Outcome.Agree]
      · rw [if_pos (Nat.pos_of_ne_zero first), if_pos (Nat.pos_of_ne_zero first),
          or_iff_right first]
        have alike : m.index ≠ 0 ∧ raft.raftLog.BothFind storage m.index ↔ _ := and_iff_right first
        rw [← alike]
        refine lookup_agree_iff positive fun term => ?_
        split
        · exact .ok _
        · exact (noError_appendLocal _ m.entries).andThen fun raft => .ok _

/-! ## Votes -/

/-- The request is old, or both lookups find the last term, or the storage alone knows it and
the vote does not turn on it: it cannot be given, the term is 0, the candidate is up to date, or
it is behind even a last term of 0. -/
def VoteAlike (storage : TermStorage) (raft : Raft) (m : Message) : Prop :=
  let last := raft.raftLog.lastIndex
  m.term < raft.term ∨ raft.raftLog.firstIndex ≤ last ∧
    ((raft.raftLog.inMemory last).isSome ∨ ∃ term, storage.term last = .ok term ∧
      (raft.canVote m = false ∨ term = 0 ∨ term < m.logTerm ∨ term = m.logTerm ∧ last ≤ m.index ∨
        m.logTerm = 0 ∧ m.index < last))

def answerVote (raft : Raft) (m : Message) (granted : Bool) : Outcome :=
  if granted then
    let raft := { raft with vote := m.fromId, electionElapsed := 0 }
    .ok (raft.push (raft.voteResponse m.fromId false))
  else
    .ok (raft.push (raft.voteResponse m.fromId true))

theorem answerVote_agree_iff {sync async : Bool} :
    (raft.answerVote m sync).Agree (raft.answerVote m async) ↔ sync = async := by
  constructor
  · intro agree
    have messages := congrArg Raft.msgs agree.1
    cases sync <;> cases async <;> simp_all [answerVote, push, voteResponse, Outcome.ok]
  · intro same
    rw [same]
    exact ⟨rfl, rfl⟩

theorem noError_answerVote (raft : Raft) (m : Message) (granted : Bool) :
    (raft.answerVote m granted).NoError := by
  rw [answerVote]
  split <;> exact .ok _

theorem grants_zero_eq_iff {term : Nat} :
    ((raft.canVote m && raft.logOkAt m 0) = (raft.canVote m && raft.logOkAt m term)) ↔
      raft.canVote m = false ∨ term = 0 ∨ term < m.logTerm ∨
        term = m.logTerm ∧ raft.raftLog.lastIndex ≤ m.index ∨
        m.logTerm = 0 ∧ m.index < raft.raftLog.lastIndex := by
  cases raft.canVote m with
  | false => simp
  | true =>
    rw [Bool.eq_iff_iff]
    simp only [Bool.true_and, logOkAt, Bool.or_eq_true, Bool.and_eq_true,
      decide_eq_true_eq, beq_iff_eq, gt_iff_lt, ge_iff_le, Bool.true_eq_false, false_or]
    omega

theorem handleRequestVote_agree_iff (positive : 0 < raft.raftLog.firstIndex)
    (notNewer : m.term ≤ raft.term) :
    (raft.handleRequestVote draw m).Agree (raft.handleRequestVoteAsync storage draw m) ↔
      VoteAlike storage raft m := by
  rw [handleRequestVote, handleRequestVoteAsync, VoteAlike]
  by_cases old : m.term < raft.term
  · simp [old, Outcome.Agree]
  · rw [if_neg old, if_neg old, or_iff_right old, if_neg (not_lt.mpr notNewer)]
    dsimp only
    change (raft.answerVote m (raft.canVote m && raft.logOkAt m _)).Agree
      (match raft.raftLog.term storage _ with
        | .error _ => _
        | .ok lastTerm => raft.answerVote m (raft.canVote m && raft.logOkAt m lastTerm)) ↔ _
    have found := lookups positive storage raft.raftLog.lastIndex
    generalize raft.raftLog.termSync raft.raftLog.lastIndex = sync at found ⊢
    generalize raft.raftLog.term storage raft.raftLog.lastIndex = async at found ⊢
    have fails {granted : Bool} {message : String} :
        ¬ (raft.answerVote m granted).Agree (.error raft message) :=
      fun agree => (noError_answerVote raft m granted).ending_ne agree.2
    cases found with
    | zero isZero => exact iff_of_false fails (by omega)
    | compacted notZero early => exact iff_of_false fails (by omega)
    | held within isHeld => exact iff_of_true ⟨rfl, rfl⟩ ⟨within, .inl (by simp [isHeld])⟩
    | stored within gone =>
      rw [and_iff_right within, gone, or_iff_right (by simp)]
      cases storage.term raft.raftLog.lastIndex with
      | error message => exact iff_of_false fails (by simp)
      | ok term =>
        simp only [Except.ok.injEq, exists_eq_left']
        exact answerVote_agree_iff.trans grants_zero_eq_iff

/-! ## Commits -/

/-- The index that a majority has, if it is new, is in the log and its entry in memory, or the
storage knows its term, which is the leader's just if the leader's term is 0. -/
def CommitAlike (storage : TermStorage) (raft : Raft) : Prop :=
  raft.state = .leader → ∀ index, raft.quorumIndex? = some index →
    raft.raftLog.committed < index → raft.raftLog.firstIndex ≤ index ∧
      ((raft.raftLog.inMemory index).isSome ∨
        ∃ term, storage.term index = .ok term ∧ (raft.term = 0 ↔ term = raft.term))

theorem maybeCommitAsync_cases (positive : 0 < raft.raftLog.firstIndex) :
    CommitAlike storage raft ∧ raft.maybeCommitAsync storage = .ok raft.maybeCommit ∨
      ¬ CommitAlike storage raft ∧
        ((∃ message, raft.maybeCommitAsync storage = .error raft message) ∨
          ∃ other, raft.maybeCommitAsync storage = .ok other ∧
            raft.maybeCommit.raftLog ≠ other.raftLog) := by
  rw [maybeCommit, maybeCommitAsync, CommitAlike]
  by_cases leads : raft.state = .leader
  · rw [if_neg (not_not.mpr leads), if_neg (not_not.mpr leads)]
    dsimp only
    simp only [leads, forall_const]
    cases found : raft.quorumIndex? with
    | none =>
      rw [quorumIndex?] at found
      rw [found]
      exact .inl ⟨nofun, rfl⟩
    | some index =>
      rw [quorumIndex?] at found
      rw [found]
      simp only [Option.some.injEq, forall_eq']
      by_cases above : raft.raftLog.committed < index
      · have moved : { raft.raftLog with committed := index } ≠ raft.raftLog :=
          fun same => above.ne' (congrArg committed same)
        have lookups := lookups positive storage index
        generalize raft.raftLog.termSync index = sync at lookups ⊢
        generalize raft.raftLog.term storage index = async at lookups ⊢
        simp only [gt_iff_lt, above, forall_const, if_true, true_and]
        cases lookups with
        | zero isZero => omega
        | compacted notZero early => exact .inr ⟨by omega, .inl ⟨_, rfl⟩⟩
        | @held within entry isHeld =>
          refine .inl ⟨⟨within, .inl (by simp [isHeld])⟩, ?_⟩
          dsimp only [Option.getD_some]
          split <;> rfl
        | stored within gone =>
          simp only [within, gone, Option.isSome_none, Bool.false_eq_true, true_and, false_or]
          cases storage.term index with
          | error message => exact .inr ⟨by simp, .inl ⟨message, rfl⟩⟩
          | ok term =>
            simp only [Except.ok.injEq, exists_eq_left', Option.getD_none, @eq_comm _ 0]
            by_cases mine : term = raft.term <;> by_cases zero : raft.term = 0
            · rw [if_pos mine, if_pos zero]
              exact .inl ⟨iff_of_true zero mine, rfl⟩
            · rw [if_pos mine, if_neg zero]
              exact .inr ⟨fun same => zero (same.mpr mine), .inr ⟨_, rfl, moved.symm⟩⟩
            · rw [if_neg mine, if_pos zero]
              exact .inr ⟨fun same => mine (same.mp zero), .inr ⟨_, rfl, moved⟩⟩
            · rw [if_neg mine, if_neg zero]
              exact .inl ⟨iff_of_false zero mine, rfl⟩
      · rw [if_neg above, if_neg fun both => above both.1]
        exact .inl ⟨fun later => absurd later above, rfl⟩
  · rw [if_pos leads, if_pos leads]
    exact .inl ⟨fun isLeader => absurd isLeader leads, rfl⟩

theorem commit_andThen_agree_iff (positive : 0 < raft.raftLog.firstIndex)
    {next nextAsync : Raft → Outcome} (noError : ∀ raft, (next raft).NoError)
    (keeps : ∀ raft, (next raft).raft.raftLog = raft.raftLog)
    (keepsAsync : ∀ raft, (nextAsync raft).raft.raftLog = raft.raftLog) :
    (next raft.maybeCommit).Agree ((raft.maybeCommitAsync storage).andThen nextAsync) ↔
      CommitAlike storage raft ∧ (next raft.maybeCommit).Agree (nextAsync raft.maybeCommit) := by
  rcases maybeCommitAsync_cases positive with
    ⟨alike, same⟩ | ⟨unlike, ⟨message, failed⟩ | ⟨other, committed, differs⟩⟩
  · rw [same, Outcome.ok_andThen, and_iff_right alike]
  · rw [failed]
    exact iff_of_false (fun agree => (noError _).ending_ne agree.2) fun both => unlike both.1
  · rw [committed, Outcome.ok_andThen]
    refine iff_of_false (fun agree => differs ?_) fun both => unlike both.1
    have logs := congrArg Raft.raftLog agree.1
    rwa [keeps, keepsAsync] at logs

end Raft

end AegisDB.Consensus

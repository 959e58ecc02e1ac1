import AegisDB.Consensus.LogChanges

/-! # What a follower does with the messages of its leader

An append message is rejected, refused with an error, or taken; a heartbeat only moves
the commit index. What is acknowledged or committed then is not always what the message
was about. -/

namespace AegisDB.Consensus

open Foundation List

/-! ## Following a commit index -/

namespace RaftLog

section Follow

variable (log : RaftLog) (commit : Nat)

theorem entries_follow : (log.follow commit).entries = log.entries := by
  rw [follow_eq]

theorem lastIndex_follow : (log.follow commit).lastIndex = log.lastIndex := by
  rw [follow_eq]
  rfl

theorem entryAt_follow (index : Nat) : (log.follow commit).entryAt index = log.entryAt index := by
  rw [follow_eq]
  rfl

theorem termSync_follow (index : Nat) :
    (log.follow commit).termSync index = log.termSync index := by
  rw [follow_eq]
  rfl

theorem follow_follow : (log.follow commit).follow commit = log.follow commit := by
  by_cases ahead : commit > log.committed
  · have once : log.follow commit = { log with committed := min commit log.lastIndex } :=
      if_pos ahead
    rw [once, follow]
    split
    · rfl
    · rfl
  · have once : log.follow commit = log := if_neg ahead
    rw [once, once]

end Follow

variable {log : RaftLog} {commit : Nat}

theorem accepts_follow {m : Message} : (log.follow commit).Accepts m ↔ log.Accepts m := by
  rw [Accepts, lastIndex_follow, termSync_follow]
  rfl

theorem committed_follow_le {bound : Nat} (committed : log.committed ≤ bound)
    (commitLe : commit ≤ bound) : (log.follow commit).committed ≤ bound := by
  rw [follow]
  split
  · exact (Nat.min_le_left _ _).trans commitLe
  · exact committed

theorem Sequential.follow {before : Nat} (sequential : log.Sequential before) :
    (log.follow commit).Sequential before := by
  rw [follow_eq]
  exact ⟨sequential.numbered, sequential.restored, sequential.atStart, sequential.small⟩

end RaftLog

/-! ## Append messages -/

namespace Appended

variable {m : Message} {log after : RaftLog} {result : Fallible Unit}
  {answer : Option (Bool × Nat)}

theorem of_not_accepts (ending : Appended m log after result answer)
    (rejected : ¬ log.Accepts m) : after = log ∧ result.NoPanic := by
  cases ending with
  | beyond | unknown | mismatch => exact ⟨rfl, fun _ => by simp⟩
  | fail _ accepted _ => exact absurd accepted rejected
  | take _ accepted _ => exact absurd accepted rejected

theorem of_accepts (ending : Appended m log after result answer) (accepted : log.Accepts m) :
    (∃ fault, log.append m.entries = .error fault ∧ result = .error fault) ∨
      ∃ middle, log.append m.entries = .ok middle ∧ after = middle.follow m.commit ∧
        result = .ok () ∧ answer = some (false, middle.lastIndex) := by
  cases ending with
  | beyond beyond => exact absurd accepted.1 (not_le.mpr beyond)
  | unknown _ positive missing =>
    rw [accepted.2 positive] at missing
    cases missing
  | mismatch term _ positive found differs =>
    rw [accepted.2 positive] at found
    exact absurd (Option.some.inj found).symm differs
  | fail fault _ failed => exact .inl ⟨fault, failed, rfl⟩
  | take middle _ appended => exact .inr ⟨middle, appended, rfl, rfl, rfl⟩

end Appended

namespace Raft

variable {raft : Raft} {m : Message}

theorem step_append (draw : Nat) (offered : m.msgType = .msgAppend) (hears : raft.Hears m) :
    ∃ other : Raft, other.raftLog = raft.raftLog ∧ other.msgs = raft.msgs ∧ other.id = raft.id ∧
      other.state = .follower ∧ other.term ≤ m.term ∧
      raft.step draw m = other.handleAppendEntries m := by
  rw [step]
  by_cases newer : raft.term < m.term
  · refine ⟨{ raft.becomeFollower draw m.term NONE with electionElapsed := 0 }, rfl, rfl, rfl, rfl,
      le_rfl, ?_⟩
    simp only [adoptTerm, offered, if_pos newer]
    simp [becomeFollower, stepFollower, offered]
  · have same : raft.adoptTerm draw m = raft := if_neg newer
    rw [same]
    rcases hears with impossible | candidate | ⟨follower, notOlder⟩
    · exact absurd impossible newer
    · refine ⟨raft.becomeFollower draw m.term m.fromId, rfl, rfl, rfl, rfl, le_rfl, ?_⟩
      simp [candidate, stepCandidate, offered]
    · refine ⟨{ raft with electionElapsed := 0 }, rfl, rfl, rfl, follower, notOlder, ?_⟩
      simp [follower, stepFollower, offered]

theorem step_endsAppend (draw : Nat) (offered : m.msgType = .msgAppend) (hears : raft.Hears m) :
    ∃ answer, raft.EndsAppend m (raft.step draw m) answer := by
  rcases step_append draw offered hears with
    ⟨other, sameLog, sameMsgs, sameId, _, notOlder, handled⟩
  rcases handleAppendEntries_ends notOlder with ⟨answer, ending, msgs⟩
  have sameAnswer : other.answerMessage m = raft.answerMessage m := by
    funext answer
    rw [answerMessage, answerMessage, sameId]
  rw [handled]
  refine ⟨answer, sameLog ▸ ending, ?_⟩
  rw [msgs, sameMsgs, sameAnswer]

end Raft

/-! ## What is acknowledged -/

variable {before : Nat} {entries : List Entry}

theorem Numbered.getLast? (numbered : Numbered before entries) (notEmpty : entries ≠ []) :
    ∃ last, entries.getLast? = some last ∧ last.index = before + entries.length := by
  have positive := length_pos_of_ne_nil notEmpty
  have found : entries[entries.length - 1]? = some entries[entries.length - 1] :=
    getElem?_eq_getElem (by omega)
  have index := numbered _ _ found
  refine ⟨_, by rw [getLast?_eq_getElem?]; exact found, by omega⟩

theorem RaftLog.lastIndex_append {log after : RaftLog}
    (numbered : Numbered before entries) (appended : log.append entries = .ok after) :
    after.lastIndex =
      if entries ≠ [] ∧ log.snapshotToApply = none then before + entries.length
      else log.lastIndex := by
  cases entries with
  | nil =>
    rw [← Except.ok.inj appended, if_neg fun both => both.1 rfl]
  | cons entry rest =>
    rcases numbered.getLast? (cons_ne_nil entry rest) with ⟨last, isLast, index⟩
    rcases append_cons_eq_ok_iff.mp appended with ⟨_, equal⟩
    have still : after.snapshotToApply = log.snapshotToApply := by
      rw [equal]
      rfl
    cases pending : log.snapshotToApply with
    | some snapshot =>
      rw [if_neg (by simp), lastIndex_of_snapshot pending,
        lastIndex_of_snapshot (still.trans pending)]
    | none =>
      have behind : after.entries.getLast? = some last := by
        rw [equal, getLast?_append, isLast, Option.some_or]
      rw [if_pos (by simp), lastIndex_of_getLast? (still.trans pending) behind, index]

/-- A follower answers an append message that it takes with its last index. That is no
more than it has checked exactly if the message ends the log, or the log ends within it. -/
theorem acknowledged_le_iff {raft : Raft} {draw : Nat} {m response : Message}
    (notLeader : raft.state ≠ .leader) (offered : m.msgType = .msgAppend)
    (current : raft.term ≤ m.term) (numbered : Numbered m.index m.entries)
    (answered : (raft.step draw m).raft.msgs = raft.msgs ++ [response])
    (accepted : response.reject = false) :
    response.index ≤ m.index + m.entries.length ↔
      m.entries ≠ [] ∧ raft.raftLog.snapshotToApply = none ∨
        raft.raftLog.lastIndex ≤ m.index + m.entries.length := by
  have hears : raft.Hears m := by
    cases state : raft.state with
    | follower => exact .inr (.inr ⟨state, current⟩)
    | candidate => exact .inr (.inl state)
    | leader => exact absurd state notLeader
  rcases Raft.step_endsAppend draw offered hears with ⟨answer, ending, msgs⟩
  have pushed := append_cancel_left (answered.symm.trans msgs)
  generalize (raft.step draw m).raft.raftLog = after at ending
  generalize (raft.step draw m).result = result at ending
  cases ending with
  | beyond | mismatch =>
    rcases singleton_inj.mp pushed with rfl
    cases accepted
  | unknown | fail => cases pushed
  | take after _ appended =>
    rcases singleton_inj.mp pushed with rfl
    change after.lastIndex ≤ _ ↔ _
    rw [RaftLog.lastIndex_append numbered appended]
    split_ifs with ends
    · exact iff_of_true le_rfl (.inl ends)
    · exact (or_iff_right ends).symm

def followerWith (committed : Nat) (entries : List Entry) : Raft where
  id := 1
  term := 2
  vote := NONE
  raftLog := { committed, applied := 0, stabled := 0, entries, pendingSnapshot := none }
  prs := OrderedMap.empty.insert 2 (Progress.new 1)
  state := .follower
  votes := .empty
  msgs := []
  lead := 2
  heartbeatTimeout := 1
  electionTimeout := 2
  heartbeatElapsed := 0
  electionElapsed := 0
  randomElectionTimeout := 2

def appendOf (logTerm index : Nat) (entries : List Entry) (commit : Nat) : Message where
  msgType := .msgAppend
  toId := 1
  fromId := 2
  term := 2
  logTerm := logTerm
  index := index
  entries := entries
  commit := commit

def staleEntries : List Entry := [Entry.newNormal 1 1 [], Entry.newNormal 1 2 []]

theorem acknowledged_le_of_entries :
    ∃ response, ((followerWith 0 staleEntries).step 0
        (appendOf 1 1 [Entry.newNormal 2 2 []] 0)).raft.msgs =
          (followerWith 0 staleEntries).msgs ++ [response] ∧
      response.index ≤ 2 := by
  have answered : ∃ response, ((followerWith 0 staleEntries).step 0
      (appendOf 1 1 [Entry.newNormal 2 2 []] 0)).raft.msgs =
        (followerWith 0 staleEntries).msgs ++ [response] ∧ response.reject = false :=
    ⟨_, rfl, rfl⟩
  rcases answered with ⟨response, answered, accepted⟩
  exact ⟨response, answered, (acknowledged_le_iff (by decide) rfl (by decide) (by decide) answered
    accepted).mpr (.inl (by decide))⟩

/-- An empty append message checks the first of two stale entries, and both of them are
acknowledged. -/
theorem stale_entry_acknowledged :
    ∃ (raft : Raft) (draw : Nat) (m response : Message), raft.state ≠ .leader ∧
      m.msgType = .msgAppend ∧ raft.term ≤ m.term ∧ Numbered m.index m.entries ∧
      (raft.step draw m).raft.msgs = raft.msgs ++ [response] ∧ response.reject = false ∧
      m.index + m.entries.length < response.index := by
  refine ⟨followerWith 0 staleEntries, 0, appendOf 1 1 [] 0, _, by decide, rfl, by decide,
    by decide, rfl, rfl, by decide⟩

/-! ## Heartbeats -/

theorem Raft.raftLog_step_heartbeat {raft : Raft} (draw : Nat) {m : Message}
    (beaten : m.msgType = .msgHeartbeat) (follows : raft.state = .follower)
    (current : raft.term ≤ m.term) :
    (raft.step draw m).raft.raftLog = raft.raftLog.follow m.commit := by
  have handled (other : Raft) (sameLog : other.raftLog = raft.raftLog)
      (notOlder : other.term ≤ m.term) :
      (other.handleHeartbeat m).raft.raftLog = raft.raftLog.follow m.commit := by
    rw [handleHeartbeat, if_neg (not_lt.mpr notOlder), ← sameLog]
    exact raftLog_followCommit { other with term := m.term, lead := m.fromId } m.commit
  rw [step]
  rcases raft.adoptTerm_cases draw m with ⟨_, same⟩ | ⟨lead, newer, adopted⟩
  · rw [same]
    simp only [follows, stepFollower, beaten]
    exact handled { raft with state := .follower, electionElapsed := 0 } rfl current
  · rw [adopted]
    simp only [becomeFollower, stepFollower, beaten]
    exact handled { raft.becomeFollower draw m.term lead with electionElapsed := 0 } rfl le_rfl

def CommitsAlike (leader follower : RaftLog) : Prop :=
  ∀ index entry, index ≤ follower.committed → follower.entryAt index = some entry →
    leader.entryAt index = some entry

/-- A follower whose log departs from that of its leader after an index: a heartbeat
keeps it safe exactly if neither has committed anything beyond that index. -/
theorem heartbeat_safe_iff {leader follower : Raft} {m : Message} {shared : Nat} (draw : Nat)
    (follows : follower.state = .follower) (sameTerm : follower.term = leader.term)
    (agree : ∀ index entry, index ≤ shared → follower.raftLog.entryAt index = some entry →
      leader.raftLog.entryAt index = some entry)
    (departs : ∃ entry, follower.raftLog.entryAt (shared + 1) = some entry ∧
      leader.raftLog.entryAt (shared + 1) ≠ some entry)
    (longer : shared < follower.raftLog.lastIndex)
    (sent : (leader.sendHeartbeat follower.id).raft.msgs = leader.msgs ++ [m]) :
    CommitsAlike leader.raftLog (follower.step draw m).raft.raftLog ↔
      leader.raftLog.committed ≤ shared ∧ follower.raftLog.committed ≤ shared := by
  have isBeat := singleton_inj.mp (append_cancel_left sent)
  subst isBeat
  rw [Raft.raftLog_step_heartbeat draw rfl follows sameTerm.le]
  have committed : (follower.raftLog.follow leader.raftLog.committed).committed ≤ shared ↔
      leader.raftLog.committed ≤ shared ∧ follower.raftLog.committed ≤ shared := by
    rw [RaftLog.follow]
    split
    · dsimp only
      omega
    · omega
  change CommitsAlike leader.raftLog (follower.raftLog.follow leader.raftLog.committed) ↔ _
  rw [← committed]
  simp only [CommitsAlike, RaftLog.entryAt_follow]
  constructor
  · intro alike
    by_contra beyond
    rcases departs with ⟨entry, found, differs⟩
    exact differs (alike (shared + 1) entry (not_le.mp beyond) found)
  · intro within index entry below found
    exact agree index entry (below.trans within) found

def leaderWith (nextIndex committed : Nat) (entries : List Entry) : Raft where
  id := 2
  term := 2
  vote := 2
  raftLog := { committed, applied := 0, stabled := 0, entries, pendingSnapshot := none }
  prs := OrderedMap.empty.insert 1 (Progress.new nextIndex)
  state := .leader
  votes := .empty
  msgs := []
  lead := 2
  heartbeatTimeout := 1
  electionTimeout := 2
  heartbeatElapsed := 0
  electionElapsed := 0
  randomElectionTimeout := 2

def leaderCommitted (committed : Nat) : Raft :=
  leaderWith 3 committed [Entry.newNormal 1 1 [], Entry.newNormal 2 2 []]

theorem staleEntries_agree (committed index : Nat) (entry : Entry) (below : index ≤ 1)
    (found : (followerWith 0 staleEntries).raftLog.entryAt index = some entry) :
    (leaderCommitted committed).raftLog.entryAt index = some entry := by
  have same : ∀ index ≤ 1, (leaderCommitted 0).raftLog.entryAt index =
      (followerWith 0 staleEntries).raftLog.entryAt index := by decide
  exact (same index below).trans found

theorem heartbeat_safe_of_shared_committed :
    ∃ m, ((leaderCommitted 1).sendHeartbeat 1).raft.msgs = (leaderCommitted 1).msgs ++ [m] ∧
      CommitsAlike (leaderCommitted 1).raftLog
        ((followerWith 0 staleEntries).step 0 m).raft.raftLog := by
  have departs : ∃ entry, (followerWith 0 staleEntries).raftLog.entryAt (1 + 1) = some entry ∧
      (leaderCommitted 1).raftLog.entryAt (1 + 1) ≠ some entry :=
    ⟨Entry.newNormal 1 2 [], by decide, by decide⟩
  have sameTerm : (followerWith 0 staleEntries).term = (leaderCommitted 1).term := rfl
  have safe := heartbeat_safe_iff 0 rfl sameTerm (staleEntries_agree 1) departs (by decide) rfl
  exact ⟨_, rfl, safe.mpr (by decide)⟩

/-- The leader has committed its second entry, and its heartbeat makes the follower
commit the stale entry at that index. -/
theorem stale_entry_committed :
    ∃ (leader follower : Raft) (m : Message) (draw shared : Nat),
      leader.state = .leader ∧ follower.state = .follower ∧ follower.term = leader.term ∧
      (∀ index entry, index ≤ shared → follower.raftLog.entryAt index = some entry →
        leader.raftLog.entryAt index = some entry) ∧
      (∃ entry, follower.raftLog.entryAt (shared + 1) = some entry ∧
        entry.term < follower.term ∧
        leader.raftLog.entryAt (shared + 1) ≠ some entry) ∧
      (leader.sendHeartbeat follower.id).raft.msgs = leader.msgs ++ [m] ∧
      ¬ CommitsAlike leader.raftLog (follower.step draw m).raft.raftLog := by
  refine ⟨leaderCommitted 2, followerWith 0 staleEntries, _, 0, 1, rfl, rfl, rfl,
    staleEntries_agree 2, ⟨Entry.newNormal 1 2 [], by decide, by decide, by decide⟩, rfl, ?_⟩
  intro alike
  have found := alike 2 (Entry.newNormal 1 2 []) (by decide) (by decide)
  exact absurd found (by decide)

end AegisDB.Consensus

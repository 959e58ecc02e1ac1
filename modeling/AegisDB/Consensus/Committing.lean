import AegisDB.Consensus.Moves
import AegisDB.Foundation.Ranking
import Mathlib.Data.Nat.Find

/-! # What a leader commits

An entry of the leader's term may be committed once a majority of the voters has it, and
the leader is one of the voters. The code looks for the majority among the others. -/

namespace AegisDB.Consensus

open Foundation

namespace Raft

/-! ## The rule -/

def peersAt (raft : Raft) (index : Nat) : Nat :=
  reach (raft.prs.values.map Progress.matchIndex) index

def votersAt (raft : Raft) (index : Nat) : Nat :=
  raft.peersAt index + if index ≤ raft.raftLog.lastIndex then 1 else 0

def Committable (raft : Raft) (index : Nat) : Prop :=
  (∃ entry ∈ raft.raftLog.entries, entry.index = index ∧ entry.term = raft.term) ∧
    raft.quorum ≤ raft.votersAt index

instance decidableCommittable (raft : Raft) (index : Nat) : Decidable (raft.Committable index) :=
  inferInstanceAs (Decidable (_ ∧ _))

def majorityCommit (raft : Raft) : Nat :=
  max raft.raftLog.committed (Nat.findGreatest raft.Committable raft.raftLog.lastIndex)

variable {raft : Raft} {before : Nat}

theorem committed_le_majorityCommit : raft.raftLog.committed ≤ raft.majorityCommit :=
  le_max_left _ _

variable {index : Nat}

theorem le_majorityCommit (committable : raft.Committable index)
    (within : index ≤ raft.raftLog.lastIndex) : index ≤ raft.majorityCommit :=
  (Nat.le_findGreatest within committable).trans (le_max_right _ _)

theorem committable_majorityCommit (moved : raft.raftLog.committed < raft.majorityCommit) :
    raft.Committable raft.majorityCommit := by
  have isGreatest : Nat.findGreatest raft.Committable raft.raftLog.lastIndex =
      raft.majorityCommit := by
    rw [majorityCommit] at moved ⊢
    omega
  exact Nat.findGreatest_of_ne_zero isGreatest (by omega)

/-! ## The code -/

theorem quorumIndex?_eq_some_iff :
    raft.quorumIndex? = some index ↔
      IsGreatest {index | raft.quorum ≤ raft.peersAt index} index := by
  have positive : 0 < raft.quorum := Nat.succ_pos _
  have same : {index | raft.quorum ≤ raft.peersAt index} =
      {index | raft.quorum - 1 < reach (raft.prs.values.map Progress.matchIndex) index} := by
    ext index
    change raft.quorum ≤ raft.peersAt index ↔ raft.quorum - 1 < raft.peersAt index
    omega
  rw [same]
  exact ranked_eq_some_iff

theorem committed_maybeCommit_cases (leads : raft.state = .leader) :
    (∃ index, raft.quorumIndex? = some index ∧ raft.raftLog.committed < index ∧
        (raft.raftLog.termSync index).getD 0 = raft.term ∧
        raft.maybeCommit.raftLog.committed = index) ∨
      (raft.maybeCommit.raftLog.committed = raft.raftLog.committed ∧
        ∀ index, raft.quorumIndex? = some index → raft.raftLog.committed < index →
          (raft.raftLog.termSync index).getD 0 ≠ raft.term) := by
  cases found : raft.quorumIndex? with
  | none =>
    rw [quorumIndex?] at found
    refine .inr ⟨?_, fun index impossible => by cases impossible⟩
    rw [maybeCommit, if_neg (not_not.mpr leads)]
    dsimp only
    rw [found]
  | some index =>
    rw [quorumIndex?] at found
    rw [maybeCommit, if_neg (not_not.mpr leads)]
    dsimp only
    rw [found]
    by_cases chosen : raft.raftLog.committed < index ∧
        (raft.raftLog.termSync index).getD 0 = raft.term
    · exact .inl ⟨index, rfl, chosen.1, chosen.2, by dsimp only; rw [if_pos chosen]⟩
    · refine .inr ⟨by dsimp only; rw [if_neg chosen], ?_⟩
      intro other same ahead inTerm
      rcases Option.some.inj same with rfl
      exact chosen ⟨ahead, inTerm⟩

theorem termSync_eq_term_iff (consecutive : raft.raftLog.Consecutive before)
    (above : before < index) (within : index ≤ raft.raftLog.lastIndex) :
    (raft.raftLog.termSync index).getD 0 = raft.term ↔
      ∃ entry ∈ raft.raftLog.entries, entry.index = index ∧ entry.term = raft.term := by
  rw [consecutive.lastIndex] at within
  have found : raft.raftLog.entryAt index = some raft.raftLog.entries[index - (before + 1)] := by
    rw [consecutive.entryAt above]
    exact List.getElem?_eq_getElem (by omega)
  rcases consecutive.entryAt_eq_some_iff.mp found with ⟨member, isIndex⟩
  rw [consecutive.termSync (by omega), found]
  constructor
  · intro inTerm
    exact ⟨_, member, isIndex, inTerm⟩
  · intro ⟨other, otherMember, otherIndex, inTerm⟩
    rw [consecutive.entryAt_eq_some_iff.mpr ⟨otherMember, otherIndex⟩] at found
    rw [← found]
    exact inTerm

theorem index_le_lastIndex
    (matched : ∀ progress ∈ raft.prs.values, progress.matchIndex ≤ raft.raftLog.lastIndex)
    (reached : raft.quorum ≤ raft.peersAt index) :
    index ≤ raft.raftLog.lastIndex := by
  have positive : 0 < raft.peersAt index := Nat.lt_of_lt_of_le (Nat.succ_pos _) reached
  rw [peersAt, reach, List.countP_pos_iff] at positive
  rcases positive with ⟨matchIndex, member, atLeast⟩
  rcases List.mem_map.mp member with ⟨progress, present, rfl⟩
  exact (of_decide_eq_true atLeast).trans (matched progress present)

theorem committable_of_quorumIndex? (consecutive : raft.raftLog.Consecutive before)
    (held : before ≤ raft.raftLog.committed)
    (matched : ∀ progress ∈ raft.prs.values, progress.matchIndex ≤ raft.raftLog.lastIndex)
    (found : raft.quorumIndex? = some index) (ahead : raft.raftLog.committed < index)
    (inTerm : (raft.raftLog.termSync index).getD 0 = raft.term) :
    raft.Committable index ∧ index ≤ raft.raftLog.lastIndex := by
  have reached := (quorumIndex?_eq_some_iff.mp found).1
  have within := index_le_lastIndex matched reached
  refine ⟨⟨(termSync_eq_term_iff consecutive (by omega) within).mp inTerm, ?_⟩, within⟩
  rw [votersAt, if_pos within]
  exact Nat.le_succ_of_le reached

/-- The leader commits what the majority has exactly if, whenever that is more than is
committed, it is the greatest index that a quorum of the others has reached. -/
theorem maybeCommit_eq_majorityCommit_iff (leads : raft.state = .leader)
    (consecutive : raft.raftLog.Consecutive before) (held : before ≤ raft.raftLog.committed)
    (matched : ∀ progress ∈ raft.prs.values, progress.matchIndex ≤ raft.raftLog.lastIndex) :
    raft.maybeCommit.raftLog.committed = raft.majorityCommit ↔
      (raft.raftLog.committed < raft.majorityCommit →
        IsGreatest {index | raft.quorum ≤ raft.peersAt index} raft.majorityCommit) := by
  rcases committed_maybeCommit_cases leads with
    ⟨index, found, ahead, inTerm, committed⟩ | ⟨committed, notChosen⟩
  · rcases committable_of_quorumIndex? consecutive held matched found ahead inTerm with
      ⟨committable, within⟩
    have moved := lt_of_lt_of_le ahead (le_majorityCommit committable within)
    rw [committed]
    constructor
    · intro same _
      rw [← same]
      exact quorumIndex?_eq_some_iff.mp found
    · intro greatest
      exact (quorumIndex?_eq_some_iff.mp found).unique (greatest moved)
  · rw [committed]
    constructor
    · intro same moved
      exact absurd same moved.ne
    · intro greatest
      by_contra different
      have moved := lt_of_le_of_ne committed_le_majorityCommit different
      have found := quorumIndex?_eq_some_iff.mpr (greatest moved)
      have inTerm := (committable_majorityCommit moved).1
      have within := index_le_lastIndex matched (greatest moved).1
      exact notChosen _ found moved
        ((termSync_eq_term_iff consecutive (by omega) within).mpr inTerm)

end Raft

def leaderOver (matches_ : List Nat) : Raft where
  id := 1
  term := 1
  vote := 1
  raftLog :=
    { committed := 0, applied := 0, stabled := 0, entries := [Entry.newNormal 1 1 []],
      pendingSnapshot := none }
  prs := (matches_.zipIdx 2).foldl
    (fun prs peer => prs.insert peer.2 { matchIndex := peer.1, nextIndex := peer.1 + 1 }) .empty
  state := .leader
  votes := .empty
  msgs := []
  lead := 1
  heartbeatTimeout := 1
  electionTimeout := 2
  heartbeatElapsed := 0
  electionElapsed := 0
  randomElectionTimeout := 2

theorem maybeCommit_of_all :
    (leaderOver [1, 1]).maybeCommit.raftLog.committed = (leaderOver [1, 1]).majorityCommit := by
  have majority : (leaderOver [1, 1]).majorityCommit = 1 := by decide
  apply (Raft.maybeCommit_eq_majorityCommit_iff rfl (by decide : RaftLog.Consecutive 0 _)
    (by decide) (by decide)).mpr
  intro _
  rw [majority]
  exact Raft.quorumIndex?_eq_some_iff.mp (by decide)

def LeavesOut (peers : Nat) : Prop :=
  ∃ raft : Raft, raft.prs.size = peers ∧ raft.state = .leader ∧ raft.raftLog.Consecutive 0 ∧
    (∀ progress ∈ raft.prs.values, progress.matchIndex ≤ raft.raftLog.lastIndex) ∧
    raft.maybeCommit.raftLog.committed < raft.majorityCommit

/-- A leader of one or two nodes never commits, and one of three waits for both others. -/
theorem majority_left_out : LeavesOut 0 ∧ LeavesOut 1 ∧ LeavesOut 2 := by
  refine ⟨⟨leaderOver [], ?_⟩, ⟨leaderOver [1], ?_⟩, ⟨leaderOver [1, 0], ?_⟩⟩ <;> decide

end AegisDB.Consensus

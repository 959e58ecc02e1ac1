import AegisDB.Consensus.Raft
import Mathlib.Logic.Relation

/-! # What a node can do

Handling a message is a chain of moves, each of which changes one thing and records
why the node may do it. Everything that is proved about runs of a cluster is proved of
the single moves. Moves that change the log can be required to start from a log that
is `safe` for the message. -/

namespace AegisDB.Consensus

open Foundation Outcome

def Message.Inert (m : Message) : Prop :=
  match m.msgType with
  | .msgBeat | .msgPropose | .msgHeartbeatResponse => True
  | .msgAppendResponse | .msgRequestVoteResponse => m.reject = true
  | _ => False

inductive Move (m : Message) (safe : RaftLog → Prop) (raft : Raft) : Raft → Prop where
  | settle (lead electionElapsed heartbeatElapsed : Nat) :
      Move m safe raft { raft with lead, electionElapsed, heartbeatElapsed }
  | post (message : Message) (inert : message.Inert) : Move m safe raft (raft.push message)
  | adopt (draw lead : Nat) (newer : raft.term < m.term) :
      Move m safe raft (raft.becomeFollower draw m.term lead)
  | concede (draw lead : Nat) (candidate : raft.state = .candidate) :
      Move m safe raft (raft.becomeFollower draw raft.term lead)
  | stand (draw : Nat) (room : raft.term + 1 < wordSize) (notLeader : raft.state ≠ .leader) :
      Move m safe raft (raft.becomeCandidate draw)
  | request (peer lastTerm : Nat) (candidate : raft.state = .candidate) (other : peer ≠ raft.id)
      (last : raft.raftLog.termSync raft.raftLog.lastIndex = some lastTerm) :
      Move m safe raft (raft.push (raft.requestVoteMessage lastTerm peer))
  | grant (asked : m.msgType = .msgRequestVote) (current : m.term = raft.term)
      (free : raft.canVote m = true) (upToDate : raft.logOk m = true) :
      Move m safe raft ({ raft with vote := m.fromId, electionElapsed := 0 }.push
        (raft.voteResponse m.fromId false))
  | tally (answered : m.msgType = .msgRequestVoteResponse) (current : m.term = raft.term)
      (candidate : raft.state = .candidate) :
      Move m safe raft { raft with votes := raft.votes.insert m.fromId (!m.reject) }
  | win (raftLog : RaftLog) (safely : safe raft.raftLog) (candidate : raft.state = .candidate)
      (majority : raft.quorum ≤ raft.countVotes true)
      (appended : raft.raftLog.append [raft.noopEntry] = .ok raftLog) :
      Move m safe raft { raft.takeLead with raftLog }
  | stall (fault : Fault) (safely : safe raft.raftLog) (candidate : raft.state = .candidate)
      (majority : raft.quorum ≤ raft.countVotes true)
      (failed : raft.raftLog.append [raft.noopEntry] = .error fault) :
      Move m safe raft raft.takeLead
  | extend (raftLog : RaftLog) (safely : safe raft.raftLog) (leader : raft.state = .leader)
      (proposed : m.msgType = .msgPropose)
      (appended : raft.raftLog.append (raft.proposedEntries m.entries) = .ok raftLog) :
      Move m safe raft { raft with raftLog }
  | offer (peer : Nat) (progress : Progress) (entries : List Entry) (leader : raft.state = .leader)
      (near : progress.nextIndex ≤ wrap (raft.raftLog.lastIndex + 1))
      (sliced : raft.entriesFrom progress.nextIndex = .ok entries) :
      Move m safe raft (raft.push (raft.appendMessage peer progress.nextIndex entries))
  | beat (peer : Nat) (leader : raft.state = .leader) :
      Move m safe raft (raft.push (raft.heartbeatMessage peer))
  | accept (raftLog : RaftLog) (safely : safe raft.raftLog) (offered : m.msgType = .msgAppend)
      (current : m.term = raft.term) (follower : raft.state = .follower)
      (within : m.index ≤ raft.raftLog.lastIndex)
      (matched : 0 < m.index → raft.raftLog.termSync m.index = some m.logTerm)
      (appended : raft.raftLog.append m.entries = .ok raftLog) :
      Move m safe raft ((({ raft with raftLog }.followCommit m.commit)).push
        (raft.appendResponse m.fromId false raftLog.lastIndex))
  | learn (safely : safe raft.raftLog) (beaten : m.msgType = .msgHeartbeat)
      (current : m.term = raft.term) (follower : raft.state = .follower) :
      Move m safe raft (raft.followCommit m.commit)
  | note (answered : m.msgType = .msgAppendResponse) (current : m.term = raft.term)
      (leader : raft.state = .leader) :
      Move m safe raft (raft.noteResponse m)
  | choose (leader : raft.state = .leader) : Move m safe raft raft.maybeCommit

abbrev Moves (m : Message) (safe : RaftLog → Prop) : Raft → Raft → Prop :=
  Relation.ReflTransGen (Move m safe)

/-! ## Small facts about the handlers -/

namespace Raft

variable (raft : Raft)

@[simp] theorem lastIndex_followCommit (commit : Nat) :
    (raft.followCommit commit).raftLog.lastIndex = raft.raftLog.lastIndex := by
  rw [followCommit]
  split <;> rfl

@[simp] theorem entries_followCommit (commit : Nat) :
    (raft.followCommit commit).raftLog.entries = raft.raftLog.entries := by
  rw [followCommit]
  split <;> rfl

theorem followCommit_eq (commit : Nat) :
    raft.followCommit commit =
      { raft with raftLog := (raft.followCommit commit).raftLog } := by
  rw [followCommit]
  split <;> rfl

theorem noteResponse_eq (m : Message) :
    raft.noteResponse m = { raft with prs := (raft.noteResponse m).prs } := by
  rw [noteResponse]
  split <;> rfl

theorem proposedEntry_eq (lastIndex position : Nat) (entry : Entry) :
    raft.proposedEntry lastIndex position entry =
      { entry with term := raft.term, index := wrap (lastIndex + 1 + position) } := by
  rw [proposedEntry]
  cases kind : entry.entryType with
  | normal => rfl
  | confChange => rfl

def quorumIndex? (raft : Raft) : Option Nat :=
  ((raft.prs.values.map Progress.matchIndex).insertionSort (· ≤ ·)).reverse[raft.quorum - 1]?

theorem maybeCommit_eq :
    raft.maybeCommit = { raft with raftLog := raft.maybeCommit.raftLog } := by
  rw [maybeCommit]
  split
  · rfl
  · dsimp only
    split
    · rfl
    · split <;> rfl

end Raft

/-! ## Handlers are chains of moves -/

namespace Outcome

theorem moves_andThen {m : Message} {safe : RaftLog → Prop} {raft : Raft} {outcome : Outcome}
    {next : Raft → Outcome} (first : Moves m safe raft outcome.raft)
    (rest : outcome.result = .ok () → Moves m safe outcome.raft (next outcome.raft).raft) :
    Moves m safe raft (outcome.andThen next).raft := by
  rw [andThen]
  split
  · rename_i fine
    exact first.trans (rest fine)
  · exact first

end Outcome

namespace Raft

variable {m : Message} {safe : RaftLog → Prop}

variable {raft : Raft}

theorem forPeers_moves {handle : Raft → Nat → Outcome} (stable : Raft → Prop) {peers : List Nat}
    (each : ∀ peer ∈ peers, ∀ raft, stable raft →
      Moves m safe raft (handle raft peer).raft ∧ stable (handle raft peer).raft)
    (initially : stable raft) :
    Moves m safe raft (forPeers handle peers raft).raft := by
  induction peers generalizing raft with
  | nil => exact .refl
  | cons peer rest induction =>
    have first := each peer List.mem_cons_self raft initially
    apply moves_andThen first.1
    intro _
    exact induction (fun other member => each other (List.mem_cons_of_mem peer member)) first.2

theorem sendAppend_cases (raft : Raft) (peer : Nat) :
    (raft.sendAppend peer).raft = raft ∨
      ∃ (progress : Progress) (entries : List Entry),
        progress.nextIndex ≤ wrap (raft.raftLog.lastIndex + 1) ∧
        raft.entriesFrom progress.nextIndex = .ok entries ∧
        (raft.sendAppend peer).raft =
          raft.push (raft.appendMessage peer progress.nextIndex entries) := by
  rw [sendAppend]
  split
  · exact .inl rfl
  · rename_i progress _
    dsimp only
    split
    · exact .inl rfl
    · rename_i near
      split
      · exact .inl rfl
      · rename_i entries sliced
        exact .inr ⟨progress, entries, not_lt.mp near, sliced, rfl⟩

theorem sendAppend_moves (leader : raft.state = .leader) (peer : Nat) :
    Moves m safe raft (raft.sendAppend peer).raft ∧
      (raft.sendAppend peer).raft.state = .leader := by
  rcases raft.sendAppend_cases peer with same | ⟨progress, entries, near, sliced, pushed⟩
  · rw [same]
    exact ⟨.refl, leader⟩
  · rw [pushed]
    exact ⟨.single (.offer peer progress entries leader near sliced), leader⟩

theorem bcastAppend_moves (leader : raft.state = .leader) :
    Moves m safe raft raft.bcastAppend.raft :=
  forPeers_moves (fun raft => raft.state = .leader)
    (fun peer _ _ leading => sendAppend_moves leading peer) leader

theorem bcastHeartbeat_moves (leader : raft.state = .leader) :
    Moves m safe raft raft.bcastHeartbeat.raft :=
  forPeers_moves (fun raft => raft.state = .leader)
    (fun peer _ _ leading => ⟨.single (.beat peer leading), leading⟩) leader

theorem becomeLeader_moves (safely : safe raft.raftLog)
    (candidate : raft.state = .candidate) (majority : raft.quorum ≤ raft.countVotes true) :
    Moves m safe raft raft.becomeLeader.raft := by
  rw [becomeLeader, appendLocal]
  cases appended : raft.raftLog.append [raft.noopEntry] with
  | error fault =>
    have failed : raft.takeLead.raftLog.append [raft.noopEntry] = .error fault := appended
    rw [failed]
    exact .single (.stall fault safely candidate majority appended)
  | ok raftLog =>
    have done : raft.takeLead.raftLog.append [raft.noopEntry] = .ok raftLog := appended
    rw [done, ok_andThen, raft_ignoreError]
    exact .head (.win raftLog safely candidate majority appended) (bcastAppend_moves rfl)

variable (draw : Nat)

theorem campaign_moves (safely : safe raft.raftLog)
    (room : raft.term + 1 < wordSize) (notLeader : raft.state ≠ .leader) :
    Moves m safe raft (raft.campaign draw).raft := by
  apply Relation.ReflTransGen.head (.stand draw room notLeader)
  rw [campaign]
  dsimp only
  split_ifs with alone
  · refine becomeLeader_moves safely rfl ?_
    rw [alone]
    simp [countVotes, becomeCandidate, OrderedMap.values, OrderedMap.insert, OrderedMap.empty,
      insertEntry]
  · split
    · exact .refl
    · rename_i lastTerm last
      refine forPeers_moves
        (fun other => other.state = .candidate ∧ other.id = raft.id ∧
          other.raftLog = raft.raftLog) ?_ ⟨rfl, rfl, rfl⟩
      rintro peer member other ⟨candidate, sameId, sameLog⟩
      refine ⟨.single (.request peer lastTerm candidate ?_ ?_), candidate, sameId, sameLog⟩
      · rw [sameId]
        exact of_decide_eq_true (List.mem_filter.mp member).2
      · rw [sameLog]
        exact last

theorem acceptEntries_moves (safely : safe raft.raftLog)
    (offered : m.msgType = .msgAppend) (current : m.term = raft.term)
    (follower : raft.state = .follower) (within : m.index ≤ raft.raftLog.lastIndex)
    (matched : 0 < m.index → raft.raftLog.termSync m.index = some m.logTerm) :
    Moves m safe raft (raft.acceptEntries m).raft := by
  rw [acceptEntries, appendLocal]
  cases appended : raft.raftLog.append m.entries with
  | error fault => exact .refl
  | ok raftLog =>
    rw [ok_andThen, raft_ok, lastIndex_followCommit]
    have response : ({ raft with raftLog }.followCommit m.commit).appendResponse m.fromId false
        raftLog.lastIndex = raft.appendResponse m.fromId false raftLog.lastIndex := by
      rw [followCommit_eq]
      rfl
    rw [response]
    exact .single (.accept raftLog safely offered current follower within matched appended)

theorem handleAppendEntries_moves (safely : raft.term ≤ m.term → safe raft.raftLog)
    (offered : m.msgType = .msgAppend) (follower : raft.state = .follower)
    (notNewer : m.term ≤ raft.term) :
    Moves m safe raft (raft.handleAppendEntries m).raft := by
  rw [handleAppendEntries]
  split
  · exact .single (.post _ rfl)
  · rename_i notOlder
    have current : m.term = raft.term := by omega
    have settled : Move m safe raft { raft with term := m.term, lead := m.fromId } := by
      rw [current]
      exact .settle m.fromId raft.electionElapsed raft.heartbeatElapsed
    dsimp only
    split
    · exact .head settled (.single (.post _ rfl))
    · rename_i within
      split
      · split
        · exact .single settled
        · rename_i term found
          split
          · exact .head settled (.single (.post _ rfl))
          · rename_i same
            rw [not_not.mp same] at found
            exact .head settled (acceptEntries_moves (safely current.ge) offered rfl follower
              (not_lt.mp within) fun _ => found)
      · rename_i atStart
        exact .head settled (acceptEntries_moves (safely current.ge) offered rfl follower
          (not_lt.mp within) fun positive => absurd positive atStart)

theorem handleHeartbeat_moves (safely : raft.term ≤ m.term → safe raft.raftLog)
    (beaten : m.msgType = .msgHeartbeat) (follower : raft.state = .follower)
    (notNewer : m.term ≤ raft.term) :
    Moves m safe raft (raft.handleHeartbeat m).raft := by
  rw [handleHeartbeat]
  split
  · exact .refl
  · have current : m.term = raft.term := by omega
    have settled : Move m safe raft { raft with term := m.term, lead := m.fromId } := by
      rw [current]
      exact .settle m.fromId raft.electionElapsed raft.heartbeatElapsed
    exact .head settled (.head (.learn (safely current.ge) beaten rfl follower)
      (.single (.post _ trivial)))

theorem handleRequestVote_moves (asked : m.msgType = .msgRequestVote)
    (notNewer : m.term ≤ raft.term) : Moves m safe raft (raft.handleRequestVote draw m).raft := by
  rw [handleRequestVote]
  split
  · exact .single (.post _ rfl)
  · rw [if_neg (not_lt.mpr notNewer)]
    dsimp only
    split_ifs with granted
    · have parts := Bool.and_eq_true_iff.mp granted
      exact .single (.grant asked (by omega) parts.1 parts.2)
    · exact .single (.post _ rfl)

theorem handleRequestVoteResponse_moves (safely : safe raft.raftLog)
    (answered : m.msgType = .msgRequestVoteResponse) :
    Moves m safe raft (raft.handleRequestVoteResponse draw m).raft := by
  rw [handleRequestVoteResponse]
  split
  · exact .refl
  · rename_i considered
    have current : m.term = raft.term := by tauto
    have candidate : raft.state = .candidate := by tauto
    apply Relation.ReflTransGen.head (.tally answered current candidate)
    dsimp only
    split
    · rename_i majority
      exact becomeLeader_moves safely candidate majority
    · split
      · exact .single (.concede draw NONE candidate)
      · exact .refl

def counted (raft : Raft) (m : Message) : Raft :=
  if m.reject then raft.noteResponse m else (raft.noteResponse m).maybeCommit

theorem handleAppendResponse_cases (raft : Raft) (m : Message) :
    (m.term < raft.term ∧ raft.handleAppendResponse m = .ok raft) ∨
      raft.term ≤ m.term ∧ (raft.handleAppendResponse m = .ok (raft.counted m) ∨
        raft.handleAppendResponse m = (raft.counted m).sendAppend m.fromId) := by
  rw [handleAppendResponse, counted]
  split
  · rename_i older
    exact .inl ⟨older, rfl⟩
  · rename_i notOlder
    refine .inr ⟨not_lt.mp notOlder, ?_⟩
    dsimp only
    generalize (if m.reject then raft.noteResponse m
        else (raft.noteResponse m).maybeCommit) = after
    split
    · exact .inl rfl
    · split
      · exact .inr rfl
      · split
        · exact .inr rfl
        · exact .inl rfl

theorem handleHeartbeatResponse_cases (raft : Raft) (m : Message) :
    raft.handleHeartbeatResponse m = .ok raft ∨
      raft.handleHeartbeatResponse m = raft.sendAppend m.fromId := by
  rw [handleHeartbeatResponse]
  split
  · exact .inl rfl
  · split
    · exact .inl rfl
    · split
      · exact .inr rfl
      · exact .inl rfl

theorem counted_moves (answered : m.msgType = .msgAppendResponse)
    (leader : raft.state = .leader) (current : m.term = raft.term) :
    Moves m safe raft (raft.counted m) ∧ (raft.counted m).state = .leader := by
  have noted : Move m safe raft (raft.noteResponse m) := .note answered current leader
  have noteLeader : (raft.noteResponse m).state = .leader := by
    rw [noteResponse_eq]
    exact leader
  rw [counted]
  split
  · exact ⟨.single noted, noteLeader⟩
  · refine ⟨.head noted (.single (.choose noteLeader)), ?_⟩
    rw [maybeCommit_eq]
    exact noteLeader

theorem handleAppendResponse_moves (answered : m.msgType = .msgAppendResponse)
    (leader : raft.state = .leader) (notNewer : m.term ≤ raft.term) :
    Moves m safe raft (raft.handleAppendResponse m).raft := by
  rcases raft.handleAppendResponse_cases m with ⟨_, older⟩ | ⟨notOlder, ending⟩
  · rw [older]
    exact .refl
  · have first : Moves m safe raft (raft.counted m) ∧ (raft.counted m).state = .leader :=
      counted_moves answered leader (by omega)
    rcases ending with quiet | sends
    · rw [quiet]
      exact first.1
    · rw [sends]
      exact first.1.trans (sendAppend_moves first.2 m.fromId).1

theorem handleHeartbeatResponse_moves (leader : raft.state = .leader) :
    Moves m safe raft (raft.handleHeartbeatResponse m).raft := by
  rcases raft.handleHeartbeatResponse_cases m with quiet | sends
  · rw [quiet]
    exact .refl
  · rw [sends]
    exact (sendAppend_moves leader m.fromId).1

/-! ## Steps are chains of moves -/

def Timely (raft : Raft) (m : Message) : Prop :=
  (raft.state = .candidate → m.msgType = .msgAppend ∨ m.msgType = .msgHeartbeat →
    raft.term ≤ m.term) ∧
  (raft.state ≠ .leader → m.msgType = .msgHup → raft.term + 1 < wordSize)

instance (raft : Raft) (m : Message) : Decidable (raft.Timely m) :=
  inferInstanceAs (Decidable (_ ∧ _))

def Regards (raft : Raft) (m : Message) : Prop :=
  m.msgType = .msgAppend ∨ m.msgType = .msgHeartbeat → raft.term ≤ m.term

instance (raft : Raft) (m : Message) : Decidable (raft.Regards m) :=
  inferInstanceAs (Decidable (_ → _))

theorem regards_of_msgType (notAppend : m.msgType ≠ .msgAppend)
    (notHeartbeat : m.msgType ≠ .msgHeartbeat) : raft.Regards m :=
  fun either => absurd either (not_or.mpr ⟨notAppend, notHeartbeat⟩)

theorem adoptTerm_cases (raft : Raft) (draw : Nat) (m : Message) :
    (m.term ≤ raft.term ∧ raft.adoptTerm draw m = raft) ∨
      ∃ lead, raft.term < m.term ∧
        raft.adoptTerm draw m = raft.becomeFollower draw m.term lead := by
  rw [adoptTerm]
  split
  · rename_i newer
    split
    · exact .inr ⟨NONE, newer, rfl⟩
    · exact .inr ⟨m.fromId, newer, rfl⟩
  · rename_i notNewer
    exact .inl ⟨not_lt.mp notNewer, rfl⟩

theorem adoptTerm_of_le (notNewer : m.term ≤ raft.term) :
    raft.adoptTerm draw m = raft := by
  rw [adoptTerm, if_neg (not_lt.mpr notNewer)]

theorem step_of_leader (leads : raft.state = .leader)
    (notNewer : m.term ≤ raft.term) : raft.step draw m = raft.stepLeader draw m := by
  rw [step, adoptTerm_of_le draw notNewer, leads]

variable (safely : raft.Regards m → safe raft.raftLog)

include safely

theorem stepFollower_moves (follower : raft.state = .follower)
    (notNewer : m.term ≤ raft.term) (noSnapshot : m.msgType ≠ .msgSnapshot)
    (room : m.msgType = .msgHup → raft.term + 1 < wordSize) :
    Moves m safe raft (raft.stepFollower draw m).raft := by
  have awake : Move m safe raft { raft with electionElapsed := 0 } :=
    .settle raft.lead 0 raft.heartbeatElapsed
  rw [stepFollower]
  split
  · rename_i hup
    exact campaign_moves draw (safely (regards_of_msgType (by simp [hup]) (by simp [hup])))
      (room hup) (by simp [follower])
  · rename_i beat
    split
    · exact .single (.post _ (by simp [Message.Inert, beat]))
    · exact .refl
  · rename_i proposed
    split
    · exact .single (.post _ (by simp [Message.Inert, proposed]))
    · exact .refl
  · rename_i offered
    exact .head awake (handleAppendEntries_moves (fun notOlder => safely fun _ => notOlder)
      offered follower notNewer)
  · rename_i beaten
    exact .head awake (handleHeartbeat_moves (fun notOlder => safely fun _ => notOlder)
      beaten follower notNewer)
  · rename_i snapshot
    exact absurd snapshot noSnapshot
  · rename_i asked
    exact handleRequestVote_moves draw asked notNewer
  · exact .refl

theorem stepCandidate_moves (candidate : raft.state = .candidate)
    (notNewer : m.term ≤ raft.term) (noSnapshot : m.msgType ≠ .msgSnapshot)
    (timely : raft.Timely m) : Moves m safe raft (raft.stepCandidate draw m).raft := by
  have conceded : raft.term ≤ m.term →
      Move m safe raft (raft.becomeFollower draw m.term m.fromId) := by
    intro notOlder
    rw [le_antisymm notNewer notOlder]
    exact .concede draw m.fromId candidate
  rw [stepCandidate]
  split
  · rename_i hup
    exact campaign_moves draw (safely (regards_of_msgType (by simp [hup]) (by simp [hup])))
      (timely.2 (by simp [candidate]) hup) (by simp [candidate])
  · rename_i offered
    have notOlder := timely.1 candidate (.inl offered)
    exact .head (conceded notOlder)
      (handleAppendEntries_moves (fun _ => safely fun _ => notOlder) offered rfl le_rfl)
  · rename_i beaten
    have notOlder := timely.1 candidate (.inr beaten)
    exact .head (conceded notOlder)
      (handleHeartbeat_moves (fun _ => safely fun _ => notOlder) beaten rfl le_rfl)
  · rename_i snapshot
    exact absurd snapshot noSnapshot
  · rename_i asked
    exact handleRequestVote_moves draw asked notNewer
  · rename_i answered
    exact handleRequestVoteResponse_moves draw
      (safely (regards_of_msgType (by simp [answered]) (by simp [answered]))) answered
  · exact .refl

theorem stepLeader_moves (leader : raft.state = .leader)
    (notNewer : m.term ≤ raft.term) (noSnapshot : m.msgType ≠ .msgSnapshot) :
    Moves m safe raft (raft.stepLeader draw m).raft := by
  rw [stepLeader]
  split
  · exact bcastHeartbeat_moves leader
  · rename_i proposed
    rw [appendLocal]
    cases appended : raft.raftLog.append (raft.proposedEntries m.entries) with
    | error fault => exact .refl
    | ok raftLog =>
      rw [ok_andThen]
      have extended : Move m safe raft { raft with raftLog } :=
        .extend raftLog
          (safely (regards_of_msgType (by simp [proposed]) (by simp [proposed])))
          leader proposed appended
      have committed : Move m safe { raft with raftLog } { raft with raftLog }.maybeCommit :=
        .choose leader
      have stillLeader : { raft with raftLog }.maybeCommit.state = .leader := by
        rw [maybeCommit_eq]
        exact leader
      exact .head extended (.head committed (bcastAppend_moves stillLeader))
  · rename_i answered
    exact handleAppendResponse_moves answered leader notNewer
  · exact handleHeartbeatResponse_moves leader
  · rename_i asked
    exact handleRequestVote_moves draw asked notNewer
  · rename_i snapshot
    exact absurd snapshot noSnapshot
  · exact .refl

theorem step_moves (timely : raft.Timely m)
    (noSnapshot : m.msgType ≠ .msgSnapshot) (adopted : m.msgType = .msgHup → m.term = 0) :
    Moves m safe raft (raft.step draw m).raft := by
  rw [step]
  rcases raft.adoptTerm_cases draw m with ⟨notNewer, same⟩ | ⟨lead, newer, follower⟩
  · rw [same]
    split
    · rename_i follower
      exact stepFollower_moves draw safely follower notNewer noSnapshot
        (timely.2 (by simp [follower]))
    · rename_i candidate
      exact stepCandidate_moves draw safely candidate notNewer noSnapshot timely
    · rename_i leader
      exact stepLeader_moves draw safely leader notNewer noSnapshot
  · rw [follower]
    apply Relation.ReflTransGen.head (.adopt draw lead newer)
    refine stepFollower_moves draw (fun _ => safely fun _ => newer.le) rfl le_rfl noSnapshot ?_
    intro hup
    have := adopted hup
    omega

end Raft

end AegisDB.Consensus

import AegisDB.Consensus.AsyncAgreement

/-! # When the two kinds of step agree

The synchronous and the asynchronous step agree on a message just when the lookups that they
make for it have the same effect. Index 0 and indexes before the first entry are where they do
not: a node with an empty log can campaign and vote in one path only. -/

namespace AegisDB.Consensus

open Foundation

namespace Raft

variable {storage : TermStorage} {raft : Raft} {draw : Nat} {m : Message}

/-! ## Sending -/

/-- The appends that go to the peers, as peer, next index and entries. A peer whose entries
cannot be cut out ends the round. -/
def receivers (prs : OrderedMap Nat Progress) (limit : Nat)
    (cut : Nat → Fallible (List Entry)) :
    List Nat → List (Nat × Nat × List Entry) × Fallible Unit
  | [] => ([], .ok ())
  | peer :: rest =>
    match prs.get? peer with
    | none => receivers prs limit cut rest
    | some progress =>
      if progress.nextIndex > limit then
        receivers prs limit cut rest
      else
        match cut progress.nextIndex with
        | .error fault => ([], .error fault)
        | .ok entries =>
          let others := receivers prs limit cut rest
          ((peer, progress.nextIndex, entries) :: others.1, others.2)

def appends (raft : Raft) : List Nat → List (Nat × Nat × List Entry) × Fallible Unit :=
  receivers raft.prs (wrap (raft.raftLog.lastIndex + 1)) raft.entriesFrom

/-- The term before the entries of each append is looked up alike: that index lies before the
log, its entry is in memory, or the storage has no term for it but 0. -/
def SendAlike (storage : TermStorage) (raft : Raft) (peers : List Nat) : Prop :=
  ∀ append ∈ (raft.appends peers).1, append.2.1 = 0 ∨
    let previous := wrappingSub append.2.1 1
    previous < raft.raftLog.firstIndex ∨ (raft.raftLog.inMemory previous).isSome ∨
      ∀ term, storage.term previous = .ok term → term = 0

theorem forPeers_send {send : Raft → Nat → Outcome}
    (message : Raft → Nat → Nat → List Entry → Message)
    (sends : ∀ raft peer, send raft peer =
      match raft.prs.get? peer with
      | none => .ok raft
      | some progress =>
        if progress.nextIndex > wrap (raft.raftLog.lastIndex + 1) then
          .ok raft
        else
          match raft.entriesFrom progress.nextIndex with
          | .error fault => { raft, result := .error fault }
          | .ok entries => .ok (raft.push (message raft peer progress.nextIndex entries)))
    (blind : ∀ raft m, message (raft.push m) = message raft) (peers : List Nat) (raft : Raft) :
    forPeers send peers raft =
      { raft := { raft with msgs := raft.msgs ++
          (raft.appends peers).1.map fun append => message raft append.1 append.2.1 append.2.2 }
        result := (raft.appends peers).2 } := by
  induction peers generalizing raft with
  | nil => simp [forPeers, appends, receivers, Outcome.ok]
  | cons peer rest induction =>
    rw [forPeers, sends, appends, receivers]
    cases raft.prs.get? peer with
    | none => exact induction raft
    | some progress =>
      dsimp only
      split
      · exact induction raft
      · cases raft.entriesFrom progress.nextIndex with
        | error fault => simp [Outcome.andThen]
        | ok entries =>
          rw [Outcome.ok_andThen, induction, blind]
          dsimp only [push]
          rw [List.append_assoc]
          rfl

theorem forPeers_sendAppend (peers : List Nat) (raft : Raft) :
    forPeers sendAppend peers raft =
      { raft := { raft with msgs := raft.msgs ++ (raft.appends peers).1.map fun append =>
          raft.appendMessage append.1 append.2.1 append.2.2 }
        result := (raft.appends peers).2 } :=
  forPeers_send appendMessage (fun _ _ => rfl) (fun _ _ => rfl) peers raft

theorem forPeers_sendAppendAsync (storage : TermStorage) (peers : List Nat) (raft : Raft) :
    forPeers (sendAppendAsync storage) peers raft =
      { raft := { raft with msgs := raft.msgs ++ (raft.appends peers).1.map fun append =>
          raft.appendMessageAsync storage append.1 append.2.1 append.2.2 }
        result := (raft.appends peers).2 } :=
  forPeers_send (appendMessageAsync storage) (fun _ _ => rfl) (fun _ _ => rfl) peers raft

theorem forPeers_singleton {handle : Raft → Nat → Outcome} {peer : Nat} :
    forPeers handle [peer] raft = handle raft peer := by
  rw [forPeers, Outcome.andThen]
  split
  · rename_i ended
    exact congrArg (Outcome.mk _) ended.symm
  · rename_i failed
    exact congrArg (Outcome.mk _) failed.symm

variable (positive : 0 < raft.raftLog.firstIndex)

include positive

theorem previous_alike_iff {index : Nat} :
    (raft.raftLog.termSync index).getD 0 = (raft.raftLog.term storage index).toOption.getD 0 ↔
      index < raft.raftLog.firstIndex ∨ (raft.raftLog.inMemory index).isSome ∨
        ∀ term, storage.term index = .ok term → term = 0 := by
  have found := RaftLog.lookups positive storage index
  generalize raft.raftLog.termSync index = sync at found ⊢
  generalize raft.raftLog.term storage index = async at found ⊢
  cases found with
  | zero isZero => exact iff_of_true rfl (.inl (by omega))
  | compacted notZero early => exact iff_of_true rfl (.inl early)
  | held within isHeld => exact iff_of_true rfl (.inr (.inl (by simp [isHeld])))
  | stored within gone =>
    rw [gone, or_iff_right (not_lt.mpr within), or_iff_right (by simp)]
    cases storage.term index with
    | error message => exact iff_of_true rfl nofun
    | ok term => simpa [Except.toOption] using eq_comm

theorem send_agree_iff {peers : List Nat} :
    (forPeers sendAppend peers raft).Agree (forPeers (sendAppendAsync storage) peers raft) ↔
      SendAlike storage raft peers := by
  have message {append : Nat × Nat × List Entry} :
      raft.appendMessage append.1 append.2.1 append.2.2 =
        raft.appendMessageAsync storage append.1 append.2.1 append.2.2 ↔
      (append.2.1 = 0 ∨ (raft.raftLog.termSync (wrappingSub append.2.1 1)).getD 0 =
        (raft.raftLog.term storage (wrappingSub append.2.1 1)).toOption.getD 0) := by
    rw [appendMessageAsync, appendMessage, Message.mk.injEq]
    by_cases first : append.2.1 = 0
    · simp [first]
    · simp [first, Nat.pos_of_ne_zero first]
  rw [forPeers_sendAppend, forPeers_sendAppendAsync, Outcome.Agree, and_iff_left rfl, SendAlike]
  simp only [← previous_alike_iff positive, ← message, ← List.map_inj_left]
  constructor
  · intro same
    exact List.append_cancel_left (congrArg Raft.msgs same)
  · intro same
    rw [same]

omit positive in
theorem noError_sendAppend (raft : Raft) (peer : Nat) : (raft.sendAppend peer).NoError := by
  rw [sendAppend]
  split
  · exact .ok _
  · dsimp only
    split
    · exact .ok _
    · split
      · rename_i fault failed
        intro message same
        rw [entriesFrom] at failed
        split at failed
        · rcases slice_eq_error failed with ⟨text, isPanic⟩
          rw [isPanic] at same
          cases same
        · cases failed
      · exact .ok _

/-! ## Responses -/

/-- The peer, if it lacks entries that the log has. -/
def behind (raft : Raft) (peer : Nat) : List Nat :=
  if ∃ progress ∈ raft.prs.get? peer, progress.nextIndex ≤ raft.raftLog.lastIndex then [peer]
  else []

def sendIfBehind (send : Raft → Nat → Outcome) (peer : Nat) (raft : Raft) : Outcome :=
  match raft.prs.get? peer with
  | none => .ok raft
  | some progress =>
    if progress.nextIndex ≤ raft.raftLog.lastIndex then send raft peer else .ok raft

omit positive in
theorem sendIfBehind_eq (send : Raft → Nat → Outcome) (peer : Nat) (raft : Raft) :
    sendIfBehind send peer raft = forPeers send (raft.behind peer) raft := by
  rw [sendIfBehind, behind]
  cases raft.prs.get? peer with
  | none => rfl
  | some progress =>
    by_cases lacks : progress.nextIndex ≤ raft.raftLog.lastIndex
    · simp [lacks, forPeers_singleton]
    · simp [lacks, forPeers]

theorem handleHeartbeatResponse_agree_iff :
    (raft.handleHeartbeatResponse m).Agree (raft.handleHeartbeatResponseAsync storage m) ↔
      m.term < raft.term ∨ SendAlike storage raft (raft.behind m.fromId) := by
  rw [handleHeartbeatResponse, handleHeartbeatResponseAsync]
  by_cases old : m.term < raft.term
  · simp [old, Outcome.Agree]
  · rw [if_neg old, if_neg old, or_iff_right old, ← send_agree_iff positive, ← sendIfBehind_eq,
      ← sendIfBehind_eq]
    rfl

omit positive in
theorem exists_maybeCommit_eq (raft : Raft) : ∃ committed,
    raft.maybeCommit = { raft with raftLog := { raft.raftLog with committed } } := by
  rw [maybeCommit]
  split
  · exact ⟨_, rfl⟩
  · dsimp only
    split
    · exact ⟨_, rfl⟩
    · split <;> exact ⟨_, rfl⟩

theorem commit_send_agree_iff (peers : Raft → List Nat)
    (blind : ∀ raftLog, raftLog.lastIndex = raft.raftLog.lastIndex →
      peers { raft with raftLog } = peers raft) :
    (forPeers sendAppend (peers raft.maybeCommit) raft.maybeCommit).Agree
      ((raft.maybeCommitAsync storage).andThen fun raft =>
        forPeers (sendAppendAsync storage) (peers raft) raft) ↔
      CommitAlike storage raft ∧ SendAlike storage raft (peers raft) := by
  have alike : SendAlike storage raft.maybeCommit (peers raft.maybeCommit) ↔
      SendAlike storage raft (peers raft) := by
    rcases raft.exists_maybeCommit_eq with ⟨committed, same⟩
    rw [same, blind { raft.raftLog with committed } rfl]
    rfl
  have logs : 0 < raft.maybeCommit.raftLog.firstIndex := by
    rcases raft.exists_maybeCommit_eq with ⟨committed, same⟩
    rw [same]
    exact positive
  rw [← alike, ← send_agree_iff logs]
  refine commit_andThen_agree_iff positive (fun raft => .forPeers noError_sendAppend _ raft) ?_ ?_
  · intro other
    rw [forPeers_sendAppend]
  · intro other
    rw [forPeers_sendAppendAsync]

/-- The response is old; or it is a refusal, and the entries are sent again alike; or what it
commits and what is sent to a peer that lacks entries is alike. -/
def ResponseAlike (storage : TermStorage) (raft : Raft) (m : Message) : Prop :=
  m.term < raft.term ∨
    let raft := raft.noteResponse m
    if m.reject then
      SendAlike storage raft [m.fromId]
    else
      CommitAlike storage raft ∧ SendAlike storage raft (raft.behind m.fromId)

theorem handleAppendResponse_agree_iff :
    (raft.handleAppendResponse m).Agree (raft.handleAppendResponseAsync storage m) ↔
      ResponseAlike storage raft m := by
  rw [handleAppendResponse, handleAppendResponseAsync, ResponseAlike]
  by_cases old : m.term < raft.term
  · simp [old, Outcome.Agree]
  · rw [if_neg old, if_neg old, or_iff_right old]
    dsimp only
    have logs : 0 < (raft.noteResponse m).raftLog.firstIndex := by
      rw [noteResponse]
      split <;> exact positive
    generalize raft.noteResponse m = raft at logs
    cases m.reject with
    | true =>
      simp only [if_true, Outcome.ok_andThen]
      rw [← send_agree_iff logs, forPeers_singleton, forPeers_singleton, sendAppend,
        sendAppendAsync]
      cases raft.prs.get? m.fromId <;> rfl
    | false =>
      have blind (raftLog : RaftLog) (same : raftLog.lastIndex = raft.raftLog.lastIndex) :
          { raft with raftLog }.behind m.fromId = raft.behind m.fromId := by
        rw [behind, same, behind]
      have sent := @commit_send_agree_iff storage raft logs (behind · m.fromId) blind
      simp only [← sendIfBehind_eq] at sent
      exact sent

/-! ## Proposals -/

/-- In the log with the proposed entries, what is committed and what is sent is alike. -/
def ProposeAlike (storage : TermStorage) (raft : Raft) (m : Message) : Prop :=
  ∀ raftLog, raft.raftLog.append (raft.proposedEntries m.entries) = .ok raftLog →
    let raft := { raft with raftLog }
    CommitAlike storage raft ∧ SendAlike storage raft raft.peerIds

theorem propose_agree_iff :
    ((raft.appendLocal (raft.proposedEntries m.entries)).andThen fun raft =>
        raft.maybeCommit.bcastAppend).Agree
      ((raft.appendLocal (raft.proposedEntries m.entries)).andThen fun raft =>
        (raft.maybeCommitAsync storage).andThen fun raft => raft.bcastAppendAsync storage) ↔
      ProposeAlike storage raft m := by
  rw [appendLocal, ProposeAlike]
  cases appended : raft.raftLog.append (raft.proposedEntries m.entries) with
  | error fault => exact iff_of_true ⟨rfl, rfl⟩ (by simp)
  | ok raftLog =>
    simp only [Outcome.ok_andThen, Except.ok.injEq, forall_eq']
    exact commit_send_agree_iff (RaftLog.positive_of_append positive appended) peerIds
      fun _ _ => rfl

omit positive

/-! ## Steps -/

/-- The lookups that a node makes for the message have the same effect. -/
def StepAlike (storage : TermStorage) (raft : Raft) (draw : Nat) (m : Message) : Prop :=
  let raft := raft.adoptTerm draw m
  match raft.state, m.msgType with
  | .follower, .msgHup => CampaignAlike storage (raft.becomeCandidate draw)
  | .follower, .msgAppend => AppendAlike storage raft m
  | .candidate, .msgHup => CampaignAlike storage (raft.becomeCandidate draw)
  | .candidate, .msgAppend => AppendAlike storage (raft.becomeFollower draw m.term m.fromId) m
  | .leader, .msgPropose => ProposeAlike storage raft m
  | .leader, .msgAppendResponse => ResponseAlike storage raft m
  | .leader, .msgHeartbeatResponse =>
    m.term < raft.term ∨ SendAlike storage raft (raft.behind m.fromId)
  | _, .msgRequestVote => VoteAlike storage raft m
  | _, _ => True

/-- Both kinds of step agree exactly if the lookups they make have the same effect. -/
theorem step_agree_iff (storage : TermStorage) (raft : Raft) (draw : Nat) (m : Message)
    (positive : 0 < raft.raftLog.firstIndex) :
    (raft.step draw m).Agree (raft.stepAsync storage draw m) ↔ StepAlike storage raft draw m := by
  have adopted : 0 < (raft.adoptTerm draw m).raftLog.firstIndex ∧
      m.term ≤ (raft.adoptTerm draw m).term := by
    rcases raft.adoptTerm_cases draw m with ⟨notNewer, same⟩ | ⟨lead, _, adopted⟩
    · rw [same]
      exact ⟨positive, notNewer⟩
    · rw [adopted]
      exact ⟨positive, le_rfl⟩
  rw [step, stepAsync, StepAlike]
  generalize raft.adoptTerm draw m = raft at adopted
  rcases adopted with ⟨positive, notNewer⟩
  cases state : raft.state with
  | follower =>
    dsimp only
    rw [stepFollower, stepFollowerAsync]
    cases m.msgType with
    | msgHup => exact campaign_agree_iff positive
    | msgAppend => exact handleAppendEntries_agree_iff (by exact positive)
    | msgRequestVote => exact handleRequestVote_agree_iff positive notNewer
    | _ => exact iff_of_true ⟨rfl, rfl⟩ trivial
  | candidate =>
    dsimp only
    rw [stepCandidate, stepCandidateAsync]
    cases m.msgType with
    | msgHup => exact campaign_agree_iff positive
    | msgAppend => exact handleAppendEntries_agree_iff (by exact positive)
    | msgRequestVote => exact handleRequestVote_agree_iff positive notNewer
    | _ => exact iff_of_true ⟨rfl, rfl⟩ trivial
  | leader =>
    dsimp only
    rw [stepLeader, stepLeaderAsync]
    cases m.msgType with
    | msgPropose => exact propose_agree_iff positive
    | msgAppendResponse => exact handleAppendResponse_agree_iff positive
    | msgHeartbeatResponse => exact handleHeartbeatResponse_agree_iff positive
    | msgRequestVote => exact handleRequestVote_agree_iff positive notNewer
    | _ => exact iff_of_true ⟨rfl, rfl⟩ trivial

def hup : Message := { msgType := .msgHup, fromId := 1 }

def oneOfThree : RaftConfig :=
  { id := 1, peers := [1, 2, 3], electionTick := 10, heartbeatTick := 1, applied := 0 }

theorem step_agree_with_entry :
    ∃ node, Raft.new oneOfThree (TermStorage.fresh [1, 2, 3]).toStorage 0 = .ok node ∧
      let raft := { node with raftLog := { node.raftLog with entries := [.newNormal 1 1 []] } }
      (raft.step 0 hup).Agree (raft.stepAsync (.fresh [1, 2, 3]) 0 hup) := by
  refine ⟨_, rfl, (step_agree_iff _ _ 0 hup (by decide)).mpr ?_⟩
  exact Or.inr ⟨by decide, .inr (.inl rfl)⟩

/-- A new node of three can campaign on the synchronous path only, though its storage has a
term for index 0 and for every entry it holds. -/
theorem fresh_node_campaigns_sync :
    (TermStorage.fresh [1, 2, 3]).term 0 = .ok 0 ∧
    (∀ low high found, (TermStorage.fresh [1, 2, 3]).entries low high = .ok found →
      ∀ entry ∈ found, (TermStorage.fresh [1, 2, 3]).term entry.index = .ok entry.term) ∧
    ∃ node, Raft.new oneOfThree (TermStorage.fresh [1, 2, 3]).toStorage 0 = .ok node ∧
      (node.step 0 hup).result = .ok () ∧
      (node.step 0 hup).raft.msgs.map Message.toId = [2, 3] ∧
      (node.stepAsync (.fresh [1, 2, 3]) 0 hup).result = .error (.error "index 0 < first 1") ∧
      ¬ (node.step 0 hup).Agree (node.stepAsync (.fresh [1, 2, 3]) 0 hup) := by
  refine ⟨rfl, ?_, _, rfl, rfl, rfl, rfl, fun agree => nomatch agree.2⟩
  intro low high found answer entry member
  cases answer
  cases member

end Raft

end AegisDB.Consensus

import AegisDB.Consensus.Appends
import AegisDB.Consensus.StepEffects
import AegisDB.Foundation.Transition

/-! # The log of a leader

While a node leads in one term, its log only grows at its end, by what is proposed to it.
The entries are numbered on from the last one, as long as the numbers last. -/

namespace AegisDB.Consensus

open Foundation List

namespace RaftLog

structure Settled (before : Nat) (log : RaftLog) : Prop where
  sequential : log.Sequential before
  noSnapshot : log.snapshotToApply = none
  committed : log.committed ≤ log.lastIndex

namespace Settled

variable {before : Nat} {log : RaftLog}

variable (settled : log.Settled before)

include settled

theorem lastIndex_lt : log.lastIndex < wordSize := by
  rw [settled.sequential.lastIndex settled.noSnapshot]
  exact settled.sequential.small

theorem of_committed {committed : Nat}
    (within : committed ≤ log.lastIndex) : { log with committed }.Settled before where
  sequential := ⟨settled.sequential.numbered, settled.sequential.restored,
    settled.sequential.atStart, settled.sequential.small⟩
  noSnapshot := settled.noSnapshot
  committed := within

variable {entries : List Entry}

theorem append (numbered : Numbered log.lastIndex entries) :
    log.append entries = .ok { log with entries := log.entries ++ entries } := by
  have last := settled.sequential.lastIndex settled.noSnapshot
  cases entries with
  | nil => rw [append_nil, RaftLog.append]
  | cons entry rest =>
    rw [last] at numbered
    apply (settled.sequential.append_iff (cons_ne_nil entry rest) numbered).mpr
    refine ⟨last ▸ settled.committed, ?_⟩
    rw [take_length, ite_self]

theorem extend (numbered : Numbered log.lastIndex entries)
    (room : log.lastIndex + entries.length < wordSize) :
    { log with entries := log.entries ++ entries }.Settled before := by
  have sequential := settled.sequential
  have last := sequential.lastIndex settled.noSnapshot
  have extended : { log with entries := log.entries ++ entries }.Sequential before := by
    refine ⟨sequential.numbered.append (last ▸ numbered), sequential.restored, ?_, ?_⟩
    · intro noSnapshot isEmpty
      exact sequential.atStart noSnapshot (append_eq_nil_iff.mp isEmpty).1
    · rw [length_append]
      omega
  refine ⟨extended, settled.noSnapshot, ?_⟩
  have committed := settled.committed
  rw [extended.lastIndex settled.noSnapshot, length_append]
  change log.committed ≤ _
  omega

end Settled

theorem le_lastIndex_of_termSync {log : RaftLog} (noSnapshot : log.snapshotToApply = none)
    {index : Nat} (positive : 0 < (log.termSync index).getD 0) : index ≤ log.lastIndex := by
  by_contra beyond
  have nothing : (log.termSync index).getD 0 = 0 := by
    rw [termSync, noSnapshot, if_neg beyond]
    split
    · rfl
    · split
      · rfl
      · split <;> rfl
  omega

end RaftLog

inductive LeaderInput where
  | step (draw : Nat) (m : Message)
  | tick (draw : Nat)

namespace Raft

theorem settled_maybeCommit {raft : Raft} {before : Nat} (settled : raft.raftLog.Settled before)
    (positive : 0 < raft.term) : raft.maybeCommit.raftLog.Settled before := by
  rw [maybeCommit]
  split
  · exact settled
  · dsimp only
    split
    · exact settled
    · split_ifs with chosen
      · apply settled.of_committed
        apply RaftLog.le_lastIndex_of_termSync settled.noSnapshot
        rw [chosen.2]
        exact positive
      · exact settled

/-! ## Panics of `append` -/

def PanicsInAppend (result : Fallible Unit) : Prop :=
  ∃ (log : RaftLog) (entries : List Entry) (fault : Fault),
    log.append entries = .error fault ∧ result = .error fault

theorem not_panicsInAppend_ok : ¬ PanicsInAppend (.ok ()) := by
  intro ⟨_, _, _, _, impossible⟩
  cases impossible

theorem not_panicsInAppend_slice :
    ¬ PanicsInAppend (.error (.panic "slice index out of range")) := by
  intro ⟨log, entries, fault, failed, same⟩
  rcases RaftLog.fault_of_append failed with ⟨indexes, isPanic⟩
  rw [isPanic, Except.error.injEq, Fault.panic.injEq] at same
  have firstCharacter := congrArg (fun message => message.toList.head?) same
  simp at firstCharacter

variable (raft : Raft)

theorem not_panicsInAppend_sendAppend (peer : Nat) :
    ¬ PanicsInAppend (raft.sendAppend peer).result := by
  rw [sendAppend]
  split
  · exact not_panicsInAppend_ok
  · dsimp only
    split
    · exact not_panicsInAppend_ok
    · split
      · rename_i fault failed
        rw [entriesFrom] at failed
        split at failed
        · rw [fault_of_slice failed]
          exact not_panicsInAppend_slice
        · cases failed
      · exact not_panicsInAppend_ok

theorem forPeers_result {handle : Raft → Nat → Outcome} (allowed : Fallible Unit → Prop)
    (fine : allowed (.ok ())) (each : ∀ raft peer, allowed (handle raft peer).result)
    (peers : List Nat) (raft : Raft) : allowed (forPeers handle peers raft).result := by
  induction peers generalizing raft with
  | nil => exact fine
  | cons peer rest induction =>
    have first := each raft peer
    rw [forPeers, Outcome.andThen]
    split
    · exact induction _
    · rename_i fault failed
      rw [failed] at first
      exact first

theorem not_panicsInAppend_bcastAppend :
    ¬ PanicsInAppend raft.bcastAppend.result :=
  forPeers_result (fun result => ¬ PanicsInAppend result) not_panicsInAppend_ok
    not_panicsInAppend_sendAppend raft.peerIds raft

theorem result_bcastHeartbeat : raft.bcastHeartbeat.result = .ok () :=
  forPeers_result (fun result => result = .ok ()) rfl (fun _ _ => rfl) raft.peerIds raft

theorem result_handleRequestVote (draw : Nat) (m : Message) :
    (raft.handleRequestVote draw m).result = .ok () := by
  rw [handleRequestVote]
  split
  · rfl
  · split
    · dsimp only
      split <;> rfl
    · dsimp only
      split <;> rfl

theorem not_panicsInAppend_handleAppendResponse (m : Message) :
    ¬ PanicsInAppend (raft.handleAppendResponse m).result := by
  rcases raft.handleAppendResponse_cases m with ⟨_, older⟩ | ⟨_, quiet | sends⟩
  · rw [older]
    exact not_panicsInAppend_ok
  · rw [quiet]
    exact not_panicsInAppend_ok
  · rw [sends]
    exact not_panicsInAppend_sendAppend (raft.counted m) m.fromId

theorem not_panicsInAppend_handleHeartbeatResponse (m : Message) :
    ¬ PanicsInAppend (raft.handleHeartbeatResponse m).result := by
  rcases raft.handleHeartbeatResponse_cases m with quiet | sends
  · rw [quiet]
    exact not_panicsInAppend_ok
  · rw [sends]
    exact not_panicsInAppend_sendAppend raft m.fromId

/-! ## Steps that leave the entries alone -/

structure LeavesEntries (before : Nat) (raft : Raft) (outcome : Outcome) : Prop where
  settled : outcome.raft.raftLog.Settled before
  entries : outcome.raft.raftLog.entries = raft.raftLog.entries
  noPanic : ¬ PanicsInAppend outcome.result

section Leader

variable {before : Nat} {raft : Raft} {m : Message}

variable (settled : raft.raftLog.Settled before)

include settled

theorem leavesEntries_of_same {outcome : Outcome}
    (same : outcome.raft.raftLog = raft.raftLog) (noPanic : ¬ PanicsInAppend outcome.result) :
    LeavesEntries before raft outcome :=
  ⟨same ▸ settled, by rw [same], noPanic⟩

theorem settled_counted (positive : 0 < raft.term) :
    (raft.counted m).raftLog.Settled before := by
  have sameLog := raft.raftLog_noteResponse m
  have sameTerm : (raft.noteResponse m).term = raft.term := by rw [noteResponse_eq]
  have noted := sameLog ▸ settled
  rw [counted]
  split
  · exact noted
  · exact settled_maybeCommit noted (sameTerm ▸ positive)

theorem leavesEntries_handleAppendResponse
    (positive : 0 < raft.term) : LeavesEntries before raft (raft.handleAppendResponse m) := by
  refine ⟨?_, raft.handleAppendResponse_change.entries,
    raft.not_panicsInAppend_handleAppendResponse m⟩
  rw [handleAppendResponse_raftLog]
  split
  · exact settled
  · exact settled_counted settled positive

theorem leavesEntries_stepLeader (positive : 0 < raft.term) (draw : Nat)
    (notProposed : m.msgType ≠ .msgPropose) (notSnapshot : m.msgType ≠ .msgSnapshot) :
    LeavesEntries before raft (raft.stepLeader draw m) := by
  rw [stepLeader]
  split
  · apply leavesEntries_of_same settled (view_bcastHeartbeat blind_raftLog raft)
    rw [result_bcastHeartbeat]
    exact not_panicsInAppend_ok
  · rename_i proposed
    exact absurd proposed notProposed
  · exact leavesEntries_handleAppendResponse settled positive
  · exact leavesEntries_of_same settled raft.handleHeartbeatResponse_raftLog
      (raft.not_panicsInAppend_handleHeartbeatResponse m)
  · apply leavesEntries_of_same settled (raft.handleRequestVote_raftLog draw)
    rw [result_handleRequestVote]
    exact not_panicsInAppend_ok
  · rename_i sent
    exact absurd sent notSnapshot
  · exact leavesEntries_of_same settled rfl not_panicsInAppend_ok

/-! ## Proposals -/

omit settled

def recorded (raft : Raft) (entries : List Entry) : List Entry :=
  entries.mapIdx fun position entry =>
    { entry with term := raft.term, index := raft.raftLog.lastIndex + 1 + position }

theorem numbered_recorded (raft : Raft) (entries : List Entry) :
    Numbered raft.raftLog.lastIndex (raft.recorded entries) := by
  intro position entry found
  rw [recorded, getElem?_mapIdx] at found
  rcases Option.map_eq_some_iff.mp found with ⟨original, _, rfl⟩
  exact Nat.add_right_comm _ _ _

theorem length_recorded (raft : Raft) (entries : List Entry) :
    (raft.recorded entries).length = entries.length :=
  length_mapIdx

theorem proposedEntries_eq_iff (small : raft.raftLog.lastIndex < wordSize) (entries : List Entry) :
    raft.proposedEntries entries = raft.recorded entries ↔
      raft.raftLog.lastIndex + entries.length < wordSize := by
  constructor
  · intro same
    cases entries with
    | nil => exact small
    | cons entry rest =>
      have lastInside : rest.length < (entry :: rest).length := by simp
      have atEnd := congrArg (fun list => list[rest.length]?.map Entry.index) same
      simp only [proposedEntries, recorded, getElem?_mapIdx, proposedEntry_eq,
        List.getElem?_eq_getElem lastInside, Option.map_some, Option.some.injEq] at atEnd
      have wrapped : wrap (raft.raftLog.lastIndex + 1 + rest.length) < wordSize :=
        Nat.mod_lt _ (by decide)
      rw [length_cons]
      omega
  · intro room
    apply ext_getElem?
    intro position
    simp only [proposedEntries, recorded, getElem?_mapIdx, proposedEntry_eq]
    cases found : entries[position]? with
    | none => rfl
    | some entry =>
      have inside := (List.getElem?_eq_some_iff.mp found).1
      rw [Option.map_some, Option.map_some, wrap_of_lt (by omega)]

def handlePropose (raft : Raft) (entries : List Entry) : Outcome :=
  (raft.appendLocal (raft.proposedEntries entries)).andThen fun raft =>
    raft.maybeCommit.bcastAppend

variable {raftLog : RaftLog} {entries : List Entry}

theorem handlePropose_of_append
    (appended : raft.raftLog.append (raft.proposedEntries entries) = .ok raftLog) :
    raft.handlePropose entries = { raft with raftLog }.maybeCommit.bcastAppend := by
  rw [handlePropose, appendLocal, appended]
  rfl

theorem entries_handlePropose_of_append
    (appended : raft.raftLog.append (raft.proposedEntries entries) = .ok raftLog) :
    (raft.handlePropose entries).raft.raftLog.entries = raftLog.entries := by
  rw [handlePropose_of_append appended, view_bcastAppend blind_raftLog]
  exact (maybeCommit_change _).entries

include settled

theorem append_of_room (room : raft.raftLog.lastIndex + entries.length < wordSize) :
    raft.raftLog.append (raft.proposedEntries entries) =
      .ok { raft.raftLog with entries := raft.raftLog.entries ++ raft.recorded entries } := by
  rw [(proposedEntries_eq_iff settled.lastIndex_lt entries).mpr room]
  exact settled.append (raft.numbered_recorded entries)

theorem settled_handlePropose (positive : 0 < raft.term)
    (room : raft.raftLog.lastIndex + entries.length < wordSize) :
    (raft.handlePropose entries).raft.raftLog.Settled before := by
  rw [handlePropose_of_append (append_of_room settled room), view_bcastAppend blind_raftLog]
  apply settled_maybeCommit
  · apply settled.extend (raft.numbered_recorded entries)
    rw [length_recorded]
    exact room
  · exact positive

theorem handlePropose_records_iff (entries : List Entry) :
    (raft.handlePropose entries).raft.raftLog.entries =
        raft.raftLog.entries ++ raft.recorded entries ∧
      ¬ PanicsInAppend (raft.handlePropose entries).result ↔
    raft.raftLog.lastIndex + entries.length < wordSize := by
  constructor
  · intro ⟨recorded, noPanic⟩
    rw [← proposedEntries_eq_iff settled.lastIndex_lt]
    cases appended : raft.raftLog.append (raft.proposedEntries entries) with
    | error fault =>
      rw [handlePropose, appendLocal, appended] at noPanic
      exact absurd ⟨_, _, fault, appended, rfl⟩ noPanic
    | ok raftLog =>
      rw [entries_handlePropose_of_append appended] at recorded
      have sameLength : (raft.proposedEntries entries).length =
          (raft.recorded entries).length := by
        rw [proposedEntries, Raft.recorded, length_mapIdx, length_mapIdx]
      rcases RaftLog.append_eq_ok appended with same | ⟨entry, rest, kept, _, _, _, equal⟩
      · -- Nothing was proposed.
        rw [same] at recorded
        rw [self_eq_append_right.mp recorded] at sameLength ⊢
        exact length_eq_zero_iff.mp sameLength
      · rw [equal] at recorded
        exact (append_inj' recorded sameLength).2
  · intro room
    have appended := append_of_room settled room
    refine ⟨entries_handlePropose_of_append appended, ?_⟩
    rw [handlePropose_of_append appended]
    exact not_panicsInAppend_bcastAppend _

/-! ## Leaving the term or the role -/

omit settled

theorem term_handleRequestVote (raft : Raft) (draw : Nat) (m : Message) :
    (raft.handleRequestVote draw m).raft.term = max raft.term m.term := by
  rw [handleRequestVote]
  split
  · rename_i older
    exact (Nat.max_eq_left older.le).symm
  · rename_i notOlder
    split
    · dsimp only
      rw [Nat.max_eq_right (not_lt.mp notOlder)]
      split <;> rfl
    · rename_i notNewer
      dsimp only
      rw [Nat.max_eq_left (not_lt.mp notNewer)]
      split <;> rfl

theorem term_step_of_newer (draw : Nat) (newer : raft.term < m.term) :
    (raft.step draw m).raft.term = m.term ∨ (raft.step draw m).raft.term = wrap (m.term + 1) := by
  rcases raft.adoptTerm_cases draw m with ⟨notNewer, _⟩ | ⟨lead, _, adopted⟩
  · exact absurd newer (not_lt.mpr notNewer)
  · have handled := raft.ballot_becomeFollower_handle draw lead m
    have campaigned := (raft.becomeFollower draw m.term lead).ballot_campaign draw
    rw [step, adopted]
    change ((raft.becomeFollower draw m.term lead).stepFollower draw m).raft.term = _ ∨
      ((raft.becomeFollower draw m.term lead).stepFollower draw m).raft.term = _
    rw [stepFollower]
    split
    · exact .inr (congrArg Prod.fst campaigned)
    · split <;> exact .inl rfl
    · split <;> exact .inl rfl
    · exact .inl (congrArg Prod.fst handled.1)
    · exact .inl (congrArg Prod.fst handled.2.1)
    · exact .inl (congrArg Prod.fst handled.2.2)
    · rw [term_handleRequestVote]
      exact .inl (Nat.max_self m.term)
    · exact .inl rfl

theorem term_step_ne_of_newer (draw : Nat) (positive : 0 < raft.term) (newer : raft.term < m.term)
    (inRange : m.term < wordSize) : (raft.step draw m).raft.term ≠ raft.term := by
  rcases raft.term_step_of_newer draw newer with same | further
  · omega
  · rw [further]
    by_cases fits : m.term + 1 < wordSize
    · rw [wrap_of_lt fits]
      omega
    · have atEnd : m.term + 1 = wordSize := by omega
      rw [atEnd, wrap, Nat.mod_self]
      omega

theorem state_stepLeader_of_snapshot (draw : Nat) (sent : m.msgType = .msgSnapshot) :
    (raft.stepLeader draw m).raft.state = .follower := by
  have blind : Blind Raft.state := ⟨fun _ _ => rfl, fun _ _ => rfl⟩
  rw [stepLeader, sent]
  exact view_handleSnapshot blind (raft.becomeFollower draw m.term m.fromId) m

end Leader

/-! ## Runs of a leader -/

def act (raft : Raft) : LeaderInput → Outcome
  | .step draw m => raft.step draw m
  | .tick draw => raft.tick draw

def move (raft : Raft) (input : LeaderInput) : Raft := (raft.act input).raft

/-- The log grows at its end, by what is proposed, and nothing panics in `append`. -/
structure AppendsOnly (raft : Raft) (input : LeaderInput) : Prop where
  grows : raft.raftLog.entries <+: (raft.move input).raftLog.entries
  records : ∀ draw m, input = .step draw m → m.msgType = .msgPropose →
    (raft.move input).raftLog.entries = raft.raftLog.entries ++ raft.recorded m.entries
  noPanic : ¬ PanicsInAppend (raft.act input).result

def HasRoom (raft : Raft) : LeaderInput → Prop
  | .step _ m =>
    m.msgType = .msgPropose → raft.raftLog.lastIndex + m.entries.length < wordSize
  | .tick _ => True

instance decidableHasRoom (raft : Raft) (input : LeaderInput) : Decidable (raft.HasRoom input) := by
  cases input <;> unfold HasRoom <;> infer_instance

/-- The leader of a term, with a log in which it can go on. -/
structure Leading (before term : Nat) (raft : Raft) : Prop where
  leads : raft.state = .leader
  term : raft.term = term
  settled : raft.raftLog.Settled before

section Runs

variable {before term : Nat} {raft : Raft} {input : LeaderInput}

theorem LeavesEntries.appendsOnly (leaves : LeavesEntries before raft (raft.act input))
    (notProposed : ∀ draw m, input = .step draw m → m.msgType ≠ .msgPropose) :
    raft.AppendsOnly input where
  grows := by
    rw [move, leaves.entries]
  records := fun draw m isStep proposed => absurd proposed (notProposed draw m isStep)
  noPanic := leaves.noPanic

variable (leading : raft.Leading before term)

include leading

theorem Leading.leavesEntries_tick (draw : Nat) :
    LeavesEntries before raft (raft.act (.tick draw)) := by
  rw [act, tick]
  split
  · split
    · have handled : { raft with heartbeatElapsed := 0 }.step draw
          { msgType := .msgBeat, fromId := raft.id } =
            { raft with heartbeatElapsed := 0 }.bcastHeartbeat :=
        step_of_leader draw leading.leads (Nat.zero_le _)
      rw [handled]
      apply leavesEntries_of_same leading.settled
      · rw [Outcome.raft_ignoreError]
        exact view_bcastHeartbeat blind_raftLog { raft with heartbeatElapsed := 0 }
      · rw [Outcome.ignoreError, result_bcastHeartbeat]
        exact not_panicsInAppend_ok
    · exact leavesEntries_of_same leading.settled rfl not_panicsInAppend_ok
  · rename_i notLeader
    exact absurd leading.leads notLeader

theorem Leading.step_eq (positive : 0 < term) {draw : Nat}
    {m : Message} (inRange : m.term < wordSize)
    (stays : (raft.step draw m).raft.state = .leader ∧ (raft.step draw m).raft.term = term) :
    raft.step draw m = raft.stepLeader draw m ∧ m.msgType ≠ .msgSnapshot := by
  have isTerm := leading.term
  have notNewer : m.term ≤ raft.term := by
    by_contra newer
    exact term_step_ne_of_newer draw (by omega) (not_le.mp newer) inRange
      (stays.2.trans isTerm.symm)
  have handled := step_of_leader draw leading.leads notNewer
  refine ⟨handled, fun sent => ?_⟩
  have leads := stays.1
  rw [handled, state_stepLeader_of_snapshot draw sent] at leads
  cases leads

theorem Leading.act_cases (positive : 0 < term)
    (inRange : ∀ draw m, input = .step draw m → m.term < wordSize)
    (stays : (raft.move input).state = .leader ∧ (raft.move input).term = term) :
    (LeavesEntries before raft (raft.act input) ∧
        ∀ draw m, input = .step draw m → m.msgType ≠ .msgPropose) ∨
      ∃ draw m, input = .step draw m ∧ m.msgType = .msgPropose ∧
        raft.act input = raft.handlePropose m.entries := by
  have raftPositive : 0 < raft.term := leading.term ▸ positive
  cases input with
  | tick draw =>
    exact .inl ⟨leading.leavesEntries_tick draw, fun _ _ impossible => by cases impossible⟩
  | step draw m =>
    rcases leading.step_eq positive (inRange draw m rfl) stays with ⟨handled, notSnapshot⟩
    by_cases proposed : m.msgType = .msgPropose
    · refine .inr ⟨draw, m, rfl, proposed, ?_⟩
      rw [act, handled, stepLeader, proposed]
      rfl
    · refine .inl ⟨?_, ?_⟩
      · rw [act, handled]
        exact leavesEntries_stepLeader leading.settled raftPositive draw proposed notSnapshot
      · intro _ _ isStep
        cases isStep
        exact proposed

theorem Leading.appendsOnly_iff (positive : 0 < term)
    (inRange : ∀ draw m, input = .step draw m → m.term < wordSize)
    (stays : (raft.move input).state = .leader ∧ (raft.move input).term = term) :
    raft.AppendsOnly input ↔ raft.HasRoom input := by
  rcases leading.act_cases positive inRange stays with
    ⟨leaves, notProposed⟩ | ⟨draw, m, rfl, proposed, handled⟩
  · refine iff_of_true (leaves.appendsOnly notProposed) ?_
    cases input with
    | tick => trivial
    | step draw m => exact fun proposed => absurd proposed (notProposed draw m rfl)
  · have exactly := handlePropose_records_iff leading.settled m.entries
    rw [← handled] at exactly
    rw [HasRoom, forall_prop_of_true proposed, ← exactly]
    constructor
    · intro appends
      exact ⟨appends.records draw m rfl proposed, appends.noPanic⟩
    · intro ⟨recorded, noPanic⟩
      refine ⟨?_, ?_, noPanic⟩
      · rw [move, recorded]
        exact prefix_append _ _
      · intro _ _ isStep _
        cases isStep
        exact recorded

theorem Leading.move (positive : 0 < term)
    (inRange : ∀ draw m, input = .step draw m → m.term < wordSize)
    (stays : (raft.move input).state = .leader ∧ (raft.move input).term = term)
    (room : raft.HasRoom input) : (raft.move input).Leading before term := by
  refine ⟨stays.1, stays.2, ?_⟩
  rcases leading.act_cases positive inRange stays with
    ⟨leaves, _⟩ | ⟨draw, m, rfl, proposed, handled⟩
  · exact leaves.settled
  · rw [Raft.move, handled]
    exact settled_handlePropose leading.settled (leading.term ▸ positive) (room proposed)

omit leading

theorem entries_isPrefix_of_appendsOnly {inputs : List LeaderInput}
    (always : ∀ past input, past ++ [input] <+: inputs →
      (past.foldl Raft.move raft).AppendsOnly input)
    {earlier later : List LeaderInput} (isEarlier : earlier <+: later)
    (isPrefix : later <+: inputs) :
    (earlier.foldl Raft.move raft).raftLog.entries <+:
      (later.foldl Raft.move raft).raftLog.entries := by
  rcases isEarlier with ⟨rest, rfl⟩
  induction rest using List.reverseRecOn with
  | nil => rw [append_nil]
  | append_singleton rest input induction =>
    rw [← append_assoc] at isPrefix ⊢
    have before := induction ((prefix_append _ [input]).trans isPrefix)
    have last : (earlier ++ rest ++ [input]).foldl Raft.move raft =
        ((earlier ++ rest).foldl Raft.move raft).move input := foldl_append
    rw [last]
    exact before.trans (always (earlier ++ rest) input isPrefix).grows

/-- While the node leads in one term, its log is append-only, exactly if there are numbers
left for all that is proposed. -/
theorem leader_appends_only_iff (leading : raft.Leading before term) (positive : 1 ≤ term)
    {inputs : List LeaderInput}
    (inRange : ∀ draw m, LeaderInput.step draw m ∈ inputs → m.term < wordSize)
    (stays : ∀ past, past <+: inputs → (past.foldl Raft.move raft).state = .leader ∧
      (past.foldl Raft.move raft).term = term) :
    ((∀ earlier later, earlier <+: later → later <+: inputs →
          (earlier.foldl Raft.move raft).raftLog.entries <+:
            (later.foldl Raft.move raft).raftLog.entries) ∧
        ∀ past input, past ++ [input] <+: inputs →
          (past.foldl Raft.move raft).AppendsOnly input) ↔
      Guarded Raft.move HasRoom raft inputs := by
  have inRangeAt : ∀ past input, past ++ [input] <+: inputs →
      ∀ draw m, input = .step draw m → m.term < wordSize := by
    intro past input isPrefix draw m isStep
    apply inRange draw m
    rw [← isStep]
    exact isPrefix.subset (mem_append_right past mem_cons_self)
  have staysAfter : ∀ past input, past ++ [input] <+: inputs →
      ((past.foldl Raft.move raft).move input).state = .leader ∧
        ((past.foldl Raft.move raft).move input).term = term := by
    intro past input isPrefix
    have after := stays (past ++ [input]) isPrefix
    rw [foldl_append] at after
    exact after
  have exactly : (∀ past input, past ++ [input] <+: inputs →
      (past.foldl Raft.move raft).AppendsOnly input) ↔
        Guarded Raft.move HasRoom raft inputs := by
    apply forall_steps_iff_guarded
      (motive := fun past => (past.foldl Raft.move raft).Leading before term) leading
    · intro past input isPrefix room leading
      rw [foldl_append]
      exact leading.move positive (inRangeAt past input isPrefix)
        (staysAfter past input isPrefix) room
    · intro past input isPrefix leading
      exact leading.appendsOnly_iff positive (inRangeAt past input isPrefix)
        (staysAfter past input isPrefix)
  rw [← exactly]
  constructor
  · exact fun both => both.2
  · intro always
    exact ⟨fun _ _ => entries_isPrefix_of_appendsOnly always, always⟩

end Runs

def twoProposed : List Entry :=
  [{ entryType := .normal, term := 0, index := 0, data := [1] },
    { entryType := .confChange, term := 0, index := 0, data := [2] }]

def proposalOfTwo : LeaderInput :=
  .step 0 { msgType := .msgPropose, fromId := 2, entries := twoProposed }

def shortTerm : List LeaderInput :=
  [proposalOfTwo,
    .step 0 { msgType := .msgAppendResponse, fromId := 1, toId := 2, term := 2, index := 2 },
    .tick 0]

theorem leader_appends_only_shortTerm :
    (∀ earlier later, earlier <+: later → later <+: shortTerm →
        (earlier.foldl Raft.move (leaderWith 1 0 [])).raftLog.entries <+:
          (later.foldl Raft.move (leaderWith 1 0 [])).raftLog.entries) ∧
      ∀ past input, past ++ [input] <+: shortTerm →
        (past.foldl Raft.move (leaderWith 1 0 [])).AppendsOnly input := by
  have isEmpty : (leaderWith 1 0 []).raftLog.entries = [] := rfl
  have leading : (leaderWith 1 0 []).Leading 0 2 :=
    ⟨rfl, rfl, RaftLog.sequential_of_nil isEmpty (by decide), rfl, Nat.le_refl 0⟩
  apply (leader_appends_only_iff leading (by decide) ?_ ?_).mpr (by decide +kernel)
  · intro draw m member
    simp only [shortTerm, proposalOfTwo, mem_cons, LeaderInput.step.injEq, not_mem_nil,
      reduceCtorEq, or_false] at member
    rcases member with ⟨rfl, rfl⟩ | ⟨rfl, rfl⟩
    · decide
    · decide
  · rw [shortTerm, forall_isPrefix_cons, forall_isPrefix_cons, forall_isPrefix_cons,
      forall_isPrefix_nil]
    decide +kernel

def leaderAtEnd : Raft := leaderWith (wordSize - 1) 0 [Entry.newNormal 2 (wordSize - 1) []]

theorem leading_leaderAtEnd : leaderAtEnd.Leading (wordSize - 2) 2 := by
  have numbered : Numbered (wordSize - 2) leaderAtEnd.raftLog.entries := by decide +kernel
  refine ⟨rfl, rfl, ⟨numbered, ?_, ?_, by decide +kernel⟩, rfl, Nat.zero_le _⟩
  · intro snapshot pending
    cases pending
  · intro _ isEmpty
    cases isEmpty

/-- The next number is 0, which `append` takes for a committed one. -/
theorem proposal_panics_leaderAtEnd :
    leaderAtEnd.Leading (wordSize - 2) 2 ∧
      (leaderAtEnd.move proposalOfTwo).state = .leader ∧
      (leaderAtEnd.move proposalOfTwo).term = 2 ∧
      PanicsInAppend (leaderAtEnd.act proposalOfTwo).result ∧
      ¬ leaderAtEnd.AppendsOnly proposalOfTwo := by
  have panics : PanicsInAppend (leaderAtEnd.act proposalOfTwo).result :=
    ⟨leaderAtEnd.raftLog, leaderAtEnd.proposedEntries twoProposed, _, rfl, rfl⟩
  exact ⟨leading_leaderAtEnd, by decide +kernel, by decide +kernel, panics,
    fun appends => appends.noPanic panics⟩

end Raft

end AegisDB.Consensus

import AegisDB.Consensus.Persisting
import AegisDB.Consensus.Retransmission

/-! # Positions in the log

Every lookup computes the position of an entry from its index and the first index. The
log keeps its entries in these positions while it is extended, corrected, compacted and
persisted, until it takes entries for the start of all logs into a log that has some. -/

namespace AegisDB.Consensus

open Foundation List

namespace RaftLog

def Positioned (log : RaftLog) : Prop :=
  ∀ (position : Nat) (entry : Entry), log.entries[position]? = some entry →
    entry.index = log.firstIndex + position

def Unbroken (log : RaftLog) : Prop :=
  log.snapshotToApply = none ∧ ∃ before, log.Sequential before

namespace Unbroken

variable {log : RaftLog}

theorem positioned (unbroken : log.Unbroken) : log.Positioned := by
  rcases unbroken with ⟨_, before, sequential⟩
  intro position entry found
  have index := sequential.numbered position entry found
  rw [sequential.firstIndex_of_ne_nil (ne_nil_of_mem (mem_of_getElem? found))]
  omega

end Unbroken

theorem Consecutive.unbroken {log : RaftLog} {before : Nat}
    (consecutive : log.Consecutive before) : log.Unbroken :=
  ⟨consecutive.snapshotToApply, before, consecutive.sequential⟩

/-! ## Single changes -/

namespace Unbroken

variable {log after : RaftLog}

theorem of_entries (noSnapshot : log.snapshotToApply = none) {start : Nat} {entries : List Entry}
    (notEmpty : entries ≠ []) (numbered : Numbered start entries)
    (small : start + entries.length < wordSize) : { log with entries }.Unbroken := by
  refine ⟨noSnapshot, start, numbered, ?_, fun _ isEmpty => absurd isEmpty notEmpty, small⟩
  intro snapshot pending
  rw [show log.snapshotToApply = some snapshot from pending] at noSnapshot
  cases noSnapshot

variable (unbroken : log.Unbroken)

include unbroken

theorem of_committed (committed : Nat) :
    { log with committed }.Unbroken := by
  rcases unbroken with ⟨noSnapshot, before, sequential⟩
  exact ⟨noSnapshot, before, sequential.numbered, sequential.restored, sequential.atStart,
    sequential.small⟩

theorem extend {entries : List Entry} (short : entries.length ≤ 1)
    (next : ∀ position entry, entries[position]? = some entry →
      entry.index = wrap (log.lastIndex + 1 + position))
    (appended : log.append entries = .ok after) : after.Unbroken := by
  cases entries with
  | nil =>
    rw [← Except.ok.inj appended]
    exact unbroken
  | cons entry rest =>
    rcases unbroken with ⟨noSnapshot, before, sequential⟩
    have isAlone : rest = [] := by
      rw [length_cons] at short
      exact length_eq_zero_iff.mp (by omega)
    subst isAlone
    have small := sequential.small
    have index : entry.index = wrap (before + log.entries.length + 1) := by
      rw [next 0 entry rfl, sequential.lastIndex noSnapshot, Nat.add_zero]
    have room : before + log.entries.length + 1 < wordSize := by
      by_contra atEnd
      have above := (append_cons_eq_ok_iff.mp appended).1
      rw [index, show before + log.entries.length + 1 = wordSize by omega, wrap,
        Nat.mod_self] at above
      exact Nat.not_lt_zero _ above
    rw [wrap_of_lt room] at index
    have numbered : Numbered (before + log.entries.length) [entry] := by
      rw [numbered_iff]
      simp [index]
    rw [((sequential.append_iff (cons_ne_nil entry []) numbered).mp appended).2]
    have kept : (if log.entries.length = 0 then log.entries
        else log.entries.take log.entries.length) = log.entries := by simp
    rw [kept]
    apply of_entries noSnapshot (by simp) (sequential.numbered.append numbered)
    rw [length_append]
    exact room

theorem accept {m : Message} (numbered : Numbered m.index m.entries)
    (fits : m.index + m.entries.length < wordSize) (accepted : log.Accepts m)
    (inPlace : m.index = 0 → m.entries = [] ∨ log.entries = [] ∨ log.committed ≠ 0)
    (appended : log.append m.entries = .ok after) : after.Unbroken := by
  by_cases notEmpty : m.entries = []
  · rw [notEmpty] at appended
    rw [← Except.ok.inj appended]
    exact unbroken
  rcases unbroken with ⟨noSnapshot, before, sequential⟩
  have positive := length_pos_of_ne_nil notEmpty
  rcases sequential.atStart_or_inside accepted (by omega) with atStart | inside
  · rcases (append_eq_ok_iff notEmpty numbered).mp appended with ⟨committed, rfl⟩
    have isEmpty : log.entries = [] := by
      rcases inPlace atStart with nothing | isEmpty | someCommitted
      · exact absurd nothing notEmpty
      · exact isEmpty
      · omega
    simp only [isEmpty, take_nil, ite_self, nil_append]
    exact of_entries noSnapshot notEmpty numbered fits
  · have splices : log.Splices before m := ⟨sequential, inside, accepted, notEmpty, numbered, fits⟩
    rw [(splices.append_iff.mp appended).2]
    exact ⟨noSnapshot, before, splices.splice⟩

theorem maybeCompact {index : Nat}
    (compacted : log.maybeCompact index = .ok after) : after.Unbroken := by
  rw [RaftLog.maybeCompact] at compacted
  split at compacted
  · rw [← Except.ok.inj compacted]
    exact unbroken
  · split at compacted
    · cases compacted
    · rw [← Except.ok.inj compacted]
      split_ifs with short
      · rcases unbroken with ⟨noSnapshot, before, sequential⟩
        generalize wrap (index - log.firstIndex + 1) = offset at short ⊢
        have split := take_append_drop offset log.entries
        have numbered := sequential.numbered
        rw [← split] at numbered
        have behind := numbered.of_append
        rw [length_take, Nat.min_eq_left short.le] at behind
        apply of_entries noSnapshot ?_ behind
        · rw [length_drop]
          have small := sequential.small
          omega
        · exact ne_nil_of_length_pos (by rw [length_drop]; omega)
      · exact unbroken

theorem of_stabled {stabled : Nat} (applied : Nat)
    (same : log.entries = [] → stabled = log.stabled) :
    { log with stabled, applied }.Unbroken := by
  rcases unbroken with ⟨noSnapshot, before, sequential⟩
  refine ⟨noSnapshot, before, sequential.numbered, sequential.restored, ?_, sequential.small⟩
  intro _ isEmpty
  rw [same isEmpty, sequential.atStart noSnapshot isEmpty]

theorem of_commitChange (change : CommitChange log after) :
    after.Unbroken := by
  cases change with
  | keep => exact unbroken
  | raise index _ => exact unbroken.of_committed index
  | follow index _ => exact unbroken.of_committed (min index log.lastIndex)

end Unbroken

end RaftLog

theorem Appended.not_positioned {m : Message} {log after : RaftLog} {result : Fallible Unit}
    {answer : Option (Bool × Nat)} {before : Nat} (ending : Appended m log after result answer)
    (sequential : log.Sequential before) (atStart : m.index = 0) (notEmpty : m.entries ≠ [])
    (numbered : Numbered m.index m.entries) (someEntries : log.entries ≠ [])
    (nothing : log.committed = 0) : ¬ after.Positioned := by
  have first := sequential.firstIndex_of_ne_nil someEntries
  have accepted : log.Accepts m :=
    ⟨atStart ▸ Nat.zero_le _, fun positive => absurd atStart positive.ne'⟩
  have taken := (RaftLog.append_eq_ok_iff notEmpty numbered).mpr
    ⟨(by omega : log.committed ≤ m.index), rfl⟩
  rw [if_neg (by omega)] at taken
  rcases ending.of_accepts accepted with ⟨fault, failed, _⟩ | ⟨middle, appended, follows, _⟩
  · rw [taken] at failed
    cases failed
  rw [taken] at appended
  rw [follows, ← Except.ok.inj appended, RaftLog.follow_eq]
  intro positioned
  rcases exists_cons_of_ne_nil notEmpty with ⟨entry, rest, isCons⟩
  have positive := length_pos_of_ne_nil someEntries
  have index := numbered 0 entry (by rw [isCons]; rfl)
  have placed := positioned log.entries.length entry (by simp [isCons])
  rw [RaftLog.firstIndex_append_entries someEntries, first] at placed
  omega

/-! ## Runs -/

inductive LogInput where
  | node (input : NodeInput)
  | compact (index : Nat)
deriving DecidableEq, Repr

namespace LogInput

def Regular : LogInput → Prop
  | .node (.step _ m) =>
    m.msgType ≠ .msgSnapshot ∧
      (m.msgType = .msgAppend →
        Numbered m.index m.entries ∧ m.index + m.entries.length < wordSize)
  | _ => True

instance decidableRegular (input : LogInput) : Decidable input.Regular := by
  rcases input with (_ | _ | _ | _) | _ <;> unfold Regular <;> infer_instance

end LogInput

namespace Session

def compact (session : Session) (index : Nat) : Session :=
  match session.log.maybeCompact index with
  | .ok raftLog =>
    { session with
      node := { session.node with raft := { session.node.raft with raftLog } } }
  | .error _ => session

def actLog (session : Session) : LogInput → Session
  | .node input => session.act input
  | .compact index => session.compact index

def runLog (session : Session) (inputs : List LogInput) : Session := inputs.foldl actLog session

/-- Entries for the start of all logs reach a log that has some, with nothing committed. -/
def Displaces (session : Session) : LogInput → Prop
  | .node (.step _ m) =>
    m.msgType = .msgAppend ∧ session.node.raft.Hears m ∧ m.index = 0 ∧ m.entries ≠ [] ∧
      session.log.entries ≠ [] ∧ session.log.committed = 0
  | _ => False

instance decidableDisplaces (session : Session) (input : LogInput) :
    Decidable (session.Displaces input) := by
  rcases input with (_ | _ | _ | _) | _ <;> unfold Displaces <;> infer_instance

variable {session : Session}

theorem unbroken_cycle (unbroken : session.log.Unbroken) : session.cycle.log.Unbroken := by
  cases ready : session.node.ready with
  | error fault =>
    rw [cycle, ready]
    exact unbroken
  | ok pair =>
    rcases eq_ok_of_ready (ready ▸ Fallible.noPanic_ok pair) with
      ⟨entries, committed, unstable, next⟩
    rw [(cycled unbroken.1 unstable next).log]
    apply unbroken.of_stabled
    intro isEmpty
    rw [RaftLog.unstableEntries, isEmpty] at unstable
    rw [eq_nil_of_slice_nil unstable]
    rfl

theorem unbroken_actLog (unbroken : session.log.Unbroken) {input : LogInput}
    (regular : input.Regular) (inPlace : ¬ session.Displaces input) :
    (session.actLog input).log.Unbroken := by
  cases input with
  | compact index =>
    rw [actLog, compact]
    split
    · rename_i raftLog compacted
      exact unbroken.maybeCompact compacted
    · exact unbroken
  | node input =>
    by_cases isCycle : input = .cycle
    · subst isCycle
      exact unbroken_cycle unbroken
    rcases session.act_effect isCycle with ⟨m, feeds, middle, change, commit⟩
    refine RaftLog.Unbroken.of_commitChange ?_ commit
    cases change with
    | keep => exact unbroken
    | extend entries _ count next appended =>
      refine unbroken.extend ?_ next appended
      rcases count with single | ⟨proposed, same⟩
      · exact single.le
      · rcases feeds with ⟨_, short⟩ | ⟨notLocal, _⟩
        · omega
        · simp [proposed, MessageType.isLocal] at notLocal
    | accept _ offered hears accepted appended =>
      rcases feeds with ⟨isLocal, _⟩ | ⟨_, draw, rfl⟩
      · simp [offered, MessageType.isLocal] at isLocal
      · rcases regular.2 offered with ⟨numbered, fits⟩
        refine unbroken.accept numbered fits accepted ?_ appended
        intro atStart
        by_contra neither
        rw [not_or, not_or, not_not] at neither
        exact inPlace ⟨offered, hears, atStart, neither⟩
    | restore snapshot _ sent _ =>
      rcases feeds with ⟨isLocal, _⟩ | ⟨_, draw, rfl⟩
      · simp [sent, MessageType.isLocal] at isLocal
      · exact absurd sent regular.1

theorem not_positioned_actLog (unbroken : session.log.Unbroken) {input : LogInput}
    (regular : input.Regular) (displaces : session.Displaces input) :
    ¬ (session.actLog input).log.Positioned := by
  cases input with
  | compact index => exact absurd displaces id
  | node input =>
    cases input with
    | tick | propose | cycle => exact absurd displaces id
    | step draw m =>
      rcases displaces with ⟨offered, hears, atStart, notEmpty, someEntries, nothing⟩
      rcases regular.2 offered with ⟨numbered, _⟩
      rcases unbroken with ⟨noSnapshot, before, sequential⟩
      have stepped : (session.actLog (.node (.step draw m))).log =
          (session.node.raft.step draw m).raft.raftLog := by
        simp [actLog, act, RawNode.step, offered, MessageType.isLocal, MessageType.isResponse,
          RawNode.handle, log]
      rcases Raft.step_endsAppend draw offered hears with ⟨_, ending, _⟩
      rw [stepped]
      exact ending.not_positioned sequential atStart notEmpty numbered someEntries nothing

end Session

/-- All along a run, entries are in position exactly if no input displaces them. -/
theorem positioned_iff {start : RawNode} {inputs : List LogInput}
    (unbroken : start.raft.raftLog.Unbroken) (regular : ∀ input ∈ inputs, input.Regular) :
    (∀ past, past <+: inputs → ((Session.start start).runLog past).log.Positioned) ↔
      Guarded Session.actLog (fun session input => ¬ session.Displaces input)
        (Session.start start) inputs := by
  have keeps {session : Session} {input : LogInput} (member : input ∈ inputs)
      (unbroken : session.log.Unbroken) (inPlace : ¬ session.Displaces input) :
      (session.actLog input).log.Unbroken :=
    Session.unbroken_actLog unbroken (regular input member) inPlace
  constructor
  · apply guarded_of_forall_isPrefix (fun session : Session => session.log.Positioned) unbroken
      keeps
    intro session input member unbroken positioned displaces
    exact Session.not_positioned_actLog unbroken (regular input member) displaces positioned
  · intro guarded past isPrefix
    exact (guarded.invariant (motive := fun session : Session => session.log.Unbroken) unbroken
      keeps isPrefix).positioned

def correctedRun : List LogInput :=
  [.node (.step 0 (appendOf 0 0 (leaderEntries 2) 0)),
    .node (.step 0 (appendOf 2 1 [Entry.newNormal 2 2 [], Entry.newNormal 2 3 []] 0)),
    .compact 2, .node .cycle]

theorem positioned_correctedRun :
    ((Session.start (RawNode.new (followerWith 0 []))).runLog correctedRun).log.Positioned := by
  have consecutive : (RawNode.new (followerWith 0 [])).raft.raftLog.Consecutive 0 := by decide
  have unbroken := consecutive.unbroken
  exact (positioned_iff unbroken (by decide)).mpr (by decide +kernel) correctedRun prefix_rfl

/-- An append message that arrives twice leaves its entry in the log twice. -/
theorem first_entry_displaced :
    ∃ (start : RawNode) (inputs : List LogInput),
      start.raft.raftLog.pendingSnapshot = none ∧ start.raft.raftLog.entries = [] ∧
      (∀ input ∈ inputs, input.Regular) ∧
      ((Session.start start).runLog inputs).log.pendingSnapshot = none ∧
      ((Session.start start).runLog inputs).log.entries =
        [Entry.newNormal 2 1 [], Entry.newNormal 2 1 []] ∧
      ¬ ((Session.start start).runLog inputs).log.Positioned := by
  refine ⟨RawNode.new (followerWith 0 []),
    [.node (.step 0 (appendOf 0 0 (leaderEntries 1) 0)),
      .node (.step 0 (appendOf 0 0 (leaderEntries 1) 0))],
    rfl, rfl, by decide, by decide +kernel, by decide +kernel, ?_⟩
  intro positioned
  have second := positioned 1 (Entry.newNormal 2 1 []) (by decide +kernel)
  exact absurd second (by decide +kernel)

end AegisDB.Consensus

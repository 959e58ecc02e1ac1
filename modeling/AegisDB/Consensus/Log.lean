import AegisDB.Consensus.Types

/-! # The Raft log

`raft/log.rs` without the calls that go to the storage. -/

namespace AegisDB.Consensus

open Foundation List

structure RaftLog where
  committed : Nat
  applied : Nat
  stabled : Nat
  entries : List Entry
  pendingSnapshot : Option Snapshot
deriving DecidableEq, Repr

namespace RaftLog

def new (storage : Storage) : Fallible RaftLog := do
  let (hardState, _) ← storage.initialState
  let lastIndex ← storage.lastIndex
  let firstIndex ← storage.firstIndex
  let entries ←
    if lastIndex ≥ firstIndex then storage.entries firstIndex (wrap (lastIndex + 1))
    else pure []
  return {
    committed := hardState.commit, applied := 0, stabled := lastIndex, entries,
    pendingSnapshot := none }

def snapshotToApply (log : RaftLog) : Option Snapshot :=
  log.pendingSnapshot.filter fun snapshot => !snapshot.isEmpty

def lastIndex (log : RaftLog) : Nat :=
  match log.snapshotToApply with
  | some snapshot => snapshot.metadata.index
  | none =>
    match log.entries.getLast? with
    | some entry => entry.index
    | none => log.stabled

def firstIndex (log : RaftLog) : Nat :=
  match log.snapshotToApply with
  | some snapshot => wrap (snapshot.metadata.index + 1)
  | none =>
    match log.entries.head? with
    | some entry => entry.index
    | none => wrap (log.stabled + 1)

def entryAt (log : RaftLog) (index : Nat) : Option Entry :=
  if index < log.firstIndex then none else log.entries[index - log.firstIndex]?

def termSync (log : RaftLog) (index : Nat) : Option Nat :=
  if index = 0 then
    some 0
  else if index < log.firstIndex then
    none
  else if index = wrappingSub log.firstIndex 1 then
    match log.snapshotToApply with
    | some snapshot =>
      if snapshot.metadata.index = wrappingSub log.firstIndex 1 then some snapshot.metadata.term
      else none
    | none => none
  else if index ≤ log.lastIndex then
    (log.entryAt index).map Entry.term
  else
    none

def append (log : RaftLog) (entries : List Entry) : Fallible RaftLog :=
  match entries with
  | [] => .ok log
  | entry :: _ =>
    let after := entry.index
    if after ≤ log.committed then
      .error (.panic ("append after committed index " ++ toString after ++ " <= " ++
        toString log.committed))
    else
      let kept :=
        if after > log.firstIndex then log.entries.take (after - log.firstIndex)
        else log.entries
      .ok { log with entries := kept ++ entries }

def unstableEntries (log : RaftLog) : Fallible (List Entry) :=
  let start :=
    if log.stabled ≥ log.firstIndex then wrap (log.stabled - log.firstIndex + 1) else 0
  slice log.entries start log.entries.length

def nextEntries (log : RaftLog) : Fallible (List Entry) :=
  let appliedOffset :=
    if log.applied ≥ log.firstIndex then wrap (log.applied - log.firstIndex + 1) else 0
  let committedOffset :=
    if log.committed ≥ log.firstIndex then wrap (log.committed - log.firstIndex + 1) else 0
  slice log.entries appliedOffset (min committedOffset log.entries.length + 1)

def maybeCompact (log : RaftLog) (compactIndex : Nat) : Fallible RaftLog :=
  if compactIndex ≤ log.firstIndex then
    .ok log
  else if compactIndex > log.lastIndex then
    .error (.error ("compact_index " ++ toString compactIndex ++ " > last_index " ++
      toString log.lastIndex))
  else
    let offset := wrap (compactIndex - log.firstIndex + 1)
    .ok (if offset < log.entries.length then { log with entries := log.entries.drop offset }
      else log)

def applySnapshot (log : RaftLog) (snapshot : Snapshot) : Fallible RaftLog :=
  let snapIndex := snapshot.metadata.index
  if snapshot.isEmpty then
    .ok log
  else if snapIndex ≤ log.committed then
    .error (.error ("snapshot index " ++ toString snapIndex ++ " <= committed " ++
      toString log.committed))
  else
    .ok { committed := snapIndex, applied := snapIndex, stabled := snapIndex, entries := [],
          pendingSnapshot := some snapshot }

end RaftLog

/-! ## Contiguous logs -/

def Numbered (before : Nat) (entries : List Entry) : Prop :=
  ∀ (position : Nat) (entry : Entry), entries[position]? = some entry →
    entry.index = before + position + 1

variable {before : Nat}

theorem numbered_iff {entries : List Entry} :
    Numbered before entries ↔
      entries.map Entry.index = List.range' (before + 1) entries.length := by
  constructor
  · intro numbered
    apply ext_getElem (by simp)
    intro position inside _
    rw [length_map] at inside
    have index := numbered position entries[position] (List.getElem?_eq_getElem inside)
    simp [index]
    omega
  · intro same position entry found
    have index : (entries.map Entry.index)[position]? = some entry.index := by simp [found]
    rw [same] at index
    rcases List.getElem?_eq_some_iff.mp index with ⟨_, value⟩
    rw [getElem_range'] at value
    omega

instance decidableNumbered (before : Nat) (entries : List Entry) :
    Decidable (Numbered before entries) :=
  decidable_of_iff _ numbered_iff.symm

variable {first second : List Entry}

theorem Numbered.append (firstNumbered : Numbered before first)
    (secondNumbered : Numbered (before + first.length) second) :
    Numbered before (first ++ second) := by
  intro position entry found
  by_cases inFirst : position < first.length
  · rw [getElem?_append_left inFirst] at found
    exact firstNumbered position entry found
  · rw [getElem?_append_right (not_lt.mp inFirst)] at found
    have := secondNumbered _ _ found
    omega

theorem Numbered.of_isPrefix {short long : List Entry} (isPrefix : short <+: long)
    (numbered : Numbered before long) : Numbered before short := by
  intro position entry found
  rcases isPrefix with ⟨rest, rfl⟩
  apply numbered position entry
  rw [getElem?_append_left (List.getElem?_eq_some_iff.mp found).1, found]

theorem Numbered.of_append (numbered : Numbered before (first ++ second)) :
    Numbered (before + first.length) second := by
  intro position entry found
  have := numbered (first.length + position) entry (by
    rw [getElem?_append_right (by omega), Nat.add_sub_cancel_left, found])
  omega

namespace RaftLog

section Ends

variable {log : RaftLog}

variable {snapshot : Snapshot}

theorem lastIndex_of_snapshot
    (pending : log.snapshotToApply = some snapshot) : log.lastIndex = snapshot.metadata.index := by
  rw [lastIndex, pending]

variable {entry : Entry}

theorem lastIndex_of_getLast? (noSnapshot : log.snapshotToApply = none)
    (last : log.entries.getLast? = some entry) : log.lastIndex = entry.index := by
  rw [lastIndex, noSnapshot]
  dsimp only
  rw [last]

theorem lastIndex_of_nil (noSnapshot : log.snapshotToApply = none) (isEmpty : log.entries = []) :
    log.lastIndex = log.stabled := by
  rw [lastIndex, noSnapshot]
  dsimp only
  rw [isEmpty]
  rfl

theorem firstIndex_of_snapshot (pending : log.snapshotToApply = some snapshot) :
    log.firstIndex = wrap (snapshot.metadata.index + 1) := by
  rw [firstIndex, pending]

theorem firstIndex_of_head? (noSnapshot : log.snapshotToApply = none)
    (first : log.entries.head? = some entry) : log.firstIndex = entry.index := by
  rw [firstIndex, noSnapshot]
  dsimp only
  rw [first]

theorem firstIndex_of_nil (noSnapshot : log.snapshotToApply = none) (isEmpty : log.entries = []) :
    log.firstIndex = wrap (log.stabled + 1) := by
  rw [firstIndex, noSnapshot]
  dsimp only
  rw [isEmpty]
  rfl

theorem entryAt_of_lt {index : Nat} (compacted : index < log.firstIndex) :
    log.entryAt index = none :=
  if_pos compacted

theorem termSync_of_positive (positive : 0 < log.firstIndex) (index : Nat) :
    log.termSync index =
      if index = 0 then some 0
      else if index ≤ log.lastIndex then (log.entryAt index).map Entry.term
      else none := by
  rw [termSync]
  split
  · rfl
  · by_cases compacted : index < log.firstIndex
    · rw [if_pos compacted, entryAt_of_lt compacted]
      split <;> rfl
    · have notBefore : ¬ index = wrappingSub log.firstIndex 1 := by
        have := wrappingSub_one_lt positive
        omega
      rw [if_neg compacted, if_neg notBefore]

end Ends

variable {log after : RaftLog}

theorem append_cons_eq_ok_iff {entry : Entry} {rest : List Entry} :
    log.append (entry :: rest) = .ok after ↔
      log.committed < entry.index ∧ after = { log with entries :=
        (if entry.index > log.firstIndex then log.entries.take (entry.index - log.firstIndex)
          else log.entries) ++ entry :: rest } := by
  rw [append]
  dsimp only
  by_cases above : entry.index ≤ log.committed
  · rw [if_pos above]
    exact iff_of_false (by simp) fun both => absurd both.1 (not_lt.mpr above)
  · rw [if_neg above, Except.ok.injEq, and_iff_right (not_le.mp above)]
    exact eq_comm

variable {entries : List Entry}

theorem append_eq_ok_iff {start : Nat}
    (notEmpty : entries ≠ []) (numbered : Numbered start entries) :
    log.append entries = .ok after ↔
      log.committed ≤ start ∧ after = { log with entries :=
        (if start + 1 > log.firstIndex then log.entries.take (start + 1 - log.firstIndex)
          else log.entries) ++ entries } := by
  cases entries with
  | nil => exact absurd rfl notEmpty
  | cons entry rest =>
    have index : entry.index = start + 1 := numbered 0 entry rfl
    rw [append_cons_eq_ok_iff, index, Nat.lt_succ_iff]

theorem append_eq_ok (appended : log.append entries = .ok after) :
    after = log ∨ ∃ entry rest kept, entries = entry :: rest ∧ log.committed < entry.index ∧
      kept <+: log.entries ∧ after = { log with entries := kept ++ entries } := by
  cases entries with
  | nil => exact .inl (Except.ok.inj appended).symm
  | cons entry rest =>
    rcases append_cons_eq_ok_iff.mp appended with ⟨above, equal⟩
    refine .inr ⟨entry, rest, _, rfl, above, ?_, equal⟩
    split
    · exact take_prefix _ _
    · exact prefix_rfl

variable {fault : Fault}

theorem fault_of_append (failed : log.append entries = .error fault) :
    ∃ indexes, fault = .panic ("append after committed index " ++ indexes) := by
  cases entries with
  | nil => cases failed
  | cons entry rest =>
    rw [append] at failed
    dsimp only at failed
    split at failed
    · rw [← Except.error.inj failed, String.append_assoc, String.append_assoc]
      exact ⟨_, rfl⟩
    · cases failed

theorem append_eq_error
    (failed : log.append entries = .error fault) : ∃ message, fault = .panic message := by
  rcases fault_of_append failed with ⟨indexes, isPanic⟩
  exact ⟨_, isPanic⟩

def Accepts (log : RaftLog) (m : Message) : Prop :=
  m.index ≤ log.lastIndex ∧ (0 < m.index → log.termSync m.index = some m.logTerm)

instance decidableAccepts (log : RaftLog) (m : Message) : Decidable (log.Accepts m) :=
  inferInstanceAs (Decidable (_ ∧ _))

/-- The entries follow index `before` one by one. -/
structure Sequential (before : Nat) (log : RaftLog) : Prop where
  numbered : Numbered before log.entries
  restored : ∀ snapshot, log.snapshotToApply = some snapshot → snapshot.metadata.index = before
  atStart : log.snapshotToApply = none → log.entries = [] → log.stabled = before
  small : before + log.entries.length < wordSize

namespace Sequential

variable {before : Nat} {log : RaftLog}

variable (sequential : log.Sequential before)

include sequential

theorem room :
    before + 1 < wordSize ∨ before + 1 = wordSize ∧ log.entries = [] := by
  have small := sequential.small
  rw [← length_eq_zero_iff]
  omega

theorem firstIndex :
    log.firstIndex = wrap (before + 1) := by
  cases pending : log.snapshotToApply with
  | some snapshot =>
    rw [firstIndex_of_snapshot pending, sequential.restored snapshot pending]
  | none =>
    cases first : log.entries.head? with
    | none =>
      have isEmpty := head?_eq_none_iff.mp first
      rw [firstIndex_of_nil pending isEmpty, sequential.atStart pending isEmpty]
    | some entry =>
      rw [firstIndex_of_head? pending first]
      rw [head?_eq_getElem?] at first
      have index := sequential.numbered 0 entry first
      have inside := (List.getElem?_eq_some_iff.mp first).1
      have small := sequential.small
      rw [wrap_of_lt (by omega), index]

theorem firstIndex_of_ne_nil (notEmpty : log.entries ≠ []) :
    log.firstIndex = before + 1 := by
  rcases sequential.room with inside | ⟨_, isEmpty⟩
  · rw [sequential.firstIndex, wrap_of_lt inside]
  · exact absurd isEmpty notEmpty

theorem lastIndex
    (noSnapshot : log.snapshotToApply = none) : log.lastIndex = before + log.entries.length := by
  cases last : log.entries.getLast? with
  | some entry =>
    rw [lastIndex_of_getLast? noSnapshot last]
    rw [getLast?_eq_getElem?] at last
    have index := sequential.numbered _ _ last
    have := (List.getElem?_eq_some_iff.mp last).1
    omega
  | none =>
    have isEmpty := getLast?_eq_none_iff.mp last
    rw [lastIndex_of_nil noSnapshot isEmpty, sequential.atStart noSnapshot isEmpty, isEmpty]
    rfl

variable {index : Nat}

theorem noSnapshot_of_le
    (above : before < index) (within : index ≤ log.lastIndex) : log.snapshotToApply = none := by
  cases pending : log.snapshotToApply with
  | none => rfl
  | some snapshot =>
    have last := lastIndex_of_snapshot pending
    have restored := sequential.restored snapshot pending
    omega

theorem entryAt (above : before < index) :
    log.entryAt index = log.entries[index - (before + 1)]? := by
  rw [RaftLog.entryAt, sequential.firstIndex]
  rcases sequential.room with inside | ⟨_, isEmpty⟩
  · rw [wrap_of_lt inside, if_neg (by omega)]
  · simp [isEmpty]

theorem entryAt_of_le (compacted : index ≤ before) : log.entryAt index = none := by
  rw [RaftLog.entryAt, sequential.firstIndex]
  rcases sequential.room with inside | ⟨_, isEmpty⟩
  · rw [wrap_of_lt inside, if_pos (by omega)]
  · simp [isEmpty]

variable {entry : Entry}

theorem lt_of_entryAt (found : log.entryAt index = some entry) : before < index := by
  by_contra compacted
  rw [sequential.entryAt_of_le (not_lt.mp compacted)] at found
  cases found

theorem entryAt_eq_some_iff :
    log.entryAt index = some entry ↔ entry ∈ log.entries ∧ entry.index = index := by
  by_cases above : before < index
  · rw [sequential.entryAt above]
    constructor
    · intro found
      have := sequential.numbered _ _ found
      exact ⟨mem_of_getElem? found, by omega⟩
    · intro ⟨member, isIndex⟩
      rcases mem_iff_getElem?.mp member with ⟨position, found⟩
      have := sequential.numbered _ _ found
      rw [← found]
      congr 1
      omega
  · rw [sequential.entryAt_of_le (not_lt.mp above)]
    refine iff_of_false (by simp) ?_
    intro ⟨member, isIndex⟩
    rcases mem_iff_getElem?.mp member with ⟨position, found⟩
    have := sequential.numbered _ _ found
    omega

theorem entryAt_lastIndex (noSnapshot : log.snapshotToApply = none) :
    log.entryAt log.lastIndex = log.entries.getLast? := by
  have last := sequential.lastIndex noSnapshot
  by_cases isEmpty : log.entries = []
  · simp [RaftLog.entryAt, isEmpty]
  · have positive := length_pos_of_ne_nil isEmpty
    rw [sequential.entryAt (by omega), getLast?_eq_getElem?]
    congr 1
    omega

theorem termSync_of_le (positive : 0 < index) (compacted : index ≤ before) :
    log.termSync index =
      if index + 1 = wordSize then log.snapshotToApply.map fun snapshot => snapshot.metadata.term
      else none := by
  rw [RaftLog.termSync, if_neg (by omega), sequential.firstIndex]
  rcases sequential.room with inside | ⟨atEnd, isEmpty⟩
  · rw [wrap_of_lt inside, if_pos (by omega), if_neg (by omega)]
  · have wraps : wrap (before + 1) = 0 := by rw [atEnd, wrap, Nat.mod_self]
    have last : wrappingSub 0 1 = before := by
      rw [wrappingSub, wrap_of_lt (by omega)]
      omega
    rw [wraps, if_neg (by omega), last]
    by_cases isLast : index = before
    · rw [if_pos isLast, if_pos (by omega)]
      cases pending : log.snapshotToApply with
      | none => rfl
      | some snapshot => exact if_pos (sequential.restored snapshot pending)
    · have notLast : ¬ index + 1 = wordSize := by omega
      rw [if_neg isLast, if_neg notLast]
      simp [RaftLog.entryAt, isEmpty]

theorem termSync (noSnapshot : log.snapshotToApply = none) (positive : 0 < index) :
    log.termSync index = (log.entryAt index).map Entry.term := by
  by_cases above : before < index
  · rw [RaftLog.termSync, if_neg (by omega), noSnapshot, sequential.lastIndex noSnapshot,
      sequential.firstIndex]
    dsimp only
    rcases sequential.room with inside | ⟨_, isEmpty⟩
    · rw [wrap_of_lt inside, wrappingSub_of_le (by omega) inside, if_neg (by omega),
        if_neg (by omega)]
      split
      · rfl
      · rename_i beyond
        rw [sequential.entryAt above, List.getElem?_eq_none (by omega)]
        rfl
    · simp [RaftLog.entryAt, isEmpty]
  · rw [sequential.termSync_of_le positive (not_lt.mp above), noSnapshot,
      sequential.entryAt_of_le (not_lt.mp above)]
    split <;> rfl

theorem append_iff {position : Nat} {entries : List Entry}
    {after : RaftLog} (notEmpty : entries ≠ []) (numbered : Numbered (before + position) entries) :
    log.append entries = .ok after ↔
      log.committed ≤ before + position ∧ after =
        { log with entries :=
            (if position = 0 then log.entries else log.entries.take position) ++ entries } := by
  rw [append_eq_ok_iff notEmpty numbered, sequential.firstIndex]
  rcases sequential.room with inside | ⟨_, isEmpty⟩
  · rw [wrap_of_lt inside, Nat.add_sub_add_right, Nat.add_sub_cancel_left]
    by_cases atStart : position = 0
    · simp [atStart]
    · rw [if_neg atStart, if_pos (by omega : before + position + 1 > before + 1)]
  · simp [isEmpty]

end Sequential

theorem sequential_of_nil (isEmpty : log.entries = [])
    (small : log.lastIndex < wordSize) : log.Sequential log.lastIndex where
  numbered := by
    intro position entry found
    rw [isEmpty] at found
    cases found
  restored := fun _ pending => (lastIndex_of_snapshot pending).symm
  atStart := fun noSnapshot _ => (lastIndex_of_nil noSnapshot isEmpty).symm
  small := by
    rw [isEmpty]
    exact small

structure Consecutive (before : Nat) (log : RaftLog) : Prop where
  noSnapshot : log.pendingSnapshot = none
  numbered : Numbered before log.entries
  atStart : log.entries = [] → log.stabled = before
  small : before + log.entries.length + 1 < wordSize

instance decidableConsecutive (before : Nat) (log : RaftLog) :
    Decidable (log.Consecutive before) :=
  decidable_of_iff (log.pendingSnapshot = none ∧ Numbered before log.entries ∧
      (log.entries = [] → log.stabled = before) ∧ before + log.entries.length + 1 < wordSize)
    ⟨fun ⟨noSnapshot, numbered, atStart, small⟩ => ⟨noSnapshot, numbered, atStart, small⟩,
      fun ⟨noSnapshot, numbered, atStart, small⟩ => ⟨noSnapshot, numbered, atStart, small⟩⟩

namespace Consecutive

variable {before : Nat} {log : RaftLog}

variable (consecutive : log.Consecutive before)

include consecutive

theorem snapshotToApply : log.snapshotToApply = none := by
  simp [RaftLog.snapshotToApply, consecutive.noSnapshot]

theorem sequential : log.Sequential before where
  numbered := consecutive.numbered
  restored := fun snapshot pending => by
    rw [consecutive.snapshotToApply] at pending
    cases pending
  atStart := fun _ => consecutive.atStart
  small := Nat.lt_of_succ_lt consecutive.small

theorem lastIndex :
    log.lastIndex = before + log.entries.length :=
  consecutive.sequential.lastIndex consecutive.snapshotToApply

theorem firstIndex : log.firstIndex = before + 1 := by
  have small := consecutive.small
  rw [consecutive.sequential.firstIndex, wrap_of_lt (by omega)]

variable {index : Nat}

theorem entryAt (above : before < index) :
    log.entryAt index = log.entries[index - (before + 1)]? :=
  consecutive.sequential.entryAt above

theorem entryAt_eq_some_iff {entry : Entry} :
    log.entryAt index = some entry ↔ entry ∈ log.entries ∧ entry.index = index :=
  consecutive.sequential.entryAt_eq_some_iff

theorem termSync (positive : 0 < index) :
    log.termSync index = (log.entryAt index).map Entry.term :=
  consecutive.sequential.termSync consecutive.snapshotToApply positive

theorem append {position : Nat} {entries : List Entry} {after : RaftLog} (notEmpty : entries ≠ [])
    (numbered : Numbered (before + position) entries) (appended : log.append entries = .ok after) :
    log.committed ≤ before + position ∧ after =
      { log with entries :=
          (if position = 0 then log.entries else log.entries.take position) ++ entries } :=
  (consecutive.sequential.append_iff notEmpty numbered).mp appended

end Consecutive

structure Contiguous (log : RaftLog) : Prop where
  noSnapshot : log.pendingSnapshot = none
  stabled : log.stabled = 0
  numbered : Numbered 0 log.entries
  small : log.entries.length + 1 < wordSize

namespace Contiguous

variable {log : RaftLog}

variable (contiguous : log.Contiguous)

include contiguous

theorem consecutive : log.Consecutive 0 where
  noSnapshot := contiguous.noSnapshot
  numbered := contiguous.numbered
  atStart := fun _ => contiguous.stabled
  small := by
    have := contiguous.small
    omega

theorem lastIndex : log.lastIndex = log.entries.length := by
  rw [contiguous.consecutive.lastIndex, Nat.zero_add]

theorem firstIndex : log.firstIndex = 1 :=
  contiguous.consecutive.firstIndex

variable {index : Nat}

theorem entryAt (positive : 0 < index) :
    log.entryAt index = log.entries[index - 1]? :=
  contiguous.consecutive.entryAt positive

theorem termSync (positive : 0 < index) :
    log.termSync index = (log.entries[index - 1]?).map Entry.term := by
  rw [contiguous.consecutive.termSync positive, contiguous.entryAt positive]

variable {entries : List Entry}

theorem append {before : Nat} {after : RaftLog} (notEmpty : entries ≠ [])
    (numbered : Numbered before entries) (appended : log.append entries = .ok after) :
    log.committed ≤ before ∧ after =
      { log with entries :=
          (if before = 0 then log.entries else log.entries.take before) ++ entries } := by
  rw [← Nat.zero_add before] at numbered
  have result := contiguous.consecutive.append notEmpty numbered appended
  rwa [Nat.zero_add] at result

theorem append_end (committed : log.committed ≤ log.entries.length)
    (numbered : Numbered log.entries.length entries) :
    log.append entries = .ok { log with entries := log.entries ++ entries } := by
  cases entries with
  | nil => simp [RaftLog.append]
  | cons entry rest =>
    have index := numbered 0 entry rfl
    rw [RaftLog.append]
    dsimp only
    rw [index, contiguous.firstIndex, if_neg (by omega)]
    by_cases isEmpty : log.entries.length = 0
    · simp [length_eq_zero_iff.mp isEmpty]
    · simp

theorem of_entries {committed : Nat}
    (numbered : Numbered 0 entries) (small : entries.length + 1 < wordSize) :
    Contiguous { log with entries, committed } :=
  ⟨contiguous.noSnapshot, contiguous.stabled, numbered, small⟩

end Contiguous

end RaftLog

end AegisDB.Consensus

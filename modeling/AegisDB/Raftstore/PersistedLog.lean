import AegisDB.Raftstore.PeerStorage

/-! # The raft engine

The keys of `raftstore/meta/keys.rs` begin with a byte for their kind and go on with numbers of
fixed width, so that they tell their arguments and are in the order of these. What is read of
the log of a region is therefore what was written to it last, whatever happens to the logs and
states of other regions in the same engine. -/

namespace AegisDB.Raftstore

open Foundation EngineUtil Mvcc List

/-! ## Keys -/

inductive MetaKind where
  | regionState
  | raftState
  | raftLog
  | applyState
deriving DecidableEq, Repr

inductive MetaKey where
  | regionState (regionId : UInt64)
  | raftState (regionId : UInt64)
  | raftLog (regionId index : UInt64)
  | applyState (regionId : UInt64)
deriving DecidableEq, Repr

def MetaKind.firstByte : MetaKind → UInt8
  | .regionState => regionMetaPrefix
  | .raftState => raftStatePrefix
  | .raftLog => raftLogPrefix
  | .applyState => applyStatePrefix

theorem MetaKind.firstByte_inj {left right : MetaKind} (same : left.firstByte = right.firstByte) :
    left = right := by
  cases left <;> cases right <;> first | rfl | exact absurd same (by decide)

namespace MetaKey

def kind : MetaKey → MetaKind
  | .regionState _ => .regionState
  | .raftState _ => .raftState
  | .raftLog _ _ => .raftLog
  | .applyState _ => .applyState

def bytes : MetaKey → Bytes
  | .regionState regionId => regionStateKey regionId
  | .raftState regionId => raftStateKey regionId
  | .raftLog regionId index => raftLogKey regionId index
  | .applyState regionId => applyStateKey regionId

variable {left right : MetaKey}

theorem head?_bytes (key : MetaKey) : key.bytes.head? = some key.kind.firstByte := by
  cases key <;> rfl

theorem kind_eq_of_isPrefix (isPrefix : left.bytes <+: right.bytes) : left.kind = right.kind := by
  apply MetaKind.firstByte_inj
  rcases isPrefix with ⟨rest, whole⟩
  have head : (left.bytes ++ rest).head? = some left.kind.firstByte := by
    rw [head?_append, head?_bytes]
    rfl
  rw [whole, head?_bytes] at head
  exact (Option.some.inj head).symm

theorem bytes_inj (same : left.bytes = right.bytes) : left = right := by
  have isPrefix : left.bytes <+: right.bytes := ⟨[], (append_nil _).trans same⟩
  have sameKind := kind_eq_of_isPrefix isPrefix
  cases left with
  | regionState regionId =>
    cases right with
    | regionState otherId => rw [regionStateKey_inj same]
    | _ => cases sameKind
  | raftState regionId =>
    cases right with
    | raftState otherId => rw [u64ToBeBytes_inj (tail_eq_of_cons_eq same)]
    | _ => cases sameKind
  | raftLog regionId index =>
    cases right with
    | raftLog otherId otherIndex =>
      rcases raftLogKey_inj.mp same with ⟨sameRegion, sameIndex⟩
      rw [sameRegion, sameIndex]
    | _ => cases sameKind
  | applyState regionId =>
    cases right with
    | applyState otherId => rw [u64ToBeBytes_inj (tail_eq_of_cons_eq same)]
    | _ => cases sameKind

end MetaKey

theorem raftLogKey_lt_iff {regionId index otherRegion otherIndex : UInt64} :
    raftLogKey regionId index < raftLogKey otherRegion otherIndex ↔
      regionId < otherRegion ∨ regionId = otherRegion ∧ index < otherIndex := by
  have sameWord : u64ToBeBytes regionId = u64ToBeBytes otherRegion ↔ regionId = otherRegion :=
    ⟨u64ToBeBytes_inj, congrArg u64ToBeBytes⟩
  rw [raftLogKey, raftLogKey, cons_lt_cons_self, append_lt_append_iff (by simp),
    u64ToBeBytes_lt_iff, u64ToBeBytes_lt_iff, sameWord]

/-! ## Calls -/

def indexesBetween (lo hi : UInt64) : List UInt64 :=
  (List.range (hi.toNat - lo.toNat)).map fun offset => lo + .ofNat offset

theorem mem_indexesBetween {lo hi index : UInt64} :
    index ∈ indexesBetween lo hi ↔ lo ≤ index ∧ index < hi := by
  rw [indexesBetween, mem_map, UInt64.le_iff_toNat_le, UInt64.lt_iff_toNat_lt]
  have bounded := hi.toNat_lt
  constructor
  · intro ⟨offset, inRange, isIndex⟩
    rw [mem_range] at inRange
    have number : index.toNat = lo.toNat + offset := by
      rw [← isIndex, UInt64.toNat_add, UInt64.toNat_ofNat', Nat.add_mod_mod, Nat.mod_eq_of_lt]
      omega
    omega
  · intro ⟨atLeast, below⟩
    refine ⟨index.toNat - lo.toNat, mem_range.mpr (by omega), ?_⟩
    rw [← UInt64.toNat_inj, UInt64.toNat_add, UInt64.toNat_ofNat', Nat.add_mod_mod,
      Nat.mod_eq_of_lt (by omega)]
    omega

section Calls

variable (formats : LogFormats)

def writeRaftState (engines : Engines) (regionId : UInt64) (state : RaftLocalState) : Engines :=
  { engines with
    raft := engines.raft.map fun raftDb =>
      raftDb.insert (raftStateKey regionId) (formats.raftLocalState.encode state) }

def deleteRaftLog (engines : Engines) (regionId lo hi : UInt64) : Engines :=
  if lo ≥ hi then engines
  else
    { engines with
      raft := engines.raft.map fun raftDb =>
        WriteBatch.writeToDb
          (((indexesBetween lo hi).map (raftLogKey regionId)).map .delete) raftDb }

inductive LogCall where
  | writeRaftLog (regionId : UInt64) (entries : List LogEntry)
  | deleteRaftLog (regionId lo hi : UInt64)
  | writeRaftState (regionId : UInt64) (state : RaftLocalState)

def Engines.act (engines : Engines) : LogCall → Engines
  | .writeRaftLog regionId entries => writeRaftLog formats engines regionId entries
  | .deleteRaftLog regionId lo hi => deleteRaftLog engines regionId lo hi
  | .writeRaftState regionId state => writeRaftState formats engines regionId state

def Engines.after (engines : Engines) (calls : List LogCall) : Engines :=
  calls.foldl (Engines.act formats) engines

end Calls

/-! ## What the log should hold -/

namespace LogCall

def Touches (regionId index : UInt64) : LogCall → Prop
  | .writeRaftLog written entries => regionId = written ∧ ∃ entry ∈ entries, index = entry.index
  | .deleteRaftLog deleted lo hi => regionId = deleted ∧ lo ≤ index ∧ index < hi
  | .writeRaftState _ _ => False

instance (regionId index : UInt64) (call : LogCall) : Decidable (call.Touches regionId index) := by
  cases call <;> unfold Touches <;> infer_instance

def leaves (index : UInt64) : LogCall → Option LogEntry
  | .writeRaftLog _ entries => findLast? (fun entry => index = entry.index) entries
  | .deleteRaftLog _ _ _ => none
  | .writeRaftState _ _ => none

variable {call : LogCall} {logs : UInt64 → UInt64 → Option LogEntry} {regionId index : UInt64}

def change (call : LogCall) (logs : UInt64 → UInt64 → Option LogEntry) (regionId index : UInt64) :
    Option LogEntry :=
  if call.Touches regionId index then call.leaves index else logs regionId index

theorem change_of_touches (touches : call.Touches regionId index) :
    call.change logs regionId index = call.leaves index :=
  if_pos touches

theorem change_of_untouched (untouched : ¬ call.Touches regionId index) :
    call.change logs regionId index = logs regionId index :=
  if_neg untouched

end LogCall

def latest (calls : List LogCall) (regionId index : UInt64) : Option LogEntry :=
  (findLast? (fun call => call.Touches regionId index) calls).bind (LogCall.leaves index)

theorem latest_append_singleton (calls : List LogCall) (call : LogCall) :
    latest (calls ++ [call]) = call.change (latest calls) := by
  funext regionId index
  rw [latest, findLast?_append_singleton, LogCall.change]
  simp only [decide_eq_true_eq]
  split
  · rfl
  · rfl

structure LongestRun (log : UInt64 → Option LogEntry) (lo hi : UInt64) (entries : List LogEntry) :
    Prop where
  within : entries ≠ [] → lo.toNat + entries.length ≤ hi.toNat
  present : ∀ position entry, entries[position]? = some entry →
    log (lo + .ofNat position) = some entry
  longest : lo.toNat + entries.length < hi.toNat → log (lo + .ofNat entries.length) = none

/-! ## What it holds -/

def HoldsLogs (formats : LogFormats) (engines : Engines)
    (logs : UInt64 → UInt64 → Option LogEntry) : Prop :=
  ∃ raftDb, engines.raft = some raftDb ∧ ∀ regionId index,
    raftDb.get? (raftLogKey regionId index) =
      (logs regionId index).map formats.logEntry.encode

section Runs

variable {formats : LogFormats} {engines : Engines} {logs : UInt64 → UInt64 → Option LogEntry}

variable (holds : HoldsLogs formats engines logs)

include holds

theorem HoldsLogs.writeRaftLog (written : UInt64) (entries : List LogEntry) :
    HoldsLogs formats (writeRaftLog formats engines written entries)
      ((LogCall.writeRaftLog written entries).change logs) := by
  rcases holds with ⟨raftDb, hasRaft, stored⟩
  refine ⟨_, by rw [Raftstore.writeRaftLog, hasRaft]; rfl, fun regionId index => ?_⟩
  rw [get?_foldl_raftLogKey, stored]
  cases found : findLast? (fun entry : LogEntry =>
      decide (regionId = written ∧ index = entry.index)) entries with
  | none =>
    rw [findLast?_eq_none_iff] at found
    rw [LogCall.change_of_untouched]
    · rfl
    · intro touches
      rcases touches with ⟨sameRegion, entry, member, sameIndex⟩
      exact found entry member (decide_eq_true ⟨sameRegion, sameIndex⟩)
  | some entry =>
    have member : entry ∈ entries := mem_reverse.mp (mem_of_find?_eq_some found)
    have passed := test_of_findLast? found
    rw [decide_eq_true_eq] at passed
    rcases passed with ⟨sameRegion, sameIndex⟩
    have touches : (LogCall.writeRaftLog written entries).Touches regionId index :=
      ⟨sameRegion, entry, member, sameIndex⟩
    rw [LogCall.change_of_touches touches, LogCall.leaves]
    simp only [sameRegion, true_and] at found
    rw [found]
    rfl

theorem HoldsLogs.deleteRaftLog (deleted lo hi : UInt64) :
    HoldsLogs formats (deleteRaftLog engines deleted lo hi)
      ((LogCall.deleteRaftLog deleted lo hi).change logs) := by
  rcases holds with ⟨raftDb, hasRaft, stored⟩
  rw [Raftstore.deleteRaftLog]
  by_cases nothing : lo ≥ hi
  · rw [if_pos nothing]
    refine ⟨raftDb, hasRaft, fun regionId index => ?_⟩
    rw [LogCall.change_of_untouched, stored]
    intro ⟨_, atLeast, below⟩
    exact absurd (atLeast.trans_lt below) (not_lt.mpr nothing)
  · rw [if_neg nothing]
    refine ⟨_, by rw [hasRaft]; rfl, fun regionId index => ?_⟩
    have member : raftLogKey regionId index ∈ (indexesBetween lo hi).map (raftLogKey deleted) ↔
        (LogCall.deleteRaftLog deleted lo hi).Touches regionId index := by
      rw [LogCall.Touches]
      simp only [mem_map, raftLogKey_inj, mem_indexesBetween]
      constructor
      · intro ⟨other, inside, sameRegion, sameIndex⟩
        rw [← sameIndex]
        exact ⟨sameRegion.symm, inside⟩
      · intro ⟨sameRegion, inside⟩
        exact ⟨index, inside, sameRegion.symm, rfl⟩
    rw [WriteBatch.get?_writeToDb_deletes]
    by_cases touches : (LogCall.deleteRaftLog deleted lo hi).Touches regionId index
    · rw [if_pos (member.mpr touches), LogCall.change_of_touches touches]
      rfl
    · rw [if_neg (mt member.mp touches), LogCall.change_of_untouched touches, stored]

theorem HoldsLogs.writeRaftState (written : UInt64) (state : RaftLocalState) :
    HoldsLogs formats (writeRaftState formats engines written state)
      ((LogCall.writeRaftState written state).change logs) := by
  rcases holds with ⟨raftDb, hasRaft, stored⟩
  refine ⟨_, by rw [Raftstore.writeRaftState, hasRaft]; rfl, fun regionId index => ?_⟩
  have otherKey : raftLogKey regionId index ≠ raftStateKey written := by
    intro same
    have sameKey : MetaKey.raftLog regionId index = .raftState written := MetaKey.bytes_inj same
    cases sameKey
  rw [OrderedMap.get?_insert_other _ _ otherKey, stored]
  rfl

theorem HoldsLogs.act (call : LogCall) :
    HoldsLogs formats (engines.act formats call) (call.change logs) := by
  cases call with
  | writeRaftLog written entries => exact holds.writeRaftLog written entries
  | deleteRaftLog deleted lo hi => exact holds.deleteRaftLog deleted lo hi
  | writeRaftState written state => exact holds.writeRaftState written state

omit holds

theorem HoldsLogs.after (holds : HoldsLogs formats engines fun _ _ => none) (calls : List LogCall) :
    HoldsLogs formats (engines.after formats calls) (latest calls) := by
  induction calls using List.reverseRecOn with
  | nil => exact holds
  | append_singleton earlier call induction =>
    rw [Engines.after, foldl_append, latest_append_singleton]
    exact induction.act call

theorem readLogFrom_eq_ok {raftDb : DB} {regionId : UInt64} {log : UInt64 → Option LogEntry}
    (stored : ∀ index, raftDb.get? (raftLogKey regionId index) =
      (log index).map formats.logEntry.encode) (count : Nat) (index : UInt64) :
    ∃ entries, readLogFrom formats raftDb regionId count index = .ok entries ∧
      entries.length ≤ count ∧
      (∀ position entry, entries[position]? = some entry →
        log (index + .ofNat position) = some entry) ∧
      (entries.length < count → log (index + .ofNat entries.length) = none) := by
  induction count generalizing index with
  | zero =>
    refine ⟨[], rfl, le_rfl, ?_, fun shorter => absurd shorter (Nat.lt_irrefl 0)⟩
    intro position entry found
    cases found
  | succ count induction =>
    have here : index + .ofNat 0 = index := UInt64.add_zero index
    have further : ∀ position, index + .ofNat (position + 1) = index + 1 + .ofNat position := by
      intro position
      rw [UInt64.ofNat_add, UInt64.add_comm (.ofNat position), ← UInt64.add_assoc]
      rfl
    cases isEntry : log index with
    | none =>
      refine ⟨[], ?_, Nat.zero_le _, ?_, fun _ => by rw [← isEntry]; exact congrArg log here⟩
      · rw [readLogFrom, stored, isEntry]
        rfl
      · intro position entry found
        cases found
    | some entry =>
      rcases induction (index + 1) with ⟨rest, read, length, present, longest⟩
      refine ⟨entry :: rest, ?_, Nat.succ_le_succ length, ?_, ?_⟩
      · rw [readLogFrom, stored, isEntry]
        simp only [Option.map_some, Codec.decode_encode, read]
        rfl
      · intro position other found
        cases position with
        | zero =>
          rw [← Option.some.inj found, ← isEntry]
          exact congrArg log here
        | succ position =>
          rw [further]
          exact present position other found
      · intro shorter
        rw [length_cons, further]
        exact longest (Nat.lt_of_succ_lt_succ shorter)

theorem HoldsLogs.readRaftLog (holds : HoldsLogs formats engines logs) (regionId lo hi : UInt64) :
    ∃ entries, readRaftLog formats engines regionId lo hi = .ok entries ∧
      LongestRun (logs regionId) lo hi entries := by
  rcases holds with ⟨raftDb, hasRaft, stored⟩
  rw [Raftstore.readRaftLog]
  by_cases nothing : lo ≥ hi
  · rw [if_pos nothing]
    have above := UInt64.le_iff_toNat_le.mp nothing
    refine ⟨[], rfl, fun notEmpty => absurd rfl notEmpty, ?_, fun shorter => ?_⟩
    · intro position entry found
      cases found
    · rw [length_nil] at shorter
      omega
  · rw [if_neg nothing, hasRaft]
    have below := UInt64.lt_iff_toNat_lt.mp (not_le.mp nothing)
    rcases readLogFrom_eq_ok (stored regionId) (hi.toNat - lo.toNat) lo with
      ⟨entries, read, length, present, longest⟩
    exact ⟨entries, read, fun _ => by omega, present, fun shorter => longest (by omega)⟩

end Runs

/-- Keys of the metadata tell their kind and arguments, none is the beginning of a key of
another kind, and keys of log entries are in the order of region and index. So whatever is
written to and deleted from the logs of a raft engine that has none at first, what is read of
a log are the latest entries, up to the first gap. -/
theorem metadata_never_collides (formats : LogFormats) (engines : Engines) (raftDb : DB)
    (calls : List LogCall) (hasRaft : engines.raft = some raftDb)
    (noLogs : ∀ regionId index, raftDb.get? (raftLogKey regionId index) = none) :
    (∀ left right : MetaKey, left.bytes = right.bytes → left = right) ∧
    (∀ left right : MetaKey, left.kind ≠ right.kind → ¬ left.bytes <+: right.bytes) ∧
    (∀ regionId index otherRegion otherIndex,
      raftLogKey regionId index < raftLogKey otherRegion otherIndex ↔
        regionId < otherRegion ∨ regionId = otherRegion ∧ index < otherIndex) ∧
    ∀ regionId lo hi, ∃ entries,
      readRaftLog formats (engines.after formats calls) regionId lo hi = .ok entries ∧
      LongestRun (latest calls regionId) lo hi entries := by
  refine ⟨fun left right => MetaKey.bytes_inj, ?_, fun _ _ _ _ => raftLogKey_lt_iff, ?_⟩
  · intro left right otherKind isPrefix
    exact otherKind (MetaKey.kind_eq_of_isPrefix isPrefix)
  · intro regionId lo hi
    have holds : HoldsLogs formats engines fun _ _ => none := ⟨raftDb, hasRaft, noLogs⟩
    exact (holds.after calls).readRaftLog regionId lo hi

def numberedEntry (term index : UInt64) : LogEntry where
  entryType := .normal
  term
  index
  data := []

def firstState : RaftLocalState where
  hardState := { term := 1, vote := 0, commit := 1 }
  lastIndex := 3
  lastTerm := 1

def twoLogs : List LogCall :=
  [.writeRaftLog 1 [numberedEntry 1 1, numberedEntry 1 2, numberedEntry 1 3],
    .writeRaftLog 2 [numberedEntry 4 2],
    .writeRaftState 1 firstState,
    .deleteRaftLog 1 1 2,
    .writeRaftLog 1 [numberedEntry 2 3, numberedEntry 2 5]]

theorem reads_twoLogs :
    (∀ regionId index, (OrderedMap.empty : DB).get? (raftLogKey regionId index) = none) ∧
      (∃ entries, readRaftLog .plain
          (Engines.after .plain { kv := .empty, raft := some .empty } twoLogs) 1 2 9 =
            .ok entries ∧ LongestRun (latest twoLogs 1) 2 9 entries) ∧
      latest twoLogs 1 2 = some (numberedEntry 1 2) ∧
      latest twoLogs 1 3 = some (numberedEntry 2 3) ∧ latest twoLogs 1 4 = none := by
  have noLogs : ∀ regionId index,
      (OrderedMap.empty : DB).get? (raftLogKey regionId index) = none := fun _ _ => rfl
  exact ⟨noLogs, (metadata_never_collides .plain { kv := .empty, raft := some .empty } .empty
    twoLogs rfl noLogs).2.2.2 1 2 9, by decide, by decide, by decide⟩

end AegisDB.Raftstore

import AegisDB.Consensus.Types
import AegisDB.Foundation.LastWrite
import AegisDB.Raftstore.Meta

/-! # The storage of a peer

`raftstore/peer_storage.rs` and the part of `raftstore/meta` that is about the raft log: what
a peer reads from its two engines. The entries and the raft state of all regions are in the
raft engine, the apply states in the engine of the data. -/

namespace AegisDB.Raftstore

open Foundation EngineUtil Proto Mvcc

structure Engines where
  kv : DB
  raft : Option DB

/-! ## The persisted log -/

structure LogEntry where
  entryType : Consensus.EntryType
  term : UInt64
  index : UInt64
  data : Bytes
deriving DecidableEq, Repr

structure HardState where
  term : UInt64
  vote : UInt64
  commit : UInt64
deriving DecidableEq, Repr

structure RaftLocalState where
  hardState : HardState
  lastIndex : UInt64
  lastTerm : UInt64
deriving DecidableEq, Repr

def raftStatePrefix : UInt8 := 0x02

def raftLogPrefix : UInt8 := 0x03

def raftStateKey (regionId : UInt64) : Bytes := raftStatePrefix :: u64ToBeBytes regionId

def raftLogKey (regionId index : UInt64) : Bytes :=
  raftLogPrefix :: (u64ToBeBytes regionId ++ u64ToBeBytes index)

structure LogFormats extends Formats where
  raftLocalState : Codec RaftLocalState
  logEntry : Codec LogEntry

section Log

variable (formats : LogFormats)

def getRaftLocalState (engines : Engines) (regionId : UInt64) :
    Except String (Option RaftLocalState) :=
  match engines.raft with
  | some raftDb =>
    match raftDb.get? (raftStateKey regionId) with
    | some value => (formats.raftLocalState.decode value).map some
    | none => .ok none
  | none => .ok none

def readRaftLogEntry (engines : Engines) (regionId index : UInt64) :
    Except String (Option LogEntry) :=
  match engines.raft with
  | some raftDb =>
    match raftDb.get? (raftLogKey regionId index) with
    | some value => (formats.logEntry.decode value).map some
    | none => .ok none
  | none => .ok none

def writeRaftLog (engines : Engines) (regionId : UInt64) (entries : List LogEntry) : Engines :=
  { engines with
    raft := engines.raft.map fun raftDb =>
      entries.foldl (fun db entry =>
        db.insert (raftLogKey regionId entry.index) (formats.logEntry.encode entry)) raftDb }

def readLogFrom (raftDb : DB) (regionId : UInt64) :
    (count : Nat) → (index : UInt64) → Except String (List LogEntry)
  | 0, _ => .ok []
  | count + 1, index =>
    match raftDb.get? (raftLogKey regionId index) with
    | some value => do
      let entry ← formats.logEntry.decode value
      let rest ← readLogFrom raftDb regionId count (index + 1)
      return entry :: rest
    | none => .ok []

def readRaftLog (engines : Engines) (regionId lo hi : UInt64) :
    Except String (List LogEntry) :=
  if lo ≥ hi then .ok []
  else
    match engines.raft with
    | some raftDb => readLogFrom formats raftDb regionId (hi.toNat - lo.toNat) lo
    | none => .ok []

variable {formats} {engines : Engines} {regionId index : UInt64}

theorem raftLogKey_inj {otherRegion otherIndex : UInt64} :
    raftLogKey regionId index = raftLogKey otherRegion otherIndex ↔
      regionId = otherRegion ∧ index = otherIndex := by
  constructor
  · intro same
    have words := List.append_inj (List.tail_eq_of_cons_eq same)
      (by rw [u64ToBeBytes_length, u64ToBeBytes_length])
    exact ⟨u64ToBeBytes_inj words.1, u64ToBeBytes_inj words.2⟩
  · intro ⟨sameRegion, sameIndex⟩
    rw [sameRegion, sameIndex]

theorem get?_foldl_raftLogKey (written : UInt64) (entries : List LogEntry) (raftDb : DB) :
    (entries.foldl (fun db entry =>
      db.insert (raftLogKey written entry.index) (formats.logEntry.encode entry)) raftDb).get?
        (raftLogKey regionId index) =
      ((findLast? (fun entry => regionId = written ∧ index = entry.index) entries).map
        fun entry => some (formats.logEntry.encode entry)).getD
          (raftDb.get? (raftLogKey regionId index)) := by
  apply foldl_eq_findLast? fun db : DB => db.get? (raftLogKey regionId index)
  intro db entry
  rw [OrderedMap.get?_insert]
  simp only [raftLogKey_inj, decide_eq_true_eq]

theorem readRaftLogEntry_writeRaftLog {raftDb : DB} (hasRaft : engines.raft = some raftDb)
    (entries : List LogEntry) :
    readRaftLogEntry formats (writeRaftLog formats engines regionId entries) regionId index =
      match findLast? (fun entry => index = entry.index) entries with
      | some entry => .ok (some entry)
      | none => readRaftLogEntry formats engines regionId index := by
  rw [readRaftLogEntry, readRaftLogEntry, writeRaftLog, hasRaft, Option.map_some]
  dsimp only
  rw [get?_foldl_raftLogKey]
  simp only [true_and]
  cases findLast? (fun entry : LogEntry => index = entry.index) entries with
  | none => rfl
  | some entry =>
    rw [Option.map_some, Option.getD_some]
    dsimp only
    rw [Codec.decode_encode]
    rfl

end Log

/-! ## The storage -/

structure SnapshotMetadata where
  confState : List UInt64
  index : UInt64
  term : UInt64
deriving DecidableEq, Repr

structure Snapshot where
  data : Bytes
  metadata : SnapshotMetadata
deriving DecidableEq, Repr

structure PeerStorage where
  engines : Engines
  region : Region

namespace PeerStorage

variable (formats : LogFormats)

def applyState? (storage : PeerStorage) : Option RaftApplyState :=
  match getApplyState formats.toFormats storage.engines.kv storage.region.id with
  | .ok state => state
  | .error _ => none

def appliedIndex (storage : PeerStorage) : UInt64 :=
  match storage.applyState? formats with
  | some applyState => applyState.appliedIndex
  | none => 0

def truncatedIndex (storage : PeerStorage) : UInt64 :=
  match storage.applyState? formats with
  | some applyState => applyState.truncatedState.index
  | none => 0

def truncatedTerm (storage : PeerStorage) : UInt64 :=
  match storage.applyState? formats with
  | some applyState => applyState.truncatedState.term
  | none => 0

def initialState (storage : PeerStorage) : Except String (HardState × List UInt64) := do
  let raftState ← getRaftLocalState formats storage.engines storage.region.id
  let hardState :=
    match raftState with
    | some raftState => raftState.hardState
    | none => { term := 0, vote := 0, commit := 0 }
  return (hardState, storage.region.peers.map Peer.id)

def loggedTerm (storage : PeerStorage) (index : UInt64) : Except String UInt64 := do
  match ← readRaftLogEntry formats storage.engines storage.region.id index with
  | some entry => .ok entry.term
  | none =>
    match ← getRaftLocalState formats storage.engines storage.region.id with
    | some raftState =>
      if index = raftState.lastIndex then .ok raftState.lastTerm
      else .error ("entry at index " ++ toString index ++ " not found")
    | none => .error ("entry at index " ++ toString index ++ " not found")

def term (storage : PeerStorage) (index : UInt64) : Except String UInt64 :=
  if index = 0 then .ok 0
  else
    match storage.applyState? formats with
    | some applyState =>
      if index < applyState.truncatedState.index then
        .error ("entry index " ++ toString index ++ " is before truncated index " ++
          toString applyState.truncatedState.index)
      else if index = applyState.truncatedState.index then .ok applyState.truncatedState.term
      else storage.loggedTerm formats index
    | none => storage.loggedTerm formats index

def lastIndex (storage : PeerStorage) : Except String UInt64 := do
  match ← getRaftLocalState formats storage.engines storage.region.id with
  | some raftState => .ok raftState.lastIndex
  | none => .ok (storage.appliedIndex formats)

def firstIndex (storage : PeerStorage) : Except String UInt64 :=
  .ok (storage.truncatedIndex formats + 1)

def snapshot (storage : PeerStorage) : Except String Snapshot :=
  .ok {
    data := []
    metadata := {
      confState := storage.region.peers.map Peer.id
      index := storage.appliedIndex formats
      term := storage.truncatedTerm formats } }

/-! ## The term of an entry -/

variable (storage : PeerStorage) {index : UInt64}

theorem term_zero : storage.term formats 0 = .ok 0 := by
  rw [term, if_pos rfl]

variable {formats storage} in
theorem loggedTerm_of_entry {entry : LogEntry}
    (found : readRaftLogEntry formats storage.engines storage.region.id index = .ok (some entry)) :
    storage.loggedTerm formats index = .ok entry.term := by
  rw [loggedTerm, found]
  rfl

theorem term_of_ne_zero (positive : index ≠ 0) :
    (index < storage.truncatedIndex formats →
        ∃ message, storage.term formats index = .error message) ∧
      (index = storage.truncatedIndex formats →
        storage.term formats index = .ok (storage.truncatedTerm formats)) ∧
      (storage.truncatedIndex formats < index →
        storage.term formats index = storage.loggedTerm formats index) := by
  rw [term, if_neg positive, truncatedIndex, truncatedTerm]
  cases storage.applyState? formats with
  | none =>
    refine ⟨fun below => ?_, fun same => absurd same positive, fun _ => rfl⟩
    exact absurd below (not_lt.mpr (UInt64.zero_le))
  | some applyState =>
    dsimp only
    refine ⟨fun below => ?_, fun same => ?_, fun above => ?_⟩
    · rw [if_pos below]
      exact ⟨_, rfl⟩
    · rw [if_neg (by rw [same]; exact lt_irrefl _), if_pos same]
    · rw [if_neg above.asymm, if_neg above.ne']

/-! ## The position of a snapshot -/

def LogReachesApplied (storage : PeerStorage) : Prop :=
  ∀ index, storage.truncatedIndex formats < index → index ≤ storage.appliedIndex formats →
    ∃ entry, readRaftLogEntry formats storage.engines storage.region.id index = .ok (some entry)

def SnapshotInPlace (storage : PeerStorage) : Prop :=
  ∃ snapshot, storage.snapshot formats = .ok snapshot ∧
    storage.term formats snapshot.metadata.index = .ok snapshot.metadata.term

def AppliedHasTruncatedTerm (storage : PeerStorage) : Prop :=
  if storage.appliedIndex formats = 0 then storage.truncatedTerm formats = 0
  else storage.appliedIndex formats = storage.truncatedIndex formats ∨
    storage.truncatedIndex formats < storage.appliedIndex formats ∧
      ∃ entry, readRaftLogEntry formats storage.engines storage.region.id
          (storage.appliedIndex formats) = .ok (some entry) ∧
        entry.term = storage.truncatedTerm formats

theorem snapshotInPlace_iff_term :
    storage.SnapshotInPlace formats ↔
      storage.term formats (storage.appliedIndex formats) =
        .ok (storage.truncatedTerm formats) := by
  constructor
  · intro ⟨snapshot, made, known⟩
    rw [← Except.ok.inj made] at known
    exact known
  · intro known
    exact ⟨_, rfl, known⟩

/-- A snapshot carries the term of its position exactly if the applied entry has the truncated
term. -/
theorem snapshotInPlace_iff (reaches : storage.LogReachesApplied formats) :
    storage.SnapshotInPlace formats ↔ storage.AppliedHasTruncatedTerm formats := by
  rw [snapshotInPlace_iff_term, AppliedHasTruncatedTerm]
  by_cases nothing : storage.appliedIndex formats = 0
  · rw [if_pos nothing, nothing, term_zero, Except.ok.injEq]
    exact eq_comm
  · rcases term_of_ne_zero formats storage nothing with
      ⟨below, same, above⟩
    rw [if_neg nothing]
    rcases lt_trichotomy (storage.appliedIndex formats) (storage.truncatedIndex formats) with
      isBelow | isSame | isAbove
    · rcases below isBelow with ⟨message, failed⟩
      rw [failed]
      refine iff_of_false (by simp) ?_
      intro either
      rcases either with isSame | ⟨isAbove, _⟩
      · exact isBelow.ne isSame
      · exact isBelow.asymm isAbove
    · exact iff_of_true (same isSame) (.inl isSame)
    · rcases reaches _ isAbove le_rfl with ⟨entry, found⟩
      rw [above isAbove, loggedTerm_of_entry found, found, Except.ok.injEq]
      constructor
      · intro sameTerm
        exact .inr ⟨isAbove, entry, rfl, sameTerm⟩
      · intro either
        rcases either with isSame | ⟨_, other, isEntry, sameTerm⟩
        · exact absurd isSame isAbove.ne'
        · rw [Option.some.inj (Except.ok.inj isEntry)]
          exact sameTerm

end PeerStorage

/-! ## A concrete peer -/

namespace LogFormats

def raftLocalStateCode : Code RaftLocalState :=
  ((Code.word.pair (Code.word.pair Code.word)).pair (Code.word.pair Code.word)).through
    (fun value => ((value.hardState.term, value.hardState.vote, value.hardState.commit),
      value.lastIndex, value.lastTerm))
    (fun repr => {
      hardState := { term := repr.1.1, vote := repr.1.2.1, commit := repr.1.2.2 }
      lastIndex := repr.2.1
      lastTerm := repr.2.2 })
    fun _ => rfl

def logEntryCode : Code LogEntry :=
  (Code.byte.pair (Code.word.pair (Code.word.pair Code.byte.list))).through
    (fun value => (if value.entryType = .normal then 0 else 1, value.term, value.index,
      value.data))
    (fun repr => {
      entryType := if repr.1 = 0 then .normal else .confChange
      term := repr.2.1
      index := repr.2.2.1
      data := repr.2.2.2 })
    (by
      intro value
      rcases value with ⟨entryType, term, index, data⟩
      cases entryType with
      | normal => simp
      | confChange => simp)

def plain : LogFormats where
  toFormats := .plain
  raftLocalState := raftLocalStateCode.codec
  logEntry := logEntryCode.codec

end LogFormats

namespace PeerStorage

def appliedFurther (term : UInt64) : PeerStorage where
  engines := writeRaftLog .plain
    { kv := (writeApplyState .plain [] 1
        { appliedIndex := 5, truncatedState := { index := 3, term := 2 } }).writeToDb .empty
      raft := some .empty }
    1
    [{ entryType := .normal, term := 2, index := 4, data := [] },
      { entryType := .normal, term, index := 5, data := [] }]
  region :=
    { id := 1, startKey := [], endKey := [], regionEpoch := none, peers := [⟨1, 1⟩] }

theorem logReachesApplied_appliedFurther (term : UInt64) :
    (appliedFurther term).LogReachesApplied .plain := by
  intro index above atMost
  have sameState : (appliedFurther term).applyState? .plain =
      (appliedFurther 0).applyState? .plain := by
    have sameKv : (appliedFurther term).engines.kv = (appliedFurther 0).engines.kv := rfl
    have sameRegion : (appliedFurther term).region = (appliedFurther 0).region := rfl
    rw [applyState?, applyState?, sameKv, sameRegion]
  have truncated : (appliedFurther term).truncatedIndex .plain = 3 := by
    rw [truncatedIndex, sameState]
    decide +kernel
  have applied : (appliedFurther term).appliedIndex .plain = 5 := by
    rw [appliedIndex, sameState]
    decide +kernel
  rw [truncated, UInt64.lt_iff_toNat_lt] at above
  rw [applied, UInt64.le_iff_toNat_le] at atMost
  have either : index = 4 ∨ index = 5 := by
    rw [← UInt64.toNat_inj, ← UInt64.toNat_inj]
    change 3 < index.toNat at above
    change index.toNat ≤ 5 at atMost
    change index.toNat = 4 ∨ index.toNat = 5
    omega
  rw [appliedFurther, readRaftLogEntry_writeRaftLog rfl]
  rcases either with rfl | rfl
  · exact ⟨_, rfl⟩
  · exact ⟨_, rfl⟩

theorem snapshotInPlace_of_same_term : (appliedFurther 2).SnapshotInPlace .plain := by
  refine (snapshotInPlace_iff .plain (appliedFurther 2) (logReachesApplied_appliedFurther 2)).mpr
    ?_
  refine (if_neg (by decide +kernel)).mpr (.inr ⟨by decide +kernel, ?_⟩)
  exact ⟨{ entryType := .normal, term := 2, index := 5, data := [] }, by decide +kernel, rfl⟩

/-- The entry at the applied index is of term 3, and the snapshot there says term 2. -/
theorem snapshot_of_other_term :
    (appliedFurther 3).LogReachesApplied .plain ∧
      (∃ snapshot, (appliedFurther 3).snapshot .plain = .ok snapshot ∧
        snapshot.metadata.index = 5 ∧ snapshot.metadata.term = 2) ∧
      (appliedFurther 3).term .plain 5 = .ok 3 :=
  ⟨logReachesApplied_appliedFurther 3, ⟨_, rfl, by decide +kernel, by decide +kernel⟩,
    by decide +kernel⟩

end PeerStorage

end AegisDB.Raftstore

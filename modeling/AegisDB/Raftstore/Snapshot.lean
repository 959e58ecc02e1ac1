import AegisDB.Raftstore.Recovery
import AegisDB.Raftstore.Region

/-! # Snapshots of regions

`raftstore/region_task.rs`. The scan for a snapshot compares the raw keys of the engine with
the range of the region, but users' keys lie behind the name of their column family, and
applying the snapshot puts the name of the default family before what was scanned. -/

namespace AegisDB.Raftstore

open Foundation EngineUtil Proto OrderedMap List

/-! ## The tasks -/

def isMetadataKey : Bytes → Bool
  | [] => false
  | first :: _ => first < 0x10

def scanFrom (endKey : Bytes) : List (Bytes × Bytes) → List (Bytes × Bytes)
  | [] => []
  | (key, value) :: rest =>
    if !endKey.isEmpty && exceedEndKey key endKey then
      []
    else if isMetadataKey key then
      scanFrom endKey rest
    else
      (key, value) :: scanFrom endKey rest

def scanRange (db : DB) (startKey endKey : Bytes) : List (Bytes × Bytes) :=
  scanFrom endKey (if !startKey.isEmpty then db.seek startKey else db.entries)

def destroyRange (db : DB) (startKey endKey : Bytes) : DB :=
  WriteBatch.writeToDb ((scanRange db startKey endKey).map fun entry => .delete entry.1) db

section Tasks

variable (formats : Formats)

def genSnapshot (db : DB) (regionId : UInt64) : Except String Bytes := do
  match ← getRegionLocalState formats db regionId with
  | none => throw s!"region {regionId} not found"
  | some regionState =>
    let region ← formats.region.decode regionState.regionBytes
    return formats.snapshotData.encode {
      regionBytes := formats.region.encode region
      kvs := scanRange db region.startKey region.endKey }

def snapshotBatch (region : Region) (kvs : List (Bytes × Bytes)) (regionId : UInt64)
    (applyState : Option RaftApplyState) : WriteBatch :=
  let batch := kvs.foldl
    (fun batch kv => WriteBatch.setCf batch Storage.Cf.default.bytes kv.1 kv.2) []
  let batch := writeRegionState formats batch region .normal
  match applyState with
  | some state => writeApplyState formats batch regionId state
  | none => batch

def applySnapshot (db : DB) (regionId : UInt64) (snapshotData : Bytes) : DB × Except String Bool :=
  match formats.snapshotData.decode snapshotData with
  | .error message => (db, .error message)
  | .ok snapshot =>
    match formats.region.decode snapshot.regionBytes with
    | .error message => (db, .error message)
    | .ok region =>
      let db := destroyRange db region.startKey region.endKey
      match getApplyState formats db regionId with
      | .error message => (db, .error message)
      | .ok applyState =>
        ((snapshotBatch formats region snapshot.kvs regionId applyState).writeToDb db, .ok true)

end Tasks

/-! ## What the scans find -/

theorem scanFrom_eq (endKey : Bytes) (entries : List (Bytes × Bytes)) :
    scanFrom endKey entries =
      (entries.takeWhile fun entry => !(!endKey.isEmpty && exceedEndKey entry.1 endKey)).filter
        fun entry => !isMetadataKey entry.1 := by
  induction entries with
  | nil => rfl
  | cons first rest induction =>
    rw [scanFrom, takeWhile_cons]
    cases (!endKey.isEmpty && exceedEndKey first.1 endKey) with
    | true => rfl
    | false =>
      simp only [Bool.not_false, if_true, Bool.false_eq_true, if_false, filter_cons]
      rw [induction]
      cases isMetadataKey first.1 <;> rfl

variable {entry : Bytes × Bytes}

theorem mem_scanFrom {endKey : Bytes} {entries : List (Bytes × Bytes)}
    (ascending : Ascending entries) :
    entry ∈ scanFrom endKey entries ↔
      entry ∈ entries ∧ (endKey ≠ [] → entry.1 < endKey) ∧ isMetadataKey entry.1 = false := by
  rw [scanFrom_eq, mem_filter, mem_takeWhile_below ascending, and_assoc, Bool.not_eq_true']

def IsScanned (region : Region) (key : Bytes) : Prop :=
  region.range.Contains key ∧ isMetadataKey key = false

instance (region : Region) : DecidablePred (IsScanned region) := fun key =>
  inferInstanceAs (Decidable (region.range.Contains key ∧ isMetadataKey key = false))

theorem mem_scanRange {db : DB} {region : Region} :
    entry ∈ scanRange db region.startKey region.endKey ↔
      db.get? entry.1 = some entry.2 ∧ IsScanned region entry.1 := by
  have started : ∀ {entries : List (Bytes × Bytes)}, Ascending entries →
      (entry ∈ entries ↔ db.get? entry.1 = some entry.2 ∧ region.startKey ≤ entry.1) →
      (entry ∈ scanFrom region.endKey entries ↔
        db.get? entry.1 = some entry.2 ∧ IsScanned region entry.1) := by
    intro entries ascending members
    rw [mem_scanFrom ascending, members, IsScanned, Region.contains_range_iff]
    tauto
  rw [scanRange]
  split
  · exact started (db.seek_ascending _) (by rw [mem_seek, get?_eq_some_iff])
  · rename_i unbounded
    have isEmpty : region.startKey = [] := by simpa using unbounded
    have low : region.startKey ≤ entry.1 := by
      rw [isEmpty]
      exact le_of_isPrefix nil_prefix
    exact started db.ascending (by rw [get?_eq_some_iff, and_iff_left low])

theorem get?_destroyRange (db : DB) (region : Region) (key : Bytes) :
    (destroyRange db region.startKey region.endKey).get? key =
      if IsScanned region key then none else db.get? key := by
  have batch : (scanRange db region.startKey region.endKey).map
      (fun entry => BatchEntry.delete entry.1) =
        ((scanRange db region.startKey region.endKey).map Prod.fst).map .delete := by
    rw [map_map]
    rfl
  rw [destroyRange, batch, WriteBatch.get?_writeToDb_deletes]
  have members : key ∈ (scanRange db region.startKey region.endKey).map Prod.fst ↔
      (∃ value, db.get? key = some value) ∧ IsScanned region key := by
    simp [mem_map, mem_scanRange]
  by_cases scanned : IsScanned region key
  · rw [if_pos scanned]
    split
    · rfl
    · rename_i absent
      cases found : db.get? key with
      | none => rfl
      | some value => exact absurd (members.mpr ⟨⟨value, found⟩, scanned⟩) absent
  · rw [if_neg scanned, if_neg fun member => scanned (members.mp member).2]

/-! ## What is read after a snapshot has been applied -/

section Reads

variable {formats : Formats} {source : DB}

theorem writeToDb_append (left right : WriteBatch) (db : DB) :
    WriteBatch.writeToDb (left ++ right) db = right.writeToDb (left.writeToDb db) :=
  foldl_append

def putScanned (kvs : List (Bytes × Bytes)) (db : DB) : DB :=
  kvs.foldl (fun db kv => putCf db Storage.Cf.default.bytes kv.1 kv.2) db

theorem writeToDb_foldl_setCf (kvs : List (Bytes × Bytes)) (batch : WriteBatch) (db : DB) :
    (kvs.foldl (fun batch kv =>
        WriteBatch.setCf batch Storage.Cf.default.bytes kv.1 kv.2) batch).writeToDb db =
      putScanned kvs (batch.writeToDb db) := by
  induction kvs generalizing batch with
  | nil => rfl
  | cons kv rest induction =>
    rw [foldl_cons, induction, WriteBatch.setCf, writeToDb_append]
    rfl

variable {kvs : List (Bytes × Bytes)} {db : DB}

theorem get?_putScanned_of_forall_ne {key : Bytes}
    (others : ∀ kv ∈ kvs, key ≠ keyWithCf Storage.Cf.default.bytes kv.1) :
    (putScanned kvs db).get? key = db.get? key := by
  induction kvs generalizing db with
  | nil => rfl
  | cons kv rest induction =>
    rw [putScanned, foldl_cons, ← putScanned,
      induction fun other member => others other (mem_cons_of_mem kv member),
      putCf, get?_insert_other _ _ (others kv mem_cons_self)]

theorem get?_putScanned_of_mem {kv : Bytes × Bytes}
    (scanned : ∀ other ∈ kvs, source.get? other.1 = some other.2) (member : kv ∈ kvs) :
    (putScanned kvs db).get? (keyWithCf Storage.Cf.default.bytes kv.1) = source.get? kv.1 := by
  induction kvs generalizing db with
  | nil => cases member
  | cons first rest induction =>
    have restScanned : ∀ other ∈ rest, source.get? other.1 = some other.2 :=
      fun other later => scanned other (mem_cons_of_mem first later)
    rw [putScanned, foldl_cons, ← putScanned]
    cases mem_cons.mp member with
    | inr later => exact induction restScanned later
    | inl same =>
      -- A later put of the same key would put the same value.
      by_cases again : kv ∈ rest
      · exact induction restScanned again
      · rw [get?_putScanned_of_forall_ne, putCf, same, get?_insert_same,
          scanned first mem_cons_self]
        intro other later sameKey
        have keys : kv.1 = other.1 := (Storage.keyWithCf_inj.mp sameKey).2
        have values := restScanned other later
        rw [← keys, scanned kv member] at values
        have equal : kv = other := Prod.ext keys (Option.some.inj values)
        exact again (equal ▸ later)

theorem getCf_snapshotBatch (region : Region) (kvs : List (Bytes × Bytes)) (regionId : UInt64)
    (applyState : Option RaftApplyState) (db : DB) (cf : Storage.Cf) (key : Bytes) :
    getCf ((snapshotBatch formats region kvs regionId applyState).writeToDb db) cf.bytes key =
      getCf (putScanned kvs db) cf.bytes key := by
  have notMetadata : ∀ rest, keyWithCf cf.bytes key ≠ keyWithCf [] rest := by
    intro rest same
    rcases head?_keyWithCf cf key with ⟨first, head, above⟩
    rw [same] at head
    cases head
    exact absurd above (by decide)
  have afterRegion : getCf ((writeRegionState formats (kvs.foldl
        (fun batch kv => WriteBatch.setCf batch Storage.Cf.default.bytes kv.1 kv.2) [])
        region .normal).writeToDb db) cf.bytes key = getCf (putScanned kvs db) cf.bytes key := by
    rw [writeRegionState, WriteBatch.setCf, writeToDb_append, writeToDb_foldl_setCf]
    exact get?_insert_other _ _ (notMetadata _)
  cases applyState with
  | none => exact afterRegion
  | some state =>
    rw [← afterRegion, snapshotBatch, writeApplyState, WriteBatch.setCf, writeToDb_append]
    exact get?_insert_other _ _ (notMetadata _)

theorem isMetadataKey_keyWithCf (cf : Storage.Cf) (key : Bytes) :
    isMetadataKey (keyWithCf cf.bytes key) = false := by
  cases cf <;> rfl

def IsTaken (source : DB) (region : Region) (cf : Storage.Cf) (key : Bytes) : Prop :=
  cf = .default ∧ IsScanned region key ∧ (source.get? key).isSome

instance (source : DB) (region : Region) (cf : Storage.Cf) (key : Bytes) :
    Decidable (IsTaken source region cf key) := by
  unfold IsTaken
  infer_instance

theorem getCf_putScanned (region : Region) (target : DB) (cf : Storage.Cf) (key : Bytes) :
    getCf (putScanned (scanRange source region.startKey region.endKey)
        (destroyRange target region.startKey region.endKey)) cf.bytes key =
      if IsTaken source region cf key then source.get? key
      else if region.range.Contains (keyWithCf cf.bytes key) then none
      else getCf target cf.bytes key := by
  split
  · rename_i taken
    rcases taken with ⟨rfl, isScanned, present⟩
    rcases Option.isSome_iff_exists.mp present with ⟨value, found⟩
    have member : (key, value) ∈ scanRange source region.startKey region.endKey :=
      mem_scanRange.mpr ⟨found, isScanned⟩
    exact get?_putScanned_of_mem (fun other later => (mem_scanRange.mp later).1) member
  · rename_i notTaken
    rw [getCf, get?_putScanned_of_forall_ne, get?_destroyRange]
    · simp [IsScanned, isMetadataKey_keyWithCf, getCf]
    · intro kv member same
      rcases mem_scanRange.mp member with ⟨found, isScanned⟩
      rcases Storage.keyWithCf_inj.mp same with ⟨rfl, rfl⟩
      exact notTaken ⟨rfl, isScanned, by simp [found]⟩

end Reads

/-! ## When a snapshot reproduces a region -/

/-- The contents of the two engines for which a snapshot happens to work. -/
structure Reproducible (source target : DB) (region : Region) : Prop where
  taken : ∀ cf key, region.range.Contains key → IsTaken source region cf key →
    source.get? key = getCf source cf.bytes key
  cleared : ∀ cf key, region.range.Contains key → ¬ IsTaken source region cf key →
    region.range.Contains (keyWithCf cf.bytes key) → getCf source cf.bytes key = none
  kept : ∀ cf key, region.range.Contains key → ¬ IsTaken source region cf key →
    ¬ region.range.Contains (keyWithCf cf.bytes key) →
      getCf target cf.bytes key = getCf source cf.bytes key

section Snapshots

variable {formats : Formats} {source target : DB} {regionId : UInt64} {region : Region}
  {state : PeerState} {applyState : Option RaftApplyState}

theorem genSnapshot_of_stored (stored : getRegionLocalState formats source regionId =
      .ok (some { state, regionBytes := formats.region.encode region })) :
    genSnapshot formats source regionId = .ok (formats.snapshotData.encode {
      regionBytes := formats.region.encode region
      kvs := scanRange source region.startKey region.endKey }) := by
  simp only [genSnapshot, stored, bind, Except.bind, formats.region.decode_encode]
  rfl

theorem getApplyState_destroyRange (region : Region)
    (readable : getApplyState formats target regionId = .ok applyState) :
    ∃ left, getApplyState formats (destroyRange target region.startKey region.endKey) regionId =
      .ok left := by
  rw [getApplyState, getCf, get?_destroyRange]
  split
  · rename_i value found
    split at found
    · cases found
    · rename_i kept
      rw [getApplyState, getCf, found] at readable
      exact ⟨applyState, readable⟩
  · exact ⟨none, rfl⟩

theorem applySnapshot_encode (region : Region) (kvs : List (Bytes × Bytes))
    (readable : getApplyState formats target regionId = .ok applyState) :
    ∃ left, applySnapshot formats target regionId (formats.snapshotData.encode {
        regionBytes := formats.region.encode region
        kvs }) =
      ((snapshotBatch formats region kvs regionId left).writeToDb
        (destroyRange target region.startKey region.endKey), .ok true) := by
  rcases getApplyState_destroyRange region readable with ⟨left, found⟩
  refine ⟨left, ?_⟩
  simp only [applySnapshot, formats.snapshotData.decode_encode, formats.region.decode_encode,
    found]

theorem reproducible_iff :
    Reproducible source target region ↔ ∀ cf key, region.range.Contains key →
      (if IsTaken source region cf key then source.get? key
        else if region.range.Contains (keyWithCf cf.bytes key) then none
        else getCf target cf.bytes key) = getCf source cf.bytes key := by
  constructor
  · intro reproducible cf key inside
    split
    · rename_i isTaken
      exact reproducible.taken cf key inside isTaken
    · rename_i notTaken
      split_ifs with isCleared
      · exact (reproducible.cleared cf key inside notTaken isCleared).symm
      · exact reproducible.kept cf key inside notTaken isCleared
  · intro reads
    constructor
    · intro cf key inside isTaken
      simpa [isTaken] using reads cf key inside
    · intro cf key inside notTaken isCleared
      simpa [notTaken, isCleared] using (reads cf key inside).symm
    · intro cf key inside notTaken isKept
      simpa [notTaken, isKept] using reads cf key inside

/-- A snapshot that is made of one engine and applied to another makes the two agree on the
keys of the region just when their contents were of this kind. -/
theorem snapshot_reproduces_iff (stored : getRegionLocalState formats source regionId =
      .ok (some { state, regionBytes := formats.region.encode region }))
    (readable : getApplyState formats target regionId = .ok applyState) :
    ∃ snapshot after, genSnapshot formats source regionId = .ok snapshot ∧
      applySnapshot formats target regionId snapshot = (after, .ok true) ∧
      ((∀ (cf : Storage.Cf) (key : Bytes), region.range.Contains key →
          getCf after cf.bytes key = getCf source cf.bytes key) ↔
        Reproducible source target region) := by
  rcases applySnapshot_encode region
    (scanRange source region.startKey region.endKey) readable with ⟨left, applied⟩
  refine ⟨_, _, genSnapshot_of_stored stored, applied, ?_⟩
  rw [reproducible_iff]
  simp only [getCf_snapshotBatch, getCf_putScanned]

end Snapshots

/-! ## A region with one key -/

def letterRegion : Region where
  id := 1
  startKey := [0x61]
  endKey := [0x62]
  regionEpoch := some { confVer := 1, version := 1 }
  peers := [{ id := 1, storeId := 1 }]

def letterEngine : DB :=
  EngineWrite.engineAfter .plain
    [[.regionState letterRegion .normal, .put .default [0x61] [0x01]]]

theorem snapshot_loses_letter :
    ∃ snapshot after, genSnapshot .plain letterEngine letterRegion.id = .ok snapshot ∧
      applySnapshot .plain .empty letterRegion.id snapshot = (after, .ok true) ∧
      letterRegion.range.Contains [0x61] ∧
      getCf letterEngine Storage.Cf.default.bytes [0x61] = some [0x01] ∧
      getCf after Storage.Cf.default.bytes [0x61] = none := by
  refine ⟨_, _, rfl, rfl, by decide, rfl, rfl⟩

theorem reproducible_letterEngine : Reproducible letterEngine letterEngine letterRegion where
  taken := by
    intro cf key inside isTaken
    rcases Option.isSome_iff_exists.mp isTaken.2.2 with ⟨value, found⟩
    have outside : ∀ entry ∈ letterEngine.entries, ¬ letterRegion.range.Contains entry.1 := by
      decide +kernel
    exact absurd inside (outside (key, value) (get?_eq_some_iff.mp found))
  cleared := by
    intro cf key inside _ isCleared
    have below := (Region.contains_range_iff.mp isCleared).2 (by decide)
    cases cf <;> simp [keyWithCf, Storage.Cf.bytes, Storage.Cf.characters, letterRegion,
      cons_lt_cons_iff] at below
  kept := fun _ _ _ _ _ => rfl

theorem snapshot_reproduces_letter :
    ∃ snapshot after, genSnapshot .plain letterEngine letterRegion.id = .ok snapshot ∧
      applySnapshot .plain letterEngine letterRegion.id snapshot = (after, .ok true) ∧
      ∀ (cf : Storage.Cf) (key : Bytes), letterRegion.range.Contains key →
        getCf after cf.bytes key = getCf letterEngine cf.bytes key := by
  have stored : getRegionLocalState .plain letterEngine letterRegion.id = .ok (some
      { state := .normal, regionBytes := Formats.plain.region.encode letterRegion }) := rfl
  have readable : getApplyState .plain letterEngine letterRegion.id = .ok none := rfl
  rcases snapshot_reproduces_iff stored readable with ⟨snapshot, after, made, applied, reads⟩
  exact ⟨snapshot, after, made, applied, reads.mpr reproducible_letterEngine⟩

end AegisDB.Raftstore

import AegisDB.Raftstore.Meta
import Mathlib.Data.List.Induction

/-! # Recovery of the regions of a store

`raftstore/recovery.rs` scans the engine from the first key of a region state on. The
regions it finds are those whose latest state is live, in the order of their ids, whatever
else has been written to the engine. -/

namespace AegisDB.Raftstore

open Foundation EngineUtil Proto Mvcc OrderedMap List

/-! ## The scan -/

section Scan

variable (formats : Formats)

def recoverFrom (db : DB) (storeId : UInt64) : List (Bytes × Bytes) → Except String (List Region)
  | [] => .ok []
  | (key, _) :: rest =>
    if key.length < 2 ∨ key[0]? ≠ some 0x5F ∨ key[1]? ≠ some regionMetaPrefix then
      if key.length > 0 ∧ key[0]? ≠ some 0x5F then .ok [] else recoverFrom db storeId rest
    else
      match decodeRegionMetaKey (key.drop 1) with
      | .error _ => recoverFrom db storeId rest
      | .ok (regionId, _) =>
        match getRegionLocalState formats db regionId with
        | .ok (some regionState) =>
          if regionState.state = .tombstone then
            recoverFrom db storeId rest
          else do
            let region ← formats.region.decode regionState.regionBytes
            let regions ← recoverFrom db storeId rest
            if region.peers.any (·.storeId == storeId) then
              return region :: regions
            else
              return regions
        | _ => recoverFrom db storeId rest

def recoverRegions (db : DB) (storeId : UInt64) : Except String (List Region) :=
  recoverFrom formats db storeId (db.seek [0x5F, regionMetaPrefix])

end Scan

/-! ## What is written -/

inductive EngineWrite where
  | regionState (region : Region) (state : PeerState)
  | applyState (regionId : UInt64) (state : RaftApplyState)
  | put (cf : Storage.Cf) (key value : Bytes)
  | delete (cf : Storage.Cf) (key : Bytes)

namespace EngineWrite

variable (formats : Formats)

def addTo (batch : WriteBatch) : EngineWrite → WriteBatch
  | .regionState region state => writeRegionState formats batch region state
  | .applyState regionId state => writeApplyState formats batch regionId state
  | .put cf key value => batch.setCf cf.bytes key value
  | .delete cf key => batch.deleteCf cf.bytes key

def batch (writes : List EngineWrite) : WriteBatch := writes.foldl (addTo formats) []

def engineAfter (batches : List (List EngineWrite)) : DB :=
  batches.foldl (fun db writes => (batch formats writes).writeToDb db) .empty

end EngineWrite

abbrev RegionStates := OrderedMap UInt64 (Region × PeerState)

namespace RegionStates

def note (states : RegionStates) : EngineWrite → RegionStates
  | .regionState region state => states.insert region.id (region, state)
  | _ => states

def after (writes : List EngineWrite) : RegionStates := writes.foldl note .empty

def IsLive (storeId : UInt64) (entry : Region × PeerState) : Prop :=
  entry.2 = .normal ∧ ∃ peer ∈ entry.1.peers, peer.storeId = storeId

instance (storeId : UInt64) : DecidablePred (IsLive storeId) := fun entry =>
  inferInstanceAs (Decidable (entry.2 = .normal ∧ ∃ peer ∈ entry.1.peers, peer.storeId = storeId))

def liveOn (states : RegionStates) (storeId : UInt64) : List Region :=
  (states.values.filter fun entry => IsLive storeId entry).map Prod.fst

end RegionStates

def EngineWrite.stateOf? (regionId : UInt64) : EngineWrite → Option (Region × PeerState)
  | .regionState region state => if region.id = regionId then some (region, state) else none
  | _ => none

def latestState? (writes : List EngineWrite) (regionId : UInt64) : Option (Region × PeerState) :=
  writes.reverse.findSome? (EngineWrite.stateOf? regionId)

theorem RegionStates.get?_note (states : RegionStates) (write : EngineWrite) (regionId : UInt64) :
    (states.note write).get? regionId = (write.stateOf? regionId).or (states.get? regionId) := by
  cases write with
  | regionState region state =>
    by_cases same : regionId = region.id
    · simp [note, EngineWrite.stateOf?, same]
    · simp [note, EngineWrite.stateOf?, get?_insert_other _ _ same, Ne.symm same]
  | applyState id state => rfl
  | put cf key value => rfl
  | delete cf key => rfl

theorem RegionStates.get?_after (writes : List EngineWrite) (regionId : UInt64) :
    (after writes).get? regionId = latestState? writes regionId := by
  induction writes using List.reverseRecOn with
  | nil => rfl
  | append_singleton writes write induction =>
    rw [after, foldl_append, foldl_cons, foldl_nil, get?_note, ← after, induction,
      latestState?, latestState?, reverse_append, reverse_singleton,
      singleton_append, findSome?_cons]
    cases write.stateOf? regionId with
    | none => rfl
    | some state => rfl

/-! ## The region states in the engine -/

def stateKey (regionId : UInt64) : Bytes := keyWithCf [] (regionStateKey regionId)

def IsStateKey (key : Bytes) : Prop := [0x5F, regionMetaPrefix] <+: key

instance : DecidablePred IsStateKey := fun key =>
  inferInstanceAs (Decidable ([0x5F, regionMetaPrefix] <+: key))

theorem isStateKey_stateKey (regionId : UInt64) : IsStateKey (stateKey regionId) :=
  ⟨_, rfl⟩

theorem stateKey_inj {left right : UInt64} (same : stateKey left = stateKey right) :
    left = right :=
  regionStateKey_inj (tail_eq_of_cons_eq same)

structure Holds (formats : Formats) (db : DB) (states : RegionStates) : Prop where
  stored : ∀ {key value}, IsStateKey key → (db.get? key = some value ↔
    ∃ regionId region state, states.get? regionId = some (region, state) ∧
      key = stateKey regionId ∧ value = regionStateValue formats region state)
  keyed : ∀ {regionId region state}, states.get? regionId = some (region, state) →
    region.id = regionId

namespace Holds

variable {formats : Formats} {db : DB} {states : RegionStates}

theorem empty : Holds formats .empty .empty where
  stored := by
    intro key value _
    constructor
    · intro found
      cases found
    · intro found
      rcases found with ⟨_, _, _, impossible, _⟩
      cases impossible
  keyed := nofun

theorem of_unchanged {after : DB} (holds : Holds formats db states)
    (same : ∀ {key}, IsStateKey key → after.get? key = db.get? key) :
    Holds formats after states where
  stored := by
    intro key value isStateKey
    rw [same isStateKey]
    exact holds.stored isStateKey
  keyed := holds.keyed

theorem insert_state (holds : Holds formats db states) (region : Region) (state : PeerState) :
    Holds formats (db.insert (stateKey region.id) (regionStateValue formats region state))
      (states.insert region.id (region, state)) where
  stored := by
    intro key value isStateKey
    rw [get?_insert]
    constructor
    · intro found
      split at found
      · rename_i same
        cases found
        exact ⟨region.id, region, state, get?_insert_same _ _ _, same, rfl⟩
      · rename_i different
        rcases (holds.stored isStateKey).mp found with ⟨regionId, other, old, stored, rfl, rfl⟩
        have otherId : regionId ≠ region.id := fun same => different (same ▸ rfl)
        exact ⟨regionId, other, old, by rw [get?_insert_other _ _ otherId, stored],
          rfl, rfl⟩
    · intro found
      rcases found with ⟨regionId, other, old, stored, rfl, rfl⟩
      rw [get?_insert] at stored
      split at stored
      · rename_i same
        cases stored
        rw [same, if_pos rfl]
      · rename_i different
        rw [if_neg fun same => different (stateKey_inj same)]
        exact (holds.stored isStateKey).mpr ⟨regionId, other, old, stored, rfl, rfl⟩
  keyed := by
    intro regionId other old stored
    rw [get?_insert] at stored
    split_ifs at stored with same
    · cases stored
      exact same.symm
    · exact holds.keyed stored

theorem not_isStateKey_keyWithCf (cf : Storage.Cf) (key : Bytes) :
    ¬ IsStateKey (keyWithCf cf.bytes key) := by
  intro isStateKey
  rcases isStateKey with ⟨rest, same⟩
  rcases head?_keyWithCf cf key with ⟨first, head, above⟩
  rw [← same] at head
  cases head
  exact absurd above (by decide)

theorem not_isStateKey_applyStateKey (regionId : UInt64) :
    ¬ IsStateKey (keyWithCf [] (applyStateKey regionId)) := by
  intro isStateKey
  have second := (cons_prefix_cons.mp (cons_prefix_cons.mp isStateKey).2).1
  exact absurd second (by decide)

variable {key : Bytes}

theorem insert_other (holds : Holds formats db states) (value : Bytes)
    (notStateKey : ¬ IsStateKey key) : Holds formats (db.insert key value) states :=
  holds.of_unchanged fun isStateKey =>
    db.get?_insert_other value fun same => notStateKey (same ▸ isStateKey)

theorem erase_other (holds : Holds formats db states)
    (notStateKey : ¬ IsStateKey key) : Holds formats (db.erase key) states :=
  holds.of_unchanged fun isStateKey =>
    db.get?_erase_other fun same => notStateKey (same ▸ isStateKey)

end Holds

/-! ## What one write and what a run of batches does -/

section Runs

variable {formats : Formats}

theorem EngineWrite.writeToDb_addTo (batch : WriteBatch) (write : EngineWrite) (db : DB) :
    (write.addTo formats batch).writeToDb db =
      (write.addTo formats []).writeToDb (batch.writeToDb db) := by
  cases write <;> simp [addTo, writeRegionState, writeApplyState, WriteBatch.setCf,
    WriteBatch.deleteCf, WriteBatch.writeToDb]

theorem EngineWrite.writeToDb_foldl_addTo (batch : WriteBatch) (writes : List EngineWrite)
    (db : DB) :
    (writes.foldl (addTo formats) batch).writeToDb db =
      writes.foldl (fun db write => (write.addTo formats []).writeToDb db)
        (batch.writeToDb db) := by
  induction writes generalizing batch with
  | nil => rfl
  | cons write rest induction =>
    rw [foldl_cons, induction, writeToDb_addTo, foldl_cons]

variable {db : DB} {states : RegionStates}

theorem Holds.write (holds : Holds formats db states) (write : EngineWrite) :
    Holds formats ((write.addTo formats []).writeToDb db) (states.note write) := by
  cases write with
  | regionState region state => exact holds.insert_state region state
  | applyState regionId state =>
    exact holds.insert_other _ (not_isStateKey_applyStateKey regionId)
  | put cf key value => exact holds.insert_other _ (not_isStateKey_keyWithCf cf key)
  | delete cf key => exact holds.erase_other (not_isStateKey_keyWithCf cf key)

theorem Holds.batch (holds : Holds formats db states) (writes : List EngineWrite) :
    Holds formats ((EngineWrite.batch formats writes).writeToDb db)
      (writes.foldl RegionStates.note states) := by
  rw [EngineWrite.batch, EngineWrite.writeToDb_foldl_addTo]
  change Holds formats (writes.foldl _ db) _
  induction writes generalizing db states with
  | nil => exact holds
  | cons write rest induction => exact induction (holds.write write)

theorem holds_engineAfter (formats : Formats) (batches : List (List EngineWrite)) :
    Holds formats (EngineWrite.engineAfter formats batches)
      (RegionStates.after batches.flatten) := by
  have run : ∀ {db : DB} {states : RegionStates}, Holds formats db states →
      Holds formats
        (batches.foldl (fun db writes => (EngineWrite.batch formats writes).writeToDb db) db)
        (batches.foldl (List.foldl RegionStates.note) states) := by
    induction batches with
    | nil => exact fun holds => holds
    | cons writes rest induction => exact fun holds => induction (holds.batch writes)
  rw [RegionStates.after, foldl_flatten]
  exact run .empty

end Runs

/-! ## The scan finds the region states -/

section Found

variable {formats : Formats} {db : DB} {states : RegionStates} {storeId : UInt64}

variable {key : Bytes}

theorem isStateKey_iff :
    IsStateKey key ↔
      ¬ (key.length < 2 ∨ key[0]? ≠ some 0x5F ∨ key[1]? ≠ some regionMetaPrefix) := by
  cases key with
  | nil => simp [IsStateKey]
  | cons first rest =>
    cases rest with
    | nil => simp [IsStateKey]
    | cons second rest => simp [IsStateKey, eq_comm]

theorem not_isStateKey_of_le {later : Bytes} (atLeast : [0x5F, regionMetaPrefix] ≤ key)
    (beyond : key[0]? ≠ some 0x5F) (ordered : key ≤ later) : ¬ IsStateKey later := by
  intro isStateKey
  have first : [(0x5F : UInt8)] <+: [0x5F, regionMetaPrefix] := ⟨[regionMetaPrefix], rfl⟩
  rcases isPrefix_of_between first (first.trans isStateKey) atLeast ordered with ⟨rest, rfl⟩
  exact beyond rfl

theorem recoverFrom_filter {entries : List (Bytes × Bytes)} (ascending : Ascending entries)
    (started : ∀ entry ∈ entries, [0x5F, regionMetaPrefix] ≤ entry.1) :
    recoverFrom formats db storeId entries =
      recoverFrom formats db storeId (entries.filter fun entry => IsStateKey entry.1) := by
  induction entries with
  | nil => rfl
  | cons entry rest induction =>
    rcases pairwise_cons.mp ascending with ⟨above, restAscending⟩
    have inner := induction restAscending fun other member =>
      started other (mem_cons_of_mem entry member)
    by_cases isStateKey : IsStateKey entry.1
    · have state := isStateKey_iff.mp isStateKey
      rw [filter_cons_of_pos (by simpa using isStateKey), recoverFrom, recoverFrom,
        if_neg state, if_neg state, inner]
    · rw [filter_cons_of_neg (by simpa using isStateKey), recoverFrom,
        if_pos (not_not.mp (isStateKey_iff.not.mp isStateKey))]
      split_ifs with beyond
      · rw [filter_eq_nil_iff.mpr, recoverFrom]
        intro later member
        simpa using not_isStateKey_of_le (started entry mem_cons_self) beyond.2
          (above later member).le
      · exact inner

def stateEntry (formats : Formats) (entry : UInt64 × (Region × PeerState)) : Bytes × Bytes :=
  (stateKey entry.1, regionStateValue formats entry.2.1 entry.2.2)

theorem stateKey_lt_iff {left right : UInt64} : stateKey left < stateKey right ↔ left < right := by
  rw [stateKey, stateKey, keyWithCf, keyWithCf, nil_append, nil_append,
    cons_lt_cons_self, regionStateKey_lt_iff]

variable (holds : Holds formats db states)

include holds

theorem Holds.seek_filter :
    ((db.seek [0x5F, regionMetaPrefix]).filter fun entry => IsStateKey entry.1) =
      states.entries.map (stateEntry formats) := by
  have mapped : Ascending (states.entries.map (stateEntry formats)) :=
    pairwise_map.mpr (states.ascending.imp fun less => stateKey_lt_iff.mpr less)
  refine Ascending.eq_of_mem_iff ((db.seek_ascending _).filter _) mapped ?_
  intro entry
  rcases entry with ⟨key, value⟩
  rw [mem_filter, mem_map, mem_seek, decide_eq_true_iff]
  constructor
  · intro found
    rcases (holds.stored found.2).mp (get?_eq_some_iff.mpr found.1.1) with
      ⟨regionId, region, state, stored, rfl, rfl⟩
    exact ⟨(regionId, region, state), get?_eq_some_iff.mp stored, rfl⟩
  · intro found
    rcases found with ⟨entry, member, same⟩
    rcases Prod.mk.inj same with ⟨rfl, rfl⟩
    have isStateKey := isStateKey_stateKey entry.1
    have stored := (holds.stored isStateKey).mpr
      ⟨entry.1, entry.2.1, entry.2.2, get?_eq_some_iff.mpr member, rfl, rfl⟩
    exact ⟨⟨get?_eq_some_iff.mp stored, le_of_isPrefix isStateKey⟩, isStateKey⟩

theorem Holds.getRegionLocalState
    {entry : UInt64 × (Region × PeerState)} (stored : states.get? entry.1 = some entry.2) :
    getRegionLocalState formats db entry.1 =
      .ok (some { state := entry.2.2, regionBytes := formats.region.encode entry.2.1 }) := by
  have found : getCf db [] (regionStateKey entry.1) =
      some (regionStateValue formats entry.2.1 entry.2.2) :=
    (holds.stored (isStateKey_stateKey entry.1)).mpr ⟨_, _, _, stored, rfl, rfl⟩
  rw [Raftstore.getRegionLocalState, found]
  simp only [regionStateValue, Codec.decode_encode, Except.map]

theorem Holds.recoverFrom_map {entries : List (UInt64 × (Region × PeerState))}
    (stored : ∀ entry ∈ entries, states.get? entry.1 = some entry.2) :
    recoverFrom formats db storeId (entries.map (stateEntry formats)) =
      .ok (((entries.map Prod.snd).filter fun entry =>
        RegionStates.IsLive storeId entry).map Prod.fst) := by
  induction entries with
  | nil => rfl
  | cons entry rest induction =>
    have inner := induction fun other member => stored other (mem_cons_of_mem entry member)
    have state := isStateKey_iff.mp (isStateKey_stateKey entry.1)
    have decoded : decodeRegionMetaKey ((stateKey entry.1).drop 1) =
        .ok (entry.1, regionStateSuffix) := decodeRegionMetaKey_regionStateKey entry.1
    rw [map_cons, stateEntry, recoverFrom, if_neg state, decoded]
    simp only [holds.getRegionLocalState (stored entry mem_cons_self), inner,
      formats.region.decode_encode, map_cons, filter_cons]
    rcases entry with ⟨regionId, region, peerState⟩
    cases peerState with
    | tombstone => simp [RegionStates.IsLive]
    | normal =>
      by_cases onStore : ∃ peer ∈ region.peers, peer.storeId = storeId
      · simp [RegionStates.IsLive, onStore, bind, Except.bind, pure, Except.pure]
      · simp [RegionStates.IsLive, onStore, bind, Except.bind, pure, Except.pure]

theorem Holds.recoverRegions (storeId : UInt64) :
    recoverRegions formats db storeId = .ok (states.liveOn storeId) := by
  rw [Raftstore.recoverRegions, recoverFrom_filter (db.seek_ascending _), holds.seek_filter,
    holds.recoverFrom_map]
  · rfl
  · exact fun entry member => get?_eq_some_iff.mpr member
  · exact fun entry member => (mem_seek.mp member).2

end Found

/-! ## The live regions -/

section Live

variable {formats : Formats} {db : DB} {states : RegionStates}

theorem Holds.mem_liveOn_iff (holds : Holds formats db states) {storeId : UInt64}
    {region : Region} :
    region ∈ states.liveOn storeId ↔ states.get? region.id = some (region, .normal) ∧
      ∃ peer ∈ region.peers, peer.storeId = storeId := by
  simp only [RegionStates.liveOn, mem_map, mem_filter, decide_eq_true_iff]
  constructor
  · intro found
    rcases found with ⟨⟨other, state⟩, ⟨member, normal, onStore⟩, rfl⟩
    rcases mem_values_iff.mp member with ⟨regionId, stored⟩
    cases normal
    rw [holds.keyed stored]
    exact ⟨stored, onStore⟩
  · intro found
    exact ⟨(region, .normal), ⟨mem_values_iff.mpr ⟨_, found.1⟩, rfl, found.2⟩, rfl⟩

theorem Holds.pairwise_liveOn (holds : Holds formats db states) (storeId : UInt64) :
    ((states.liveOn storeId).map Region.id).Pairwise (· < ·) := by
  have ids : states.values.map (fun entry => entry.1.id) = states.keys := by
    rw [OrderedMap.values, OrderedMap.keys, map_map]
    exact map_congr_left fun entry member =>
      holds.keyed (get?_eq_some_iff.mpr member)
  have ordered : (states.values.map fun entry => entry.1.id).Pairwise (· < ·) := by
    rw [ids]
    exact pairwise_map.mpr states.ascending
  rw [RegionStates.liveOn, map_map]
  exact ordered.sublist (filter_sublist.map _)

/-- Whatever has been written beside them, the regions found are those whose latest state is
normal and that have a peer on the store, each once and in the order of their ids. -/
theorem recoverRegions_engineAfter (formats : Formats) (batches : List (List EngineWrite))
    (storeId : UInt64) :
    ∃ regions,
      recoverRegions formats (EngineWrite.engineAfter formats batches) storeId = .ok regions ∧
        (regions.map Region.id).Pairwise (· < ·) ∧
        ∀ region, region ∈ regions ↔
          latestState? batches.flatten region.id = some (region, .normal) ∧
            ∃ peer ∈ region.peers, peer.storeId = storeId := by
  have holds := holds_engineAfter formats batches
  refine ⟨_, holds.recoverRegions storeId, holds.pairwise_liveOn storeId, ?_⟩
  intro region
  rw [holds.mem_liveOn_iff, RegionStates.get?_after]

end Live

end AegisDB.Raftstore

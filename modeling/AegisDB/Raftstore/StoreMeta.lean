import AegisDB.Raftstore.Region

/-! # The regions of a store

`raftstore/store_meta.rs`: the regions by id, and a list of their start keys that is kept
sorted for lookups by key. The lookup looks at one candidate, the last region that starts
at or before the key. -/

namespace AegisDB.Raftstore

open Foundation Proto OrderedMap List

structure StoreMeta where
  regions : OrderedMap UInt64 Region
  regionRanges : List (Bytes × UInt64)

namespace StoreMeta

def new : StoreMeta := { regions := .empty, regionRanges := [] }

def setRegion (storeMeta : StoreMeta) (region : Region) : StoreMeta where
  regions := storeMeta.regions.insert region.id region
  regionRanges := sortByStart
    (storeMeta.regionRanges.filter (fun entry => entry.2 ≠ region.id) ++
      [(region.startKey, region.id)])

def getRegion (storeMeta : StoreMeta) (regionId : UInt64) : Option Region :=
  storeMeta.regions.get? regionId

def findRegionByKey (storeMeta : StoreMeta) (key : Bytes) : Option Region :=
  match lastStarting storeMeta.regionRanges key with
  | none => none
  | some (_, regionId) =>
    match storeMeta.regions.get? regionId with
    | none => none
    | some region => if keyInRegion key region then some region else none

def getAllRegions (storeMeta : StoreMeta) : List Region := storeMeta.regions.values

def removeRegion (storeMeta : StoreMeta) (regionId : UInt64) : StoreMeta where
  regions := storeMeta.regions.erase regionId
  regionRanges := storeMeta.regionRanges.filter fun entry => entry.2 ≠ regionId

def regionsOverlap (region other : Region) : Bool :=
  if keyInRegion region.startKey other then
    true
  else if keyInRegion other.startKey region then
    true
  else
    false

def getOverlapRegions (storeMeta : StoreMeta) (region : Region) : List Region :=
  storeMeta.regionRanges.filterMap fun entry =>
    match storeMeta.regions.get? entry.2 with
    | some existing => if regionsOverlap region existing then some existing else none
    | none => none

/-! ## The two structures stay in step -/

def rangeEntries (regions : OrderedMap UInt64 Region) : List (Bytes × UInt64) :=
  regions.entries.map fun entry => (entry.2.startKey, entry.1)

structure Synced (storeMeta : StoreMeta) : Prop where
  sorted : SortedByStart storeMeta.regionRanges
  listed : storeMeta.regionRanges.Perm (rangeEntries storeMeta.regions)
  keyed : ∀ {regionId region}, storeMeta.regions.get? regionId = some region →
    region.id = regionId

variable {storeMeta : StoreMeta} {region : Region} {regionId : UInt64} {key : Bytes}

theorem rangeEntries_erase (regions : OrderedMap UInt64 Region) (regionId : UInt64) :
    rangeEntries (regions.erase regionId) =
      (rangeEntries regions).filter fun entry => entry.2 ≠ regionId := by
  rw [rangeEntries, rangeEntries, filter_map]
  rfl

theorem rangeEntries_insert_perm (regions : OrderedMap UInt64 Region) (region : Region) :
    (rangeEntries (regions.insert region.id region)).Perm
      ((region.startKey, region.id) :: rangeEntries (regions.erase region.id)) :=
  (regions.entries_insert_perm region.id region).map _

theorem synced_new : new.Synced where
  sorted := List.Pairwise.nil
  listed := .nil
  keyed := nofun

variable (synced : storeMeta.Synced)

include synced

theorem Synced.setRegion (region : Region) :
    (storeMeta.setRegion region).Synced where
  sorted := sortedByStart_sortByStart _
  listed := by
    have kept : (storeMeta.regionRanges.filter fun entry => entry.2 ≠ region.id).Perm
        (rangeEntries (storeMeta.regions.erase region.id)) := by
      rw [rangeEntries_erase]
      exact synced.listed.filter _
    refine (sortByStart_perm _).trans ((perm_append_singleton _ _).trans ?_)
    exact (kept.cons _).trans (rangeEntries_insert_perm storeMeta.regions region).symm
  keyed := by
    intro regionId other found
    change (storeMeta.regions.insert region.id region).get? regionId = some other at found
    rw [get?_insert] at found
    split_ifs at found with same
    · cases found
      exact same.symm
    · exact synced.keyed found

theorem Synced.removeRegion (regionId : UInt64) :
    (storeMeta.removeRegion regionId).Synced where
  sorted := synced.sorted.filter _
  listed := by
    change (storeMeta.regionRanges.filter _).Perm
      (rangeEntries (storeMeta.regions.erase regionId))
    rw [rangeEntries_erase]
    exact synced.listed.filter _
  keyed := by
    intro otherId other found
    change (storeMeta.regions.erase regionId).get? otherId = some other at found
    rw [get?_erase] at found
    split at found
    · cases found
    · exact synced.keyed found

theorem Synced.ids_differ :
    storeMeta.regionRanges.Pairwise fun left right => left.2 ≠ right.2 := by
  have ids : (storeMeta.regionRanges.map Prod.snd).Perm storeMeta.regions.keys := by
    have listed := synced.listed.map Prod.snd
    rwa [rangeEntries, map_map] at listed
  exact pairwise_map.mp (ids.nodup_iff.mpr storeMeta.regions.keys_nodup)

theorem Synced.mem_regionRanges {startKey : Bytes} :
    (startKey, regionId) ∈ storeMeta.regionRanges ↔
      ∃ region, storeMeta.regions.get? regionId = some region ∧ region.startKey = startKey := by
  rw [synced.listed.mem_iff, rangeEntries, mem_map]
  constructor
  · intro listed
    rcases listed with ⟨⟨otherId, region⟩, member, same⟩
    rcases Prod.mk.inj same with ⟨rfl, rfl⟩
    exact ⟨region, get?_eq_some_iff.mpr member, rfl⟩
  · intro stored
    rcases stored with ⟨region, found, rfl⟩
    exact ⟨(regionId, region), get?_eq_some_iff.mp found, rfl⟩

/-! ## Routing -/

def Stores (storeMeta : StoreMeta) (region : Region) : Prop :=
  storeMeta.regions.get? region.id = some region

/-- The regions of the store are ranges of keys that do not overlap. -/
structure Disjoint (storeMeta : StoreMeta) : Prop where
  nonEmpty : ∀ {region}, storeMeta.Stores region → region.range.NonEmpty
  separate : ∀ {region other}, storeMeta.Stores region → storeMeta.Stores other →
    region.id ≠ other.id → region.range.Separate other.range

theorem of_findRegionByKey
    (found : storeMeta.findRegionByKey key = some region) :
    storeMeta.Stores region ∧ region.range.Contains key := by
  rw [findRegionByKey] at found
  split at found
  · cases found
  · split at found
    · cases found
    · rename_i regionId _ candidate stored
      split at found
      · rename_i inRange
        cases found
        rw [Stores, synced.keyed stored]
        exact ⟨stored, keyInRegion_iff.mp inRange⟩
      · cases found

theorem findRegionByKey_eq_some_iff (disjoint : storeMeta.Disjoint) :
    storeMeta.findRegionByKey key = some region ↔
      storeMeta.Stores region ∧ region.range.Contains key := by
  constructor
  · exact of_findRegionByKey synced
  · intro ⟨stored, contains⟩
    have listed : (region.startKey, region.id) ∈ storeMeta.regionRanges :=
      synced.mem_regionRanges.mpr ⟨region, stored, rfl⟩
    rcases exists_lastStarting synced.sorted listed contains.1 with
      ⟨⟨startKey, lastId⟩, last, later⟩
    rcases mem_of_lastStarting last with ⟨lastListed, started⟩
    rcases synced.mem_regionRanges.mp lastListed with ⟨lastRegion, lastFound, rfl⟩
    have lastStored : storeMeta.Stores lastRegion := by
      rw [Stores, synced.keyed lastFound]
      exact lastFound
    have same : region.id = lastId := by
      by_contra different
      rw [← synced.keyed lastFound] at different
      exact (disjoint.separate stored lastStored different).not_contains
        (disjoint.nonEmpty lastStored) later started contains
    subst same
    rw [stored] at lastFound
    cases lastFound
    have found : storeMeta.regions.get? region.id = some region := stored
    simp only [findRegionByKey, last, found, keyInRegion_iff.mpr contains, if_true]

/-! ## Overlaps -/

omit synced in
theorem regionsOverlap_iff {region other : Region} (nonEmpty : region.range.NonEmpty)
    (otherNonEmpty : other.range.NonEmpty) :
    regionsOverlap region other = true ↔
      ∃ key, region.range.Contains key ∧ other.range.Contains key := by
  rw [KeyRange.exists_contains_iff nonEmpty otherNonEmpty]
  change _ ↔ other.range.Contains region.startKey ∨ region.range.Contains other.startKey
  rw [← keyInRegion_iff, ← keyInRegion_iff, regionsOverlap]
  cases keyInRegion region.startKey other <;> simp

theorem mem_getOverlapRegions_iff {other : Region} :
    other ∈ storeMeta.getOverlapRegions region ↔
      storeMeta.Stores other ∧ regionsOverlap region other = true := by
  rw [getOverlapRegions, mem_filterMap]
  constructor
  · intro ⟨⟨startKey, regionId⟩, listed, found⟩
    dsimp only at found
    split at found
    · rename_i existing stored
      split at found
      · rename_i overlaps
        cases found
        rw [Stores, synced.keyed stored]
        exact ⟨stored, overlaps⟩
      · cases found
    · cases found
  · intro ⟨stored, overlaps⟩
    have found : storeMeta.regions.get? other.id = some other := stored
    refine ⟨(other.startKey, other.id), synced.mem_regionRanges.mpr ⟨other, stored, rfl⟩, ?_⟩
    simp only [found, overlaps, if_true]

theorem getOverlapRegions_nodup (region : Region) :
    (storeMeta.getOverlapRegions region).Nodup := by
  -- What an entry gives has the id of the entry.
  have idOf : ∀ {entry : Bytes × UInt64} {existing : Region},
      (match storeMeta.regions.get? entry.2 with
        | some existing => if regionsOverlap region existing then some existing else none
        | none => none) = some existing → existing.id = entry.2 := by
    intro entry existing found
    split at found
    · rename_i candidate stored
      split at found
      · cases found
        exact synced.keyed stored
      · cases found
    · cases found
  apply List.Pairwise.filterMap _ _ synced.ids_differ
  intro left right differ first isFirst second isSecond same
  apply differ
  rw [← idOf isFirst, ← idOf isSecond, same]

end StoreMeta

/-! ## Sequences of calls -/

inductive MetaCall where
  | setRegion (region : Region)
  | removeRegion (regionId : UInt64)

namespace StoreMeta

def act (storeMeta : StoreMeta) : MetaCall → StoreMeta
  | .setRegion region => storeMeta.setRegion region
  | .removeRegion regionId => storeMeta.removeRegion regionId

def after (calls : List MetaCall) : StoreMeta := calls.foldl act new

theorem Synced.act {storeMeta : StoreMeta} (synced : storeMeta.Synced) (call : MetaCall) :
    (storeMeta.act call).Synced := by
  cases call with
  | setRegion region => exact synced.setRegion region
  | removeRegion regionId => exact synced.removeRegion regionId

theorem synced_after (calls : List MetaCall) : (after calls).Synced := by
  have run : ∀ {storeMeta : StoreMeta}, storeMeta.Synced →
      (calls.foldl StoreMeta.act storeMeta).Synced := by
    induction calls with
    | nil => exact fun synced => synced
    | cons call rest induction => exact fun synced => induction (synced.act call)
  exact run synced_new

/-- Whatever has been set and removed, the list of start keys is sorted and has one entry
for each region; and a lookup finds the region that contains the key, if the regions do
not overlap. -/
theorem routes_by_key (calls : List MetaCall) :
    SortedByStart (after calls).regionRanges ∧
      (after calls).regionRanges.Perm (rangeEntries (after calls).regions) ∧
      ((after calls).Disjoint → ∀ key region,
        (after calls).findRegionByKey key = some region ↔
          (after calls).Stores region ∧ region.range.Contains key) := by
  have synced := synced_after calls
  exact ⟨synced.sorted, synced.listed, fun disjoint _ _ =>
    findRegionByKey_eq_some_iff synced disjoint⟩

/-- Of ranges that are not empty, the overlap test finds out whether they share a key, and the
stored regions that overlap a range are those that share a key with it, each one once. -/
theorem overlaps_exactly (calls : List MetaCall) :
    (∀ region other : Region, region.range.NonEmpty → other.range.NonEmpty →
      (regionsOverlap region other = true ↔
        ∃ key, region.range.Contains key ∧ other.range.Contains key)) ∧
    ∀ region : Region, region.range.NonEmpty →
      (∀ stored, (after calls).Stores stored → stored.range.NonEmpty) →
      ((after calls).getOverlapRegions region).Nodup ∧
      ∀ other, other ∈ (after calls).getOverlapRegions region ↔
        (after calls).Stores other ∧
          ∃ key, region.range.Contains key ∧ other.range.Contains key := by
  have synced := synced_after calls
  constructor
  · intro region other
    exact regionsOverlap_iff
  · intro region nonEmpty allNonEmpty
    refine ⟨getOverlapRegions_nodup synced region, fun other => ?_⟩
    rw [mem_getOverlapRegions_iff synced]
    constructor
    · intro ⟨stored, overlaps⟩
      exact ⟨stored, (regionsOverlap_iff nonEmpty (allNonEmpty other stored)).mp overlaps⟩
    · intro ⟨stored, shared⟩
      exact ⟨stored, (regionsOverlap_iff nonEmpty (allNonEmpty other stored)).mpr shared⟩

def twoRegions : List MetaCall :=
  [.setRegion { id := 2, startKey := [0x6D], endKey := [], regionEpoch := none, peers := [] },
    .setRegion { id := 1, startKey := [], endKey := [0x6D], regionEpoch := none, peers := [] }]

theorem stores_twoRegions {region : Region} (stored : (after twoRegions).Stores region) :
    region = { id := 1, startKey := [], endKey := [0x6D], regionEpoch := none, peers := [] } ∨
      region = { id := 2, startKey := [0x6D], endKey := [], regionEpoch := none, peers := [] } := by
  have member := get?_eq_some_iff.mp stored
  rcases mem_cons.mp member with first | second
  · exact .inl (Prod.mk.inj first).2
  · exact .inr (Prod.mk.inj (mem_singleton.mp second)).2

theorem disjoint_twoRegions : (after twoRegions).Disjoint where
  nonEmpty := by
    intro region stored
    rcases stores_twoRegions stored with rfl | rfl
    · decide
    · decide
  separate := by
    intro region other stored otherStored different key contains otherContains
    rw [Region.contains_range_iff] at contains otherContains
    rcases stores_twoRegions stored with rfl | rfl
    · rcases stores_twoRegions otherStored with rfl | rfl
      · exact different rfl
      · exact absurd otherContains.1 (not_le.mpr (contains.2 (by decide)))
    · rcases stores_twoRegions otherStored with rfl | rfl
      · exact absurd contains.1 (not_le.mpr (otherContains.2 (by decide)))
      · exact different rfl

def acrossBoth : Region where
  id := 3
  startKey := [0x61]
  endKey := [0x70]
  regionEpoch := none
  peers := []

theorem overlaps_exactly_twoRegions :
    acrossBoth.range.NonEmpty ∧
      (∀ stored, (after twoRegions).Stores stored → stored.range.NonEmpty) ∧
      ((after twoRegions).getOverlapRegions acrossBoth).Nodup ∧
      ∀ other, other ∈ (after twoRegions).getOverlapRegions acrossBoth ↔
        (after twoRegions).Stores other ∧
          ∃ key, acrossBoth.range.Contains key ∧ other.range.Contains key := by
  have nonEmpty : acrossBoth.range.NonEmpty := by decide
  have allNonEmpty : ∀ stored, (after twoRegions).Stores stored → stored.range.NonEmpty :=
    fun _ stored => disjoint_twoRegions.nonEmpty stored
  exact ⟨nonEmpty, allNonEmpty,
    (overlaps_exactly twoRegions).2 acrossBoth nonEmpty allNonEmpty⟩

theorem routes_by_key_twoRegions :
    (after twoRegions).Disjoint ∧ ∀ key region,
      (after twoRegions).findRegionByKey key = some region ↔
        (after twoRegions).Stores region ∧ region.range.Contains key :=
  ⟨disjoint_twoRegions, (routes_by_key twoRegions).2.2 disjoint_twoRegions⟩

end StoreMeta

end AegisDB.Raftstore

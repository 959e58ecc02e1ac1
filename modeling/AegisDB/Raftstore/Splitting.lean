import AegisDB.Raftstore.Admin

/-! # Splits at the start of a region

The test of a split key is that of membership, which the start key of a region passes. A split
there leaves a region without keys, and two regions with one start key: whichever of them is
registered last is the one that lookups see. -/

namespace AegisDB.Raftstore

open Foundation Proto

namespace StoreMeta

variable {storeMeta : StoreMeta}

def DistinctStarts (storeMeta : StoreMeta) : Prop :=
  ∀ region other, storeMeta.Stores region → storeMeta.Stores other →
    region.startKey = other.startKey → region = other

def RoutesCorrectly (storeMeta : StoreMeta) : Prop :=
  ∀ key region, storeMeta.findRegionByKey key = some region ↔
    storeMeta.Stores region ∧ region.range.Contains key

def register (storeMeta : StoreMeta) (regions : List Region) : StoreMeta :=
  regions.foldl setRegion storeMeta

theorem Disjoint.distinctStarts (disjoint : storeMeta.Disjoint) : storeMeta.DistinctStarts := by
  intro region other stored otherStored sameStart
  by_cases sameId : region.id = other.id
  · rw [Stores, sameId, otherStored] at stored
    exact (Option.some.inj stored).symm
  · have inRegion : region.range.Contains region.startKey :=
      KeyRange.contains_start_iff.mpr (disjoint.nonEmpty stored)
    have inOther : other.range.Contains other.startKey :=
      KeyRange.contains_start_iff.mpr (disjoint.nonEmpty otherStored)
    rw [← sameStart] at inOther
    exact absurd inOther (disjoint.separate stored otherStored sameId _ inRegion)

theorem Synced.register (synced : storeMeta.Synced) (regions : List Region) :
    (storeMeta.register regions).Synced := by
  induction regions generalizing storeMeta with
  | nil => exact synced
  | cons region rest induction => exact induction (synced.setRegion region)

theorem of_stores_register {regions : List Region} {other : Region}
    (stored : (storeMeta.register regions).Stores other) :
    other ∈ regions ∨ storeMeta.Stores other := by
  induction regions generalizing storeMeta with
  | nil => exact .inr stored
  | cons region rest induction =>
    rcases induction stored with inRest | before
    · exact .inl (List.mem_cons_of_mem region inRest)
    · rcases stores_setRegion_iff.mp before with rfl | ⟨_, old⟩
      · exact .inl List.mem_cons_self
      · exact .inr old

theorem Stores.register {region : Region} {regions : List Region}
    (stored : storeMeta.Stores region) (same : ∀ other ∈ regions, other.id = region.id →
      other = region) : (storeMeta.register regions).Stores region := by
  induction regions generalizing storeMeta with
  | nil => exact stored
  | cons first rest induction =>
    apply induction
    · apply stores_setRegion_iff.mpr
      by_cases isFirst : region = first
      · exact .inl isFirst
      · refine .inr ⟨fun sameId => isFirst ?_, stored⟩
        exact (same first List.mem_cons_self sameId.symm).symm
    · exact fun other member => same other (List.mem_cons_of_mem first member)

section TwoRegions

variable {left right : Region} {again : List Region}

theorem of_stores_again (either : ∀ other ∈ again, other = left ∨ other = right) {other : Region}
    (stored : (((storeMeta.setRegion left).setRegion right).register again).Stores other) :
    other = left ∨ other = right ∨ other.id ≠ left.id ∧ storeMeta.Stores other := by
  rcases of_stores_register stored with inAgain | before
  · rcases either other inAgain with isLeft | isRight
    · exact .inl isLeft
    · exact .inr (.inl isRight)
  · rcases stores_setRegion_iff.mp before with isRight | ⟨_, earlier⟩
    · exact .inr (.inl isRight)
    · rcases stores_setRegion_iff.mp earlier with isLeft | old
      · exact .inl isLeft
      · exact .inr (.inr old)

theorem stores_again (either : ∀ other ∈ again, other = left ∨ other = right)
    (different : left.id ≠ right.id) :
    (((storeMeta.setRegion left).setRegion right).register again).Stores left ∧
      (((storeMeta.setRegion left).setRegion right).register again).Stores right := by
  constructor
  · apply Stores.register
    · exact stores_setRegion_iff.mpr (.inr ⟨different, stores_setRegion_iff.mpr (.inl rfl)⟩)
    · intro other inAgain sameId
      rcases either other inAgain with isLeft | isRight
      · exact isLeft
      · rw [isRight] at sameId
        exact absurd sameId.symm different
  · apply Stores.register (stores_setRegion_iff.mpr (.inl rfl))
    intro other inAgain sameId
    rcases either other inAgain with isLeft | isRight
    · rw [isLeft] at sameId
      exact absurd sameId different
    · exact isRight

end TwoRegions

end StoreMeta

/-! ## Both regions have keys -/

structure SplitsCleanly (before after : StoreMeta) (region left right : Region) : Prop where
  leftNonEmpty : left.range.NonEmpty
  rightNonEmpty : right.range.NonEmpty
  registered : before.Disjoint → before.Stores region →
    ∀ again : List Region, (∀ other ∈ again, other = left ∨ other = right) →
      (after.register again).DistinctStarts ∧ (after.register again).RoutesCorrectly ∧
      (left.id ≠ right.id →
        (after.register again).Stores left ∧ (after.register again).Stores right)

namespace AdminHandler

variable {storeMeta : StoreMeta} {region newRegion : Region} {request : SplitRequest}

theorem splitsCleanly_of_lt (synced : storeMeta.Synced) (notEmpty : request.splitKey ≠ [])
    (inside : region.range.Contains request.splitKey)
    (created : CreatesRegion region request newRegion)
    (below : region.startKey < request.splitKey) :
    SplitsCleanly storeMeta
      ((storeMeta.setRegion (updateRegionRange region request.splitKey)).setRegion newRegion)
      region (updateRegionRange region request.splitKey) newRegion where
  leftNonEmpty := by
    rw [range_updateRegionRange region notEmpty]
    intro stop isStop
    cases isStop
    exact below
  rightNonEmpty := by
    rw [created.range]
    exact .of_contains ((KeyRange.contains_onward_iff inside).mpr ⟨inside, le_rfl⟩)
  registered := by
    intro disjoint stored again either
    have parts : StoreMeta.Parts storeMeta region (updateRegionRange region request.splitKey)
        newRegion :=
      .of_cut stored inside below (range_updateRegionRange region notEmpty) created.range
    have disjointAfter := parts.disjoint disjoint (StoreMeta.of_stores_again either)
    have syncedAfter := ((synced.setRegion (updateRegionRange region request.splitKey)).setRegion
      newRegion).register again
    exact ⟨disjointAfter.distinctStarts, fun key other =>
      StoreMeta.findRegionByKey_eq_some_iff syncedAfter disjointAfter,
      StoreMeta.stores_again either⟩

/-- An accepted split gives two regions that have keys, and that may be registered again in any
order, exactly if the split key is not the start key. A region in which a split key is
accepted has keys itself. -/
theorem splits_cleanly_iff (calls : List MetaCall) (handler : AdminHandler) (region : Region)
    (request : SplitRequest) (after : StoreMeta) (response : AdminResponse)
    (accepted : handler.executeSplit (StoreMeta.after calls) region request =
      (after, .ok response)) :
    (∃ left right, response.split = some { regions := [left, right] } ∧
      SplitsCleanly (StoreMeta.after calls) after region left right) ↔
      request.splitKey ≠ region.startKey := by
  rcases ok_of_executeSplit accepted with
    ⟨notEmpty, inside, newRegion, created, rfl, returned⟩
  constructor
  · intro ⟨left, right, isReturned, clean⟩ atStart
    rw [returned] at isReturned
    cases isReturned
    -- The range from a key to the same key is empty.
    have nonEmpty := clean.leftNonEmpty
    rw [range_updateRegionRange region notEmpty] at nonEmpty
    have below := nonEmpty request.splitKey rfl
    rw [atStart] at below
    exact lt_irrefl _ below
  · intro notStart
    have below := lt_of_le_of_ne inside.1 notStart.symm
    exact ⟨_, newRegion, returned,
      splitsCleanly_of_lt (StoreMeta.synced_after calls) notEmpty inside created below⟩

theorem splits_cleanly_twoRegions :
    ∃ left right, SplitsCleanly (StoreMeta.after StoreMeta.twoRegions)
      (oneStore.executeSplit (StoreMeta.after StoreMeta.twoRegions)
        { id := 1, startKey := [], endKey := [0x6D], regionEpoch := none, peers := [] }
        { splitKey := [0x61], newRegionId := 3, newPeerIds := [7] }).1
      { id := 1, startKey := [], endKey := [0x6D], regionEpoch := none, peers := [] }
      left right := by
  rcases (splits_cleanly_iff StoreMeta.twoRegions oneStore
      { id := 1, startKey := [], endKey := [0x6D], regionEpoch := none, peers := [] }
      { splitKey := [0x61], newRegionId := 3, newPeerIds := [7] } _ _ rfl).mpr (by decide) with
    ⟨left, right, _, clean⟩
  exact ⟨left, right, clean⟩

def splitAtStart : StoreMeta × Fallible AdminResponse :=
  oneStore.executeSplit (StoreMeta.after StoreMeta.twoRegions)
    { id := 2, startKey := [0x6D], endKey := [], regionEpoch := none, peers := [] }
    { splitKey := [0x6D], newRegionId := 3, newPeerIds := [7] }

def emptied : Region where
  id := 2
  startKey := [0x6D]
  endKey := [0x6D]
  regionEpoch := some { confVer := 0, version := 1 }
  peers := []

def takenOver : Region where
  id := 3
  startKey := [0x6D]
  endKey := []
  regionEpoch := some { confVer := 1, version := 1 }
  peers := [{ id := 7, storeId := 1 }]

/-- The split is accepted and leaves an empty region. A key is found in the new region, until
the old one is registered again: then it is not found, although the new region is stored and
contains it. -/
theorem split_at_start_hides_keys :
    splitAtStart.2.toOption =
      some { cmdType := 10, split := some { regions := [emptied, takenOver] } } ∧
    ¬ emptied.range.NonEmpty ∧
    splitAtStart.1.findRegionByKey [0x6E] = some takenOver ∧
    (splitAtStart.1.setRegion emptied).findRegionByKey [0x6E] = none ∧
    (splitAtStart.1.setRegion emptied).getRegion 3 = some takenOver ∧
    takenOver.range.Contains [0x6E] := by
  decide

end AdminHandler

end AegisDB.Raftstore

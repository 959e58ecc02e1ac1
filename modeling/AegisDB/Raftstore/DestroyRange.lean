import AegisDB.Raftstore.Snapshot

/-! # Destroying the data of a region

`destroy_range` compares the bounds of users' keys with raw keys of the engine. The raw key of a
user's key begins with the name of its family, and that of a region state or apply state with
an underscore, which is not below the byte by which metadata is recognised. -/

namespace AegisDB.Raftstore

open Foundation EngineUtil Proto

def IsUserKey (raw : Bytes) : Prop :=
  ∃ (cf : Storage.Cf) (key : Bytes), raw = keyWithCf cf.bytes key

/-- The users' keys between the bounds are gone, and everything else is read as before. -/
structure DestroysExactly (formats : Formats) (db : DB) (startKey endKey : Bytes) : Prop where
  users : ∀ (cf : Storage.Cf) (key : Bytes),
    getCf (destroyRange db startKey endKey) cf.bytes key =
      if (keysBetween startKey endKey).Contains key then none else getCf db cf.bytes key
  others : ∀ raw, ¬ IsUserKey raw → (destroyRange db startKey endKey).get? raw = db.get? raw
  regionStates : ∀ regionId,
    getRegionLocalState formats (destroyRange db startKey endKey) regionId =
      getRegionLocalState formats db regionId
  applyStates : ∀ regionId,
    getApplyState formats (destroyRange db startKey endKey) regionId =
      getApplyState formats db regionId

/-- It makes no difference to these entries that raw keys are compared. -/
structure BoundsFitRawKeys (db : DB) (startKey endKey : Bytes) : Prop where
  users : ∀ (cf : Storage.Cf) (key value : Bytes), getCf db cf.bytes key = some value →
    ((keysBetween startKey endKey).Contains (keyWithCf cf.bytes key) ↔
      (keysBetween startKey endKey).Contains key)
  others : ∀ raw value, db.get? raw = some value → ¬ IsUserKey raw →
    (keysBetween startKey endKey).Contains raw → isMetadataKey raw = true

section Destroying

variable {formats : Formats} {db : DB} {startKey endKey : Bytes}

theorem get?_destroyRange_keysBetween (raw : Bytes) :
    (destroyRange db startKey endKey).get? raw =
      if (keysBetween startKey endKey).Contains raw ∧ isMetadataKey raw = false then none
      else db.get? raw :=
  get?_destroyRange db { id := 0, startKey, endKey, regionEpoch := none, peers := [] } raw

theorem getCf_destroyRange (cf : Storage.Cf) (key : Bytes) :
    getCf (destroyRange db startKey endKey) cf.bytes key =
      if (keysBetween startKey endKey).Contains (keyWithCf cf.bytes key) then none
      else getCf db cf.bytes key := by
  rw [getCf, get?_destroyRange_keysBetween]
  simp only [isMetadataKey_keyWithCf, and_true]
  rfl

theorem not_isUserKey_metadata (key : Bytes) : ¬ IsUserKey (keyWithCf [] key) := by
  intro ⟨cf, userKey, same⟩
  rcases head?_keyWithCf cf userKey with ⟨first, head, above⟩
  rw [← same] at head
  cases head
  exact absurd above (by decide)

theorem DestroysExactly.of_boundsFit (fit : BoundsFitRawKeys db startKey endKey) :
    DestroysExactly formats db startKey endKey := by
  have others : ∀ raw, ¬ IsUserKey raw →
      (destroyRange db startKey endKey).get? raw = db.get? raw := by
    intro raw notUser
    rw [get?_destroyRange_keysBetween]
    split_ifs with scanned
    · cases found : db.get? raw with
      | none => rfl
      | some value =>
        have isMetadata := fit.others raw value found notUser scanned.1
        rw [scanned.2] at isMetadata
        cases isMetadata
    · rfl
  refine ⟨fun cf key => ?_, others, fun regionId => ?_, fun regionId => ?_⟩
  · rw [getCf_destroyRange]
    cases found : getCf db cf.bytes key with
    | none => rw [ite_self, ite_self]
    | some value => simp only [fit.users cf key value found]
  · rw [getRegionLocalState, getCf, others _ (not_isUserKey_metadata _)]
    rfl
  · rw [getApplyState, getCf, others _ (not_isUserKey_metadata _)]
    rfl

theorem DestroysExactly.boundsFit (exactly : DestroysExactly formats db startKey endKey) :
    BoundsFitRawKeys db startKey endKey where
  users := by
    intro cf key value found
    have read := exactly.users cf key
    rw [getCf_destroyRange, found] at read
    constructor
    · intro scanned
      by_contra outside
      rw [if_pos scanned, if_neg outside] at read
      cases read
    · intro inside
      by_contra notScanned
      rw [if_neg notScanned, if_pos inside] at read
      cases read
  others := by
    intro raw value found notUser scanned
    have read := exactly.others raw notUser
    rw [get?_destroyRange_keysBetween, found] at read
    by_contra notMetadata
    rw [if_pos ⟨scanned, Bool.not_eq_true _ ▸ notMetadata⟩] at read
    cases read

end Destroying

/-- Exactly the data of the range is destroyed just when each user's key is between the bounds
together with its raw key, and no raw key of another entry is, apart from recognised ones. -/
theorem destroys_exactly_iff (formats : Formats) (db : DB) (startKey endKey : Bytes) :
    DestroysExactly formats db startKey endKey ↔ BoundsFitRawKeys db startKey endKey :=
  ⟨DestroysExactly.boundsFit, DestroysExactly.of_boundsFit⟩

/-- The key of the region is not destroyed with the range of the region; with all keys, the
state of the region is destroyed as well. -/
theorem destroy_misses_letter :
    getCf letterEngine Storage.Cf.default.bytes [0x61] = some [0x01] ∧
    (keysBetween letterRegion.startKey letterRegion.endKey).Contains [0x61] ∧
    getCf (destroyRange letterEngine letterRegion.startKey letterRegion.endKey)
      Storage.Cf.default.bytes [0x61] = some [0x01] ∧
    getRegionLocalState .plain letterEngine 1 = .ok (some
      { state := .normal, regionBytes := Formats.plain.region.encode letterRegion }) ∧
    getRegionLocalState .plain (destroyRange letterEngine [] []) 1 = .ok none :=
  ⟨rfl, by decide, rfl, rfl, rfl⟩

end AegisDB.Raftstore

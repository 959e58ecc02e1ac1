import AegisDB.Storage.NamedIterator
import AegisDB.Util.MultiLevelKey

/-! # Requests for keys in two levels

`server/multi_level_api.rs` over the storage with a cache: the region of the request is the
primary key. A scan stops at the first key that is longer than its end key, and every full
key is: the end key lacks the length in front of the primary key. -/

namespace AegisDB.Server

open Foundation Storage Util OrderedMap List

def fullKey (regionId : UInt64) (secondaryKey : Bytes) : Bytes :=
  encodeMultiLevelKey (primaryKeyFromRegionId regionId) secondaryKey

section Requests

variable {σ : Type} [Cache σ (List Char) Bytes]

def multiLevelPut (storage : StandaloneStorage σ) (cf : CfName) (regionId : UInt64)
    (secondaryKey value : Bytes) : StandaloneStorage σ :=
  storage.writeNamed [.put (fullKey regionId secondaryKey) value cf]

def multiLevelGet (storage : StandaloneStorage σ) (cf : CfName) (regionId : UInt64)
    (secondaryKey : Bytes) : Option Bytes × StandaloneStorage σ :=
  storage.getNamed cf (fullKey regionId secondaryKey)

def multiLevelDelete (storage : StandaloneStorage σ) (cf : CfName) (regionId : UInt64)
    (secondaryKey : Bytes) : StandaloneStorage σ :=
  storage.writeNamed [.delete (fullKey regionId secondaryKey) cf]

def endKey (regionId : UInt64) : Bytes := primaryKeyFromRegionId regionId ++ [0xFF, 0xFF]

def exceeds (regionId : UInt64) (key : Bytes) : Bool :=
  key.length > (endKey regionId).length ||
    (key.length == (endKey regionId).length && endKey regionId < key)

def collectRegion (cf : CfName) (regionId : UInt64) :
    (remaining : List (Bytes × Bytes)) → (limit : Nat) → Fallible (List (Bytes × Bytes))
  | [], _ => .ok []
  | entry :: rest, limit =>
    if cf.shows entry ∧ 0 < limit then do
      let key ← cf.itemKey entry
      if exceeds regionId key then .ok []
      else
        match decodeMultiLevelKey key with
        | .ok (decodedPrimary, secondaryKey) =>
          if decodedPrimary = primaryKeyFromRegionId regionId then do
            let kvs ← collectRegion cf regionId rest (limit - 1)
            return (secondaryKey, entry.2) :: kvs
          else .ok []
        | .error (.error _) => collectRegion cf regionId rest limit
        | .error (.panic message) => .error (.panic message)
    else .ok []

def multiLevelScan (storage : StandaloneStorage σ) (cf : CfName) (regionId : UInt64)
    (startSecondaryKey : Bytes) (limit : Nat) : Fallible (List (Bytes × Bytes)) :=
  collectRegion cf regionId
    ((NamedIterator.new storage.db cf).seek (fullKey regionId startSecondaryKey)).remaining limit

end Requests

/-! ## Full keys -/

theorem exceeds_fullKey (regionId otherId : UInt64) (secondaryKey : Bytes) :
    exceeds regionId (fullKey otherId secondaryKey) = true := by
  have long : (fullKey otherId secondaryKey).length > (endKey regionId).length := by
    rw [fullKey, length_encodeMultiLevelKey, length_primaryKeyFromRegionId, endKey,
      length_append, length_primaryKeyFromRegionId, length_cons, length_singleton]
    omega
  rw [exceeds, decide_eq_true long, Bool.true_or]

/-! ## Calls -/

inductive MultiLevelCall where
  | put (regionId : UInt64) (secondaryKey value : Bytes)
  | delete (regionId : UInt64) (secondaryKey : Bytes)
deriving DecidableEq, Repr

namespace MultiLevelCall

def regionId : MultiLevelCall → UInt64
  | .put regionId _ _ => regionId
  | .delete regionId _ => regionId

def secondaryKey : MultiLevelCall → Bytes
  | .put _ secondaryKey _ => secondaryKey
  | .delete _ secondaryKey => secondaryKey

def value : MultiLevelCall → Option Bytes
  | .put _ _ value => some value
  | .delete _ _ => none

variable {σ : Type} [Cache σ (List Char) Bytes]

def act (cf : CfName) (storage : StandaloneStorage σ) : MultiLevelCall → StandaloneStorage σ
  | .put regionId secondaryKey value => multiLevelPut storage cf regionId secondaryKey value
  | .delete regionId secondaryKey => multiLevelDelete storage cf regionId secondaryKey

def note (region : UInt64) (live : OrderedMap Bytes Bytes) (call : MultiLevelCall) :
    OrderedMap Bytes Bytes :=
  if call.regionId = region then
    match call.value with
    | some value => live.insert call.secondaryKey value
    | none => live.erase call.secondaryKey
  else live

def live (calls : List MultiLevelCall) (region : UInt64) : OrderedMap Bytes Bytes :=
  calls.foldl (note region) .empty

theorem get?_act (cf : CfName) (storage : StandaloneStorage σ) (call : MultiLevelCall)
    (key : Bytes) :
    (act cf storage call).db.get? key =
      if cf.keyWithCf (fullKey call.regionId call.secondaryKey) = key then call.value
      else storage.db.get? key := by
  cases call with
  | put regionId secondaryKey value =>
    exact NamedModify.get?_apply storage.db (.put (fullKey regionId secondaryKey) value cf) key
  | delete regionId secondaryKey =>
    exact NamedModify.get?_apply storage.db (.delete (fullKey regionId secondaryKey) cf) key

end MultiLevelCall

/-! ## The family after the calls -/

section Runs

variable {σ : Type} [Cache σ (List Char) Bytes] {storage : StandaloneStorage σ} {cf : CfName}
  {calls : List MultiLevelCall}

def Unused (db : OrderedMap Bytes Bytes) (cf : CfName) : Prop :=
  ∀ entry ∈ db.entries, ¬ cf.shows entry = true

instance decidableUnused (db : OrderedMap Bytes Bytes) (cf : CfName) : Decidable (Unused db cf) :=
  inferInstanceAs (Decidable (∀ entry ∈ db.entries, ¬ cf.shows entry = true))

theorem exists_fullKey_of_shows (unused : Unused storage.db cf) (calls : List MultiLevelCall)
    {entry : Bytes × Bytes}
    (member : entry ∈ (calls.foldl (MultiLevelCall.act cf) storage).db.entries)
    (shown : cf.shows entry = true) :
    ∃ regionId secondaryKey, entry.1 = cf.keyWithCf (fullKey regionId secondaryKey) := by
  induction calls using List.reverseRecOn with
  | nil => exact absurd shown (unused entry member)
  | append_singleton earlier call induction =>
    rw [foldl_append, foldl_cons, foldl_nil] at member
    by_cases isNew : cf.keyWithCf (fullKey call.regionId call.secondaryKey) = entry.1
    · exact ⟨call.regionId, call.secondaryKey, isNew.symm⟩
    · apply induction
      have present := get?_eq_some_iff.mpr member
      rw [MultiLevelCall.get?_act, if_neg isNew] at present
      exact get?_eq_some_iff.mp present

theorem multiLevelScan_eq_nil (unused : Unused storage.db cf) (calls : List MultiLevelCall)
    (regionId : UInt64) (startSecondaryKey : Bytes) (limit : Nat) :
    multiLevelScan (calls.foldl (MultiLevelCall.act cf) storage) cf regionId startSecondaryKey
      limit = .ok [] := by
  rw [multiLevelScan]
  change collectRegion cf regionId ((calls.foldl (MultiLevelCall.act cf) storage).db.seek
    (cf.prefixBytes ++ fullKey regionId startSecondaryKey)) limit = .ok []
  cases found : (calls.foldl (MultiLevelCall.act cf) storage).db.seek
      (cf.prefixBytes ++ fullKey regionId startSecondaryKey) with
  | nil => rfl
  | cons entry rest =>
    rw [collectRegion]
    split_ifs with going
    · have member := (mem_seek.mp (found ▸ mem_cons_self)).1
      rcases exists_fullKey_of_shows unused calls member going.1 with ⟨otherId, key, same⟩
      have cut : cf.itemKey entry = .ok (fullKey otherId key) := by
        rw [show entry = (cf.keyWithCf (fullKey otherId key), entry.2) by rw [← same]]
        exact cf.itemKey_append _ _
      simp only [cut, bind, Except.bind, exceeds_fullKey, if_true]
    · rfl

/-- A scan is right only where nothing is to be found. -/
theorem multiLevelScan_lists_iff (storage : StandaloneStorage σ) (cf : CfName)
    (unused : Unused storage.db cf) (calls : List MultiLevelCall) (regionId : UInt64)
    (startSecondaryKey : Bytes) (limit : Nat) :
    multiLevelScan (calls.foldl (MultiLevelCall.act cf) storage) cf regionId startSecondaryKey
        limit = .ok (((MultiLevelCall.live calls regionId).seek startSecondaryKey).take limit) ↔
      limit = 0 ∨ ∀ secondaryKey value,
        (MultiLevelCall.live calls regionId).get? secondaryKey = some value →
          secondaryKey < startSecondaryKey := by
  rw [multiLevelScan_eq_nil unused, Except.ok.injEq, eq_comm, take_eq_nil_iff]
  apply or_congr Iff.rfl
  rw [eq_nil_iff_forall_not_mem]
  constructor
  · intro nothing secondaryKey value present
    by_contra atLeast
    exact nothing (secondaryKey, value)
      (mem_seek.mpr ⟨get?_eq_some_iff.mp present, not_lt.mp atLeast⟩)
  · intro below entry member
    rcases mem_seek.mp member with ⟨present, atLeast⟩
    exact absurd (below entry.1 entry.2 (get?_eq_some_iff.mpr present))
      (not_lt.mpr atLeast)

theorem multiLevelScan_lists_below_start :
    multiLevelScan ([.put 1 [5] [50], .put 2 [9] [90]].foldl (MultiLevelCall.act Cf.default.name)
        (.new (newCache 1000 (by decide)))) Cf.default.name 1 [6] 10 =
      .ok (((MultiLevelCall.live [.put 1 [5] [50], .put 2 [9] [90]] 1).seek [6]).take 10) :=
  (multiLevelScan_lists_iff _ _ (by decide) _ _ _ _).mpr
    (.inr fun secondaryKey value present => by
      have member := get?_eq_some_iff.mp present
      rw [show (MultiLevelCall.live [.put 1 [5] [50], .put 2 [9] [90]] 1).entries =
        [([5], [50])] from by decide +kernel, mem_singleton, Prod.mk.injEq] at member
      rw [member.1]
      decide)

/-- A pair that was put and can be read is not found by a scan of its region. -/
theorem multiLevelScan_misses_pair :
    (multiLevelGet (multiLevelPut (.new (newCache 1000 (by decide))) Cf.default.name 1 [5] [50])
        Cf.default.name 1 [5]).1 = some [50] ∧
      multiLevelScan
        (multiLevelPut (.new (newCache 1000 (by decide))) Cf.default.name 1 [5] [50])
        Cf.default.name 1 [] 10 = .ok [] :=
  ⟨by decide +kernel, by decide +kernel⟩

end Runs

end AegisDB.Server

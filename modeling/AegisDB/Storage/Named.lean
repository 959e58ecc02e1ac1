import AegisDB.Storage.Tiered

/-! # Column families by name

The storages take any string for the name of a column family. Here the families are named
by strings, as RawKV clients name them; the three families of the transaction layer are
names among others. -/

namespace AegisDB.Storage

open Foundation OrderedMap Cache

structure CfName where
  bytes : Bytes
  valid : validUtf8 bytes = true
deriving DecidableEq

namespace CfName

def characters (cf : CfName) : List Char := lossyCharacters cf.bytes

def keyWithCf (cf : CfName) (key : Bytes) : Bytes := cf.bytes ++ 0x5F :: key

def cacheKey (cf : CfName) (key : Bytes) : List Char := cf.characters ++ ':' :: lossyCharacters key

end CfName

inductive NamedModify where
  | put (key value : Bytes) (cf : CfName)
  | delete (key : Bytes) (cf : CfName)
deriving DecidableEq

namespace NamedModify

def key : NamedModify → Bytes
  | .put key _ _ => key
  | .delete key _ => key

def value : NamedModify → Option Bytes
  | .put _ value _ => some value
  | .delete _ _ => none

def cf : NamedModify → CfName
  | .put _ _ cf => cf
  | .delete _ cf => cf

def encodedKey (modify : NamedModify) : Bytes := modify.cf.keyWithCf modify.key

def apply (db : OrderedMap Bytes Bytes) (modify : NamedModify) : OrderedMap Bytes Bytes :=
  match modify.value with
  | some value => db.insert modify.encodedKey value
  | none => db.erase modify.encodedKey

theorem get?_apply (db : OrderedMap Bytes Bytes) (modify : NamedModify) (key : Bytes) :
    (apply db modify).get? key =
      if modify.encodedKey = key then modify.value else db.get? key := by
  rw [apply]
  by_cases same : modify.encodedKey = key
  · subst same
    rw [if_pos rfl]
    cases modify.value with
    | some value => exact get?_insert_same _ _ _
    | none => exact get?_erase_same _ _
  · rw [if_neg same]
    cases modify.value with
    | some value => exact get?_insert_other _ _ (Ne.symm same)
    | none => exact get?_erase_other _ (Ne.symm same)

end NamedModify

/-! ## The storages -/

namespace StandaloneStorage

variable {σ : Type} [Cache σ (List Char) Bytes]

def getNamed (storage : StandaloneStorage σ) (cf : CfName) (key : Bytes) :
    Option Bytes × StandaloneStorage σ :=
  match Cache.peek storage.cache (cf.cacheKey key) with
  | some value => (some value, storage)
  | none =>
    match storage.db.get? (cf.keyWithCf key) with
    | some value =>
      (some value, { storage with cache := Cache.put storage.cache (cf.cacheKey key) value })
    | none => (none, storage)

def updateNamed (cache : σ) (modify : NamedModify) : σ :=
  match modify.value with
  | some value => Cache.put cache (modify.cf.cacheKey modify.key) value
  | none => Cache.pop cache (modify.cf.cacheKey modify.key)

def writeNamed (storage : StandaloneStorage σ) (batch : List NamedModify) :
    StandaloneStorage σ where
  db := batch.foldl NamedModify.apply storage.db
  cache := batch.foldl updateNamed storage.cache

end StandaloneStorage

namespace TieredStorage

def getNamed (storage : TieredStorage) (cf : CfName) (key : Bytes) :
    Option Bytes × TieredStorage :=
  match (storage.tiers .hot).get? (cf.keyWithCf key) with
  | some value => (some value, storage.bumpAccess (cf.keyWithCf key))
  | none =>
    match (storage.tiers .warm).get? (cf.keyWithCf key) with
    | some value => (some value, storage.bumpAccess (cf.keyWithCf key))
    | none =>
      match (storage.tiers .cold).get? (cf.keyWithCf key) with
      | some value => (some value, storage.bumpAccess (cf.keyWithCf key))
      | none => (none, storage)

def prepareNamed (storage : TieredStorage) (modify : NamedModify) : TieredStorage :=
  match modify.value with
  | some _ => storage.bumpAccess modify.encodedKey
  | none => { storage with tiers := storage.tiers.deleteAll modify.encodedKey }

def addNamedPut (warm : OrderedMap Bytes Bytes) (modify : NamedModify) :
    OrderedMap Bytes Bytes :=
  match modify.value with
  | some value => warm.insert modify.encodedKey value
  | none => warm

def commitNamed (storage : TieredStorage) (batch : List NamedModify) : TieredStorage :=
  { storage with
    tiers := Function.update storage.tiers .warm (batch.foldl addNamedPut (storage.tiers .warm)) }

def writeNamed (storage : TieredStorage) (batch : List NamedModify) : TieredStorage :=
  (batch.foldl prepareNamed storage).commitNamed batch

end TieredStorage

/-! ## The families of the transaction layer -/

def Cf.name (cf : Cf) : CfName where
  bytes := cf.bytes
  valid := by cases cf <;> decide +kernel

def Modify.named : Modify → NamedModify
  | .put key value cf => .put key value cf.name
  | .delete key cf => .delete key cf.name

section Families

variable {σ : Type} [Cache σ (List Char) Bytes]

theorem keyWithCf_name (cf : Cf) (key : Bytes) : cf.name.keyWithCf key = keyWithCf cf key := rfl

theorem characters_name (cf : Cf) : cf.name.characters = cf.characters := by
  cases cf <;> decide +kernel

theorem cacheKey_name (cf : Cf) (key : Bytes) : cf.name.cacheKey key = cacheKey cf key := by
  rw [CfName.cacheKey, cacheKey, characters_name]

theorem StandaloneStorage.getNamed_name (storage : StandaloneStorage σ) (cf : Cf) (key : Bytes) :
    storage.getNamed cf.name key = storage.getCf cf key := by
  rw [getNamed, getCf, cacheKey_name]
  rfl

theorem NamedModify.apply_named (db : OrderedMap Bytes Bytes) (modify : Modify) :
    apply db modify.named = applyEncoded db modify := by
  cases modify <;> rfl

theorem StandaloneStorage.updateNamed_named (cache : σ) (modify : Modify) :
    updateNamed cache modify.named = updateCache cache modify := by
  cases modify with
  | put key value cf => exact congrArg (Cache.put cache · value) (cacheKey_name cf key)
  | delete key cf => exact congrArg (Cache.pop cache) (cacheKey_name cf key)

theorem StandaloneStorage.writeNamed_named (storage : StandaloneStorage σ)
    (batch : List Modify) : storage.writeNamed (batch.map Modify.named) = storage.write batch := by
  simp only [writeNamed, write, List.foldl_map, NamedModify.apply_named, updateNamed_named]

theorem TieredStorage.getNamed_name (storage : TieredStorage) (cf : Cf) (key : Bytes) :
    storage.getNamed cf.name key = storage.getCf cf key := rfl

theorem TieredStorage.writeNamed_named (storage : TieredStorage) (batch : List Modify) :
    storage.writeNamed (batch.map Modify.named) = storage.write batch := by
  have sameStep : ∀ (current : TieredStorage) (modify : Modify),
      current.prepareNamed modify.named = current.prepare modify := by
    intro current modify
    cases modify <;> rfl
  have samePut : ∀ (warm : OrderedMap Bytes Bytes) (modify : Modify),
      addNamedPut warm modify.named = addPut warm modify := by
    intro warm modify
    cases modify <;> rfl
  simp only [writeNamed, write, commitNamed, commit, List.foldl_map, sameStep, samePut]

end Families

end AegisDB.Storage

import AegisDB.Foundation.Cache
import AegisDB.Foundation.Transition
import AegisDB.Foundation.ValidText
import AegisDB.Storage.Encoding

/-! # The storage with a cache

`storage/standalone_storage.rs` and `storage/reader.rs`: one database behind a cache.
The database is keyed by bytes and the cache by the lossy text of the bytes, so keys
that are not UTF-8 can share a place in the cache. -/

namespace AegisDB.Storage

open Foundation Cache

def cacheKey (cf : Cf) (key : Bytes) : List Char := cf.characters ++ ':' :: lossyCharacters key

theorem cacheKey_cf {cf otherCf : Cf} {key otherKey : Bytes}
    (same : cacheKey cf key = cacheKey otherCf otherKey) : cf = otherCf :=
  (append_characters_inj same).1

structure StandaloneStorage (σ : Type) where
  db : OrderedMap Bytes Bytes
  cache : σ

namespace StandaloneStorage

variable {σ : Type} [Cache σ (List Char) Bytes]

def new (cache : σ) : StandaloneStorage σ := { db := .empty, cache }

def getCf (storage : StandaloneStorage σ) (cf : Cf) (key : Bytes) :
    Option Bytes × StandaloneStorage σ :=
  match Cache.peek storage.cache (cacheKey cf key) with
  | some value => (some value, storage)
  | none =>
    match storage.db.get? (keyWithCf cf key) with
    | some value =>
      (some value,
        { storage with cache := Cache.put storage.cache (cacheKey cf key) value })
    | none => (none, storage)

def updateCache (cache : σ) (modify : Modify) : σ :=
  match modify.value with
  | some value => Cache.put cache (cacheKey modify.cf modify.key) value
  | none => Cache.pop cache (cacheKey modify.cf modify.key)

def write (storage : StandaloneStorage σ) (batch : List Modify) : StandaloneStorage σ where
  db := batch.foldl applyEncoded storage.db
  cache := batch.foldl updateCache storage.cache

end StandaloneStorage

/-! ## Runs -/

inductive StorageCall where
  | write (batch : List Modify)
  | get (cf : Cf) (key : Bytes)
deriving DecidableEq, Repr

def FlatStore.act (store : FlatStore) : StorageCall → FlatStore
  | .write batch => store.write batch
  | .get _ _ => store

def FlatStore.after (calls : List StorageCall) : FlatStore := calls.foldl act empty

/-- A storage, and for every place in the cache the key it was last filled or cleared for. -/
structure Attributed (σ : Type) where
  storage : StandaloneStorage σ
  owner : List Char → Bytes

section Runs

variable {σ : Type} [Cache σ (List Char) Bytes]

namespace Attributed

def start (cache : σ) : Attributed σ := { storage := .new cache, owner := fun _ => [] }

def attributeTo (owner : List Char → Bytes) (modify : Modify) : List Char → Bytes :=
  Function.update owner (cacheKey modify.cf modify.key) modify.key

def act (run : Attributed σ) : StorageCall → Attributed σ
  | .write batch =>
    { storage := run.storage.write batch, owner := batch.foldl attributeTo run.owner }
  | .get cf key =>
    { storage := (run.storage.getCf cf key).2
      owner :=
        match Cache.peek run.storage.cache (cacheKey cf key),
          run.storage.db.get? (keyWithCf cf key) with
        | none, some _ => Function.update run.owner (cacheKey cf key) key
        | _, _ => run.owner }

def after (cache : σ) (calls : List StorageCall) : Attributed σ := calls.foldl act (start cache)

/-- What a call finds in the cache was put there for the key it asks for. -/
def Owned (run : Attributed σ) : StorageCall → Prop
  | .write _ => True
  | .get cf key =>
    (Cache.peek run.storage.cache (cacheKey cf key)).isSome →
      run.owner (cacheKey cf key) = key

instance decidableOwned (run : Attributed σ) (call : StorageCall) : Decidable (run.Owned call) := by
  cases call <;> unfold Owned <;> infer_instance

end Attributed

def CachesOwner (db : OrderedMap Bytes Bytes) (cache : σ) (owner : List Char → Bytes) : Prop :=
  ∀ text value, Cache.peek cache text = some value →
    ∃ cf, cacheKey cf (owner text) = text ∧ db.get? (keyWithCf cf (owner text)) = some value

namespace CachesOwner

variable {db after : OrderedMap Bytes Bytes} {cache next : σ} {owner : List Char → Bytes}
  {cf : Cf} {key : Bytes}

theorem update (caches : CachesOwner db cache owner)
    (unchanged : ∀ otherCf other, cacheKey otherCf other ≠ cacheKey cf key →
      after.get? (keyWithCf otherCf other) = db.get? (keyWithCf otherCf other))
    (changed : ∀ text value, Cache.peek next text = some value →
      text = cacheKey cf key ∧ after.get? (keyWithCf cf key) = some value ∨
        text ≠ cacheKey cf key ∧ Cache.peek cache text = some value) :
    CachesOwner after next (Function.update owner (cacheKey cf key) key) := by
  intro text value found
  rcases changed text value found with ⟨rfl, present⟩ | ⟨other, kept⟩
  · rw [Function.update_self]
    exact ⟨cf, rfl, present⟩
  · rcases caches text value kept with ⟨otherCf, same, present⟩
    rw [Function.update_of_ne other]
    refine ⟨otherCf, same, ?_⟩
    rw [unchanged otherCf (owner text), present]
    rwa [same]

theorem put [LawfulCache σ] (caches : CachesOwner db cache owner) {value : Bytes}
    (unchanged : ∀ otherCf other, cacheKey otherCf other ≠ cacheKey cf key →
      after.get? (keyWithCf otherCf other) = db.get? (keyWithCf otherCf other))
    (present : after.get? (keyWithCf cf key) = some value) :
    CachesOwner after (Cache.put cache (cacheKey cf key) value)
      (Function.update owner (cacheKey cf key) key) := by
  refine caches.update unchanged fun text found foundThere => ?_
  rcases LawfulCache.peek_put foundThere with ⟨same, rfl⟩ | other
  · exact .inl ⟨same, present⟩
  · exact .inr other

theorem pop [LawfulCache σ] (caches : CachesOwner db cache owner)
    (unchanged : ∀ otherCf other, cacheKey otherCf other ≠ cacheKey cf key →
      after.get? (keyWithCf otherCf other) = db.get? (keyWithCf otherCf other)) :
    CachesOwner after (Cache.pop cache (cacheKey cf key))
      (Function.update owner (cacheKey cf key) key) :=
  caches.update unchanged fun _ _ foundThere => .inr (LawfulCache.peek_pop foundThere)

end CachesOwner

namespace Attributed

structure Coherent (run : Attributed σ) (store : FlatStore) : Prop where
  represents : Represents run.storage.db store
  cached : CachesOwner run.storage.db run.storage.cache run.owner

variable {run : Attributed σ} {store : FlatStore}

variable (coherent : run.Coherent store)

include coherent

theorem Coherent.getCf {cf : Cf} {key : Bytes} (owned : run.Owned (.get cf key)) :
    (run.storage.getCf cf key).1 = (store cf).get? key := by
  rw [← coherent.represents cf key, StandaloneStorage.getCf]
  split
  · rename_i value found
    rcases coherent.cached _ value found with ⟨otherCf, same, present⟩
    rw [owned (by simp [found])] at same present
    rw [cacheKey_cf same] at present
    exact present.symm
  · split
    · rename_i present
      exact present.symm
    · rename_i absent
      exact absent.symm

variable [LawfulCache σ]

theorem Coherent.modify (modify : Modify) :
    (run.act (.write [modify])).Coherent (store.apply modify) := by
  have unchanged : ∀ cf key, cacheKey cf key ≠ cacheKey modify.cf modify.key →
      (applyEncoded run.storage.db modify).get? (keyWithCf cf key) =
        run.storage.db.get? (keyWithCf cf key) := by
    intro cf key other
    rw [get?_applyEncoded, if_neg]
    intro touches
    rcases touches with ⟨rfl, rfl⟩
    exact other rfl
  refine ⟨coherent.represents.apply modify, ?_⟩
  change CachesOwner (applyEncoded run.storage.db modify)
    (StandaloneStorage.updateCache run.storage.cache modify) (attributeTo run.owner modify)
  cases value : modify.value with
  | none =>
    rw [StandaloneStorage.updateCache, value]
    exact coherent.cached.pop unchanged
  | some value_ =>
    rw [StandaloneStorage.updateCache, value]
    refine coherent.cached.put unchanged ?_
    rw [get?_applyEncoded, if_pos ⟨rfl, rfl⟩, value]

theorem Coherent.write (batch : List Modify) :
    (run.act (.write batch)).Coherent (store.write batch) := by
  induction batch generalizing run store with
  | nil => exact coherent
  | cons head rest induction => exact induction (coherent.modify head)

theorem Coherent.get (cf : Cf) (key : Bytes) :
    (run.act (.get cf key)).Coherent store := by
  rw [act, StandaloneStorage.getCf]
  cases found : Cache.peek run.storage.cache (cacheKey cf key) with
  | some value => exact coherent
  | none =>
    cases present : run.storage.db.get? (keyWithCf cf key) with
    | none => exact coherent
    | some value =>
      exact ⟨coherent.represents, coherent.cached.put (fun _ _ _ => rfl) present⟩

theorem Coherent.act (call : StorageCall) :
    (run.act call).Coherent (store.act call) := by
  cases call with
  | write batch => exact coherent.write batch
  | get cf key => exact coherent.get cf key

omit coherent

theorem coherent_run {cache : σ} (isEmpty : ∀ text, Cache.peek cache text = none)
    (calls : List StorageCall) :
    (Attributed.after cache calls).Coherent (FlatStore.after calls) := by
  induction calls using List.reverseRecOn with
  | nil =>
    refine ⟨fun _ _ => rfl, fun text value found => ?_⟩
    exact absurd ((isEmpty text).symm.trans found) nofun
  | append_singleton past call induction =>
    rw [Attributed.after, FlatStore.after, List.foldl_append, List.foldl_append]
    exact induction.act call

end Attributed

/-! ## Reads -/

open Attributed in
/-- Reads answer as the store does as long as every value found in the cache was put there for
the key that is asked for. -/
theorem getCf_eq_of_owned [LawfulCache σ] {cache : σ}
    (isEmpty : ∀ text, Cache.peek cache text = none) {calls : List StorageCall}
    (guarded : Guarded act Owned (start cache) calls) :
    ∀ past cf key, past ++ [.get cf key] <+: calls →
      ((Attributed.after cache past).storage.getCf cf key).1 = (FlatStore.after past cf).get? key :=
  fun past _ _ isPrefix => (coherent_run isEmpty past).getCf (guarded.holds isPrefix)

/-! ## Keys that are text -/

def StorageCall.Textual : StorageCall → Prop
  | .write batch => ∀ modify ∈ batch, validUtf8 modify.key = true
  | .get _ key => validUtf8 key = true

instance StorageCall.decidableTextual (call : StorageCall) : Decidable call.Textual := by
  cases call <;> unfold Textual <;> infer_instance

end Runs

def newCache (capacity : Nat) (positive : 0 < capacity) : LruCache (List Char) Bytes :=
  .empty capacity positive

def someCalls : List StorageCall :=
  [.write [.put [0x61] [1] .default, .put [0xFF] [2] .write], .get .default [0x61],
    .write [.delete [0x61] .default]]

theorem getCf_eq_someCalls :
    ((Attributed.after (newCache 1 Nat.one_pos) someCalls).storage.getCf .write [0xFF]).1 =
      (FlatStore.after someCalls .write).get? [0xFF] :=
  @getCf_eq_of_owned _ _ _ (newCache 1 Nat.one_pos) (fun _ => rfl)
    (someCalls ++ [.get .write [0xFF]]) (by decide +kernel) someCalls .write [0xFF]
    List.prefix_rfl

/-- The keys `FF` and `FE` share a place in the cache: one that was never written is
found there. -/
theorem read_of_other_key :
    ∃ (past : List StorageCall) (cf : Cf) (key : Bytes),
      ((Attributed.after (newCache 1000 (by decide)) past).storage.getCf cf key).1 ≠
        (FlatStore.after past cf).get? key :=
  ⟨[.write [.put [0xFF] [1] .default]], .default, [0xFE], by decide +kernel⟩

end AegisDB.Storage

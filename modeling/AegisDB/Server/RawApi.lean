import AegisDB.Storage.NamedIterator

/-! # RawKV requests

`server/raw_api.rs` over the storage with a cache: single keys of families that the client
names, without transactions. -/

namespace AegisDB.Server

open Foundation Storage RocksDBIterator List

section Requests

variable {σ : Type} [Cache σ (List Char) Bytes]

def rawGet (storage : StandaloneStorage σ) (cf : CfName) (key : Bytes) :
    Option Bytes × StandaloneStorage σ :=
  storage.getNamed cf key

def rawPut (storage : StandaloneStorage σ) (cf : CfName) (key value : Bytes) :
    StandaloneStorage σ :=
  storage.writeNamed [.put key value cf]

def rawDelete (storage : StandaloneStorage σ) (cf : CfName) (key : Bytes) : StandaloneStorage σ :=
  storage.writeNamed [.delete key cf]

def collect : (limit : Nat) → (iterator : NamedIterator) → Fallible (List (Bytes × Bytes))
  | 0, _ => .ok []
  | limit + 1, iterator =>
    match iterator.current with
    | none => .ok []
    | some entry => do
      let key ← iterator.cf.itemKey entry
      let kvs ← collect limit iterator.next
      return (key, entry.2) :: kvs

def rawScan (storage : StandaloneStorage σ) (cf : CfName) (startKey : Bytes) (limit : Nat) :
    Fallible (List (Bytes × Bytes)) :=
  collect limit ((NamedIterator.new storage.db cf).seek startKey)

end Requests

/-! ## What a scan delivers -/

section Collecting

variable {db : OrderedMap Bytes Bytes} {cf : CfName} {entry : Bytes × Bytes}
  {rest : List (Bytes × Bytes)} {limit : Nat}

theorem collect_nil : collect limit { db, cf, remaining := [] } = .ok [] := by
  cases limit <;> rfl

theorem collect_of_hidden (hidden : ¬ cf.shows entry = true) :
    collect limit { db, cf, remaining := entry :: rest } = .ok [] := by
  cases limit with
  | zero => rfl
  | succ limit => simp only [collect, NamedIterator.current, if_neg hidden]

theorem collect_of_shown (shown : cf.shows entry = true) :
    collect (limit + 1) { db, cf, remaining := entry :: rest } = (do
      let key ← cf.itemKey entry
      let kvs ← collect limit { db, cf, remaining := rest }
      return (key, entry.2) :: kvs) := by
  simp only [collect, NamedIterator.current, if_pos shown]
  rfl

theorem collect_name (cf : Cf) (limit : Nat) (remaining : List (Bytes × Bytes)) :
    collect limit { db, cf := cf.name, remaining } =
      .ok (items { db, cf, remaining } |>.take limit) := by
  induction remaining generalizing limit with
  | nil => rw [collect_nil, items, takeWhile_nil, map_nil, take_nil]
  | cons entry rest induction =>
    rw [items]
    by_cases shown : cf.shows entry = true
    · rw [takeWhile_cons_of_pos shown, map_cons]
      cases limit with
      | zero => rfl
      | succ limit =>
        rw [collect_of_shown (by rwa [shows_name]), itemKey_name shown, induction,
          take_succ_cons, items]
        rfl
    · rw [takeWhile_cons_of_neg shown, collect_of_hidden (by rwa [shows_name]),
        map_nil, take_nil]

/-- A raw scan shows what the family's iterator shows. -/
theorem rawScan_name {σ : Type} [Cache σ (List Char) Bytes] (storage : StandaloneStorage σ)
    (cf : Cf) (startKey : Bytes) (limit : Nat) :
    rawScan storage cf.name startKey limit =
      .ok (((RocksDBIterator.new storage.db cf).seek startKey).items.take limit) :=
  collect_name cf limit _

end Collecting

end AegisDB.Server

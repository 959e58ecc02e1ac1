import AegisDB.Storage.Encoding

/-! # The engines

`engine_util/util.rs` and `write_batch.rs`: column families as name prefixes of the keys of
one RocksDB database, and batches of writes to it. -/

namespace AegisDB.EngineUtil

open Foundation

abbrev DB := OrderedMap Bytes Bytes

def keyWithCf (cf key : Bytes) : Bytes := cf ++ 0x5F :: key

def getCf (db : DB) (cf key : Bytes) : Option Bytes := db.get? (keyWithCf cf key)

def putCf (db : DB) (cf key value : Bytes) : DB := db.insert (keyWithCf cf key) value

def exceedEndKey (current endKey : Bytes) : Bool :=
  if endKey.isEmpty then false else current ≥ endKey

inductive BatchEntry where
  | put (key value : Bytes)
  | delete (key : Bytes)
deriving DecidableEq, Repr

def BatchEntry.apply (db : DB) : BatchEntry → DB
  | .put key value => db.insert key value
  | .delete key => db.erase key

abbrev WriteBatch := List BatchEntry

namespace WriteBatch

def setCf (batch : WriteBatch) (cf key value : Bytes) : WriteBatch :=
  batch ++ [.put (keyWithCf cf key) value]

def deleteCf (batch : WriteBatch) (cf key : Bytes) : WriteBatch :=
  batch ++ [.delete (keyWithCf cf key)]

def writeToDb (batch : WriteBatch) (db : DB) : DB := batch.foldl BatchEntry.apply db

theorem get?_writeToDb_deletes (keys : List Bytes) (db : DB) (key : Bytes) :
    (writeToDb (keys.map .delete) db).get? key = if key ∈ keys then none else db.get? key := by
  induction keys generalizing db with
  | nil => rfl
  | cons first rest induction =>
    rw [List.map_cons, writeToDb, List.foldl_cons, ← writeToDb, induction, BatchEntry.apply,
      OrderedMap.get?_erase]
    by_cases later : key ∈ rest
    · rw [if_pos later, if_pos (List.mem_cons_of_mem first later)]
    · by_cases same : key = first
      · simp [same]
      · rw [if_neg later, if_neg same, if_neg]
        simpa [same] using later

end WriteBatch

end AegisDB.EngineUtil

import AegisDB.Mvcc.Record
import AegisDB.Storage.Reading

/-! # MVCC transactions

`MvccTxn` of `transaction/mvcc/transaction.rs`: lookups of locks and write records
through the storage reader, and the modifications collected for one batch. -/

namespace AegisDB.Mvcc

open Foundation Storage Reading

def withContext (context : String) : Fallible α → Fallible α
  | .error (.error message) => .error (.error (context ++ message))
  | outcome => outcome

def found : Fallible (Option Write × UInt64) → Fallible (Option (Write × UInt64))
  | .ok (some write, ts) => .ok (some (write, ts))
  | .ok (none, _) => .ok none
  | .error (.error _) => .ok none
  | .error (.panic message) => .error (.panic message)

def ifFound (call : Reading (Option Write × UInt64)) : Reading (Option (Write × UInt64)) := do
  match ← call.attempt with
  | .ok (some write, ts) => return some (write, ts)
  | .ok (none, _) => return none
  | .error _ => return none

@[simp] theorem run_ifFound (store : FlatStore) (call : Reading (Option Write × UInt64)) :
    (ifFound call).run store = found (call.run store) := by
  rw [ifFound, run_bind, run_attempt]
  rcases call.run store with (_ | _) | ⟨_ | _, _⟩ <;> rfl

/-! ## Lookups -/

def parseStoredLock (value : Bytes) : Fallible Lock :=
  withContext "failed to parse lock: " (Lock.parse value)

def parseStoredWrite (value : Bytes) : Fallible (Option Write) :=
  withContext "failed to parse write: " (Write.parse value)

def getLock (key : Bytes) : Reading (Option Lock) := do
  match ← Reading.get .lock key with
  | some value => return some (← Reading.lift (parseStoredLock value))
  | none => return none

def currentWriteIn (startTs : UInt64) (key : Bytes) (iter : OrderedMap Bytes Bytes) :
    Fallible (Option Write × UInt64) :=
  match iter.seek (encodeKey key startTs) with
  | [] => .ok (none, 0)
  | (encodedKey, value) :: _ => do
    let userKey ← decodeUserKey encodedKey
    if userKey ≠ key then
      return (none, 0)
    let commitTs ← decodeTimestamp encodedKey
    if commitTs ≠ startTs then
      return (none, 0)
    let write ← parseStoredWrite value
    return (write, commitTs)

def mostRecentWriteFrom (startTs : UInt64) (key : Bytes) :
    List (Bytes × Bytes) → Fallible (Option Write × UInt64)
  | [] => .ok (none, 0)
  | (encodedKey, value) :: rest =>
    match decodeUserKey encodedKey with
    | .error (.panic message) => .error (.panic message)
    | .error (.error _) => mostRecentWriteFrom startTs key rest
    | .ok userKey =>
      if userKey ≠ key then
        .ok (none, 0)
      else
        match decodeTimestamp encodedKey with
        | .error (.panic message) => .error (.panic message)
        | .error (.error _) => mostRecentWriteFrom startTs key rest
        | .ok commitTs =>
          if commitTs ≤ startTs then
            match parseStoredWrite value with
            | .error fault => .error fault
            | .ok (some write) => .ok (some write, commitTs)
            | .ok none => mostRecentWriteFrom startTs key rest
          else
            mostRecentWriteFrom startTs key rest

def maxTimestamp : UInt64 := 0xFFFFFFFFFFFFFFFF

def mostRecentWriteIn (startTs : UInt64) (key : Bytes) (iter : OrderedMap Bytes Bytes) :
    Fallible (Option Write × UInt64) :=
  let positioned := iter.seek (encodeKey key maxTimestamp)
  mostRecentWriteFrom startTs key <|
    if positioned.isEmpty then iter.seek (encodeBytes key) else positioned

/-! ## The transaction -/

structure MvccTxn where
  startTs : UInt64
  writes : List Modify
deriving DecidableEq, Repr

namespace MvccTxn

def new (startTs : UInt64) : MvccTxn := { startTs, writes := [] }

def extend (txn : MvccTxn) (modifies : List Modify) : MvccTxn :=
  { txn with writes := txn.writes ++ modifies }

def push (txn : MvccTxn) (modify : Modify) : MvccTxn := txn.extend [modify]

@[simp] theorem extend_nil (txn : MvccTxn) : txn.extend [] = txn := by
  simp [extend]

@[simp] theorem extend_extend (txn : MvccTxn) (first second : List Modify) :
    (txn.extend first).extend second = txn.extend (first ++ second) := by
  simp [extend]

@[simp] theorem startTs_extend (txn : MvccTxn) (modifies : List Modify) :
    (txn.extend modifies).startTs = txn.startTs := rfl

@[simp] theorem startTs_new (startTs : UInt64) : (new startTs).startTs = startTs := rfl

@[simp] theorem writes_extend_new (startTs : UInt64) (modifies : List Modify) :
    ((new startTs).extend modifies).writes = modifies := rfl

def putWrite (txn : MvccTxn) (key : Bytes) (ts : UInt64) (write : Write) : MvccTxn :=
  txn.push (.put (encodeKey key ts) write.toBytes .write)

def putLock (txn : MvccTxn) (key : Bytes) (lock : Lock) : MvccTxn :=
  txn.push (.put key lock.toBytes .lock)

def deleteLock (txn : MvccTxn) (key : Bytes) : MvccTxn :=
  txn.push (.delete key .lock)

def putValue (txn : MvccTxn) (key value : Bytes) : MvccTxn :=
  txn.push (.put (encodeKey key txn.startTs) value .default)

def deleteValue (txn : MvccTxn) (key : Bytes) : MvccTxn :=
  txn.push (.delete (encodeKey key txn.startTs) .default)

def currentWrite (txn : MvccTxn) (key : Bytes) : Reading (Option Write × UInt64) := do
  let iter ← Reading.iter .write
  Reading.lift (currentWriteIn txn.startTs key iter)

def mostRecentWrite (txn : MvccTxn) (key : Bytes) : Reading (Option Write × UInt64) := do
  let iter ← Reading.iter .write
  Reading.lift (mostRecentWriteIn txn.startTs key iter)

def readCommitted (txn : MvccTxn) (key : Bytes) : Reading (Option Bytes) := do
  let (write, _) ← txn.mostRecentWrite key
  match write with
  | some write =>
    match write.kind with
    | .put => Reading.get .default (encodeKey key write.startTs)
    | .delete => return none
    | .rollback => return none
  | none => return none

def getValue (txn : MvccTxn) (key : Bytes) : Reading (Option Bytes) := do
  match ← getLock key with
  | some lock =>
    if lock.ts ≠ txn.startTs then
      Reading.fail (.error "key is locked by another transaction")
    else
      txn.readCommitted key
  | none => txn.readCommitted key

end MvccTxn

end AegisDB.Mvcc

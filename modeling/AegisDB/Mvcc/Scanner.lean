import AegisDB.Mvcc.Transaction

/-! # The scanner

`Scanner` of `transaction/mvcc/scanner.rs`: one pass over the write records of all keys from a
start key on. The scanner stays at the record whose value it has returned and skips the other
records of that key when it goes on. -/

namespace AegisDB.Mvcc

open Foundation Storage

structure Scanner where
  txn : MvccTxn
  endKey : Option Bytes
  limit : UInt32
  count : UInt32
  currentKey : Option Bytes
  writeIter : List (Bytes × Bytes)
  exhausted : Bool
deriving DecidableEq, Repr

namespace Scanner

def new (startKey : Bytes) (txn : MvccTxn) : Reading Scanner := do
  let iter ← Reading.iter .write
  return { txn
           endKey := none
           limit := 0xFFFFFFFF
           count := 0
           currentKey := none
           writeIter := iter.seek (encodeKey startKey maxTimestamp)
           exhausted := false }

def setEndKey (scanner : Scanner) (endKey : Option Bytes) : Scanner := { scanner with endKey }

def setLimit (scanner : Scanner) (limit : UInt32) : Scanner := { scanner with limit }

def pastEnd (scanner : Scanner) (userKey : Bytes) : Bool :=
  match scanner.endKey with
  | some endKey => decide (endKey ≤ userKey)
  | none => false

def visibleWrite (startTs : UInt64) (encodedKey value : Bytes) : Fallible (Option Write) :=
  match decodeTimestamp encodedKey with
  | .error (.panic message) => .error (.panic message)
  | .error (.error _) => .ok none
  | .ok commitTs =>
    if commitTs > startTs then
      .ok none
    else
      match Write.parse value with
      | .error (.panic message) => .error (.panic message)
      | .error (.error _) => .ok none
      | .ok write => .ok write

def nextFrom (scanner : Scanner) (currentKey : Option Bytes) :
    List (Bytes × Bytes) → Reading (Option (Bytes × Bytes) × Scanner)
  | [] => return (none, { scanner with currentKey, writeIter := [], exhausted := true })
  | (encodedKey, value) :: rest =>
    match decodeUserKey encodedKey with
    | .error (.panic message) => .fail (.panic message)
    | .error (.error _) => nextFrom scanner currentKey rest
    | .ok userKey =>
      if scanner.pastEnd userKey then
        return (none, { scanner with
          currentKey, writeIter := (encodedKey, value) :: rest, exhausted := true })
      else if currentKey = some userKey then
        nextFrom scanner currentKey rest
      else do
        match ← Reading.lift (visibleWrite scanner.txn.startTs encodedKey value) with
        | none => nextFrom scanner currentKey rest
        | some write =>
          match write.kind with
          | .put =>
            match ← Reading.get .default (encodeKey userKey write.startTs) with
            | some stored =>
              return (some (userKey, stored), { scanner with
                count := scanner.count + 1
                currentKey := some userKey
                writeIter := (encodedKey, value) :: rest })
            | none => nextFrom scanner currentKey rest
          | .delete => nextFrom scanner (some userKey) rest
          | .rollback => nextFrom scanner (some userKey) rest

def next (scanner : Scanner) : Reading (Option (Bytes × Bytes) × Scanner) :=
  if scanner.exhausted || decide (scanner.count ≥ scanner.limit) then
    return (none, scanner)
  else
    scanner.nextFrom scanner.currentKey scanner.writeIter

end Scanner

end AegisDB.Mvcc

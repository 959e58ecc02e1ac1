import AegisDB.Mvcc.Scanner
import AegisDB.Server.TransactionApi
import Mathlib.Data.List.Infix

/-! # The read handlers

`kv_get` and `kv_scan` of `server/transaction_api.rs`. They take no latches and write nothing. -/

namespace AegisDB.Server

open Foundation Storage Mvcc

def mentions (message word : String) : Bool := decide (word.toList <:+: message.toList)

/-! ## Point reads -/

def getUnlocked (req : GetRequest) : Reading GetResponse := do
  match ← ((MvccTxn.new req.version).getValue req.key).attempt with
  | .ok value => return .ok value
  | .error message =>
    if mentions message "locked" then
      match ← getLock req.key with
      | some lock => return .withKeyError (.ofLocked (lockInfo req.key lock))
      | none => return .ok none
    else
      Reading.fail (.error message)

def kvGet (req : GetRequest) : Reading GetResponse := do
  match ← getLock req.key with
  | some lock =>
    if lock.ts ≠ req.version then
      return .withKeyError (.ofLocked (lockInfo req.key lock))
    else
      getUnlocked req
  | none => getUnlocked req

/-! ## Scans -/

def scannedPair (req : ScanRequest) (key value : Bytes) : Reading KvPair := do
  match ← getLock key with
  | some lock =>
    if lock.ts ≠ req.version then
      return .withError key (.ofLocked (lockInfo key lock))
    else
      return .new key value
  | none => return .new key value

def scanPairs (req : ScanRequest) : Nat → Scanner → List KvPair → Reading (List KvPair)
  | 0, _, pairs => return pairs
  | rounds + 1, scanner, pairs => do
    match ← scanner.next with
    | (some (key, value), scanner) =>
      let pair ← scannedPair req key value
      scanPairs req rounds scanner (pairs ++ [pair])
    | (none, _) => return pairs

def kvScan (req : ScanRequest) : Reading ScanResponse := do
  let scanner ← Scanner.new req.startKey (MvccTxn.new req.version)
  return .ok (← scanPairs req req.limit.toNat (scanner.setLimit req.limit) [])

end AegisDB.Server

import AegisDB.Foundation.LossyText
import AegisDB.Mvcc.Transaction
import AegisDB.Server.Messages

/-! # The transaction handlers

The write handlers of `server/transaction_api.rs`, from the point where a handler
holds its latches. A handler reads through its reader and ends with a reply, or with
a batch for `storage.write` and the reply that follows a successful write. -/

namespace AegisDB.Server

open Foundation Storage Mvcc MvccTxn

inductive Verdict (ρ : Type) where
  | reply (response : ρ)
  | write (batch : List Modify) (response : ρ)
deriving DecidableEq, Repr

def lockInfo (key : Bytes) (lock : Lock) : LockInfo :=
  { primaryLock := lock.primary, lockVersion := lock.ts, key, lockTtl := lock.ttl }

def rollbackWrite (startTs : UInt64) : Write := { startTs, kind := .rollback }

/-! ## Prewrite -/

def PrewriteRequest.lock (req : PrewriteRequest) (kind : WriteKind) : Lock :=
  { primary := req.primaryLock, ts := req.startVersion, ttl := req.lockTtl, kind }

def stageMutation (req : PrewriteRequest) (txn : MvccTxn) (errors : List KeyError)
    (mutation : Mutation) : MvccTxn × List KeyError :=
  let key := mutation.key
  match mutation.op with
  | .put => ((txn.putValue key mutation.value).putLock key (req.lock .put), errors)
  | .del => ((txn.deleteValue key).putLock key (req.lock .delete), errors)
  | .rollback => (txn, errors ++ [.ofAbort "unsupported operation: Rollback"])

def prewriteUnlocked (req : PrewriteRequest) (txn : MvccTxn) (errors : List KeyError)
    (mutation : Mutation) : Reading (MvccTxn × List KeyError) := do
  let key := mutation.key
  match ← ifFound (txn.mostRecentWrite key) with
  | some (_, commitTs) =>
    if commitTs > req.startVersion then
      let conflict : WriteConflict :=
        { startTs := req.startVersion, conflictTs := commitTs, key, primary := req.primaryLock }
      return (txn, errors ++ [.ofConflict conflict])
    else
      return stageMutation req txn errors mutation
  | none => return stageMutation req txn errors mutation

def prewriteMutation (req : PrewriteRequest) (progress : MvccTxn × List KeyError)
    (mutation : Mutation) : Reading (MvccTxn × List KeyError) := do
  let (txn, errors) := progress
  match ← getLock mutation.key with
  | some lock =>
    if lock.ts ≠ req.startVersion then
      return (txn, errors ++ [.ofLocked (lockInfo mutation.key lock)])
    else
      prewriteUnlocked req txn errors mutation
  | none => prewriteUnlocked req txn errors mutation

def kvPrewrite (req : PrewriteRequest) : Reading (Verdict PrewriteResponse) := do
  let (txn, errors) ← req.mutations.foldlM (prewriteMutation req) (MvccTxn.new req.startVersion, [])
  if errors.isEmpty then
    return .write txn.writes .ok
  else
    return .reply { errors }

/-! ## Commit -/

def notLocked (key : Bytes) : KeyError :=
  .ofAbort ("key " ++ fromUtf8Lossy key ++ " is not locked")

def checkKeyLocked (req : CommitRequest) (key : Bytes) : Reading (Option KeyError) := do
  match ← getLock key with
  | some lock =>
    if lock.ts ≠ req.startVersion then
      return some (.ofLocked (lockInfo key lock))
    else
      return none
  | none =>
    match ← ifFound ((MvccTxn.new req.startVersion).currentWrite key) with
    | some (_, commitTs) =>
      if commitTs = req.commitVersion then return none else return some (notLocked key)
    | none => return some (notLocked key)

def checkKeysLocked (req : CommitRequest) : List Bytes → Reading (Option KeyError)
  | [] => return none
  | key :: rest => do
    match ← checkKeyLocked req key with
    | some error => return some error
    | none => checkKeysLocked req rest

def commitKey (startVersion commitVersion : UInt64) (txn : MvccTxn) (key : Bytes) :
    Reading MvccTxn := do
  match ← getLock key with
  | some lock =>
    if lock.ts = startVersion then
      return (txn.putWrite key commitVersion
        { startTs := startVersion, kind := lock.kind }).deleteLock key
    else
      return txn
  | none => return txn

def kvCommit (req : CommitRequest) : Reading (Verdict CommitResponse) := do
  match ← checkKeysLocked req req.keys with
  | some error => return .reply (.withKeyError error)
  | none =>
    let txn ← req.keys.foldlM (commitKey req.startVersion req.commitVersion)
      (MvccTxn.new req.startVersion)
    return .write txn.writes .ok

/-! ## Transaction status -/

def isExpired (currentTs : UInt64) (lock : Lock) : Bool :=
  physicalTime currentTs > physicalTime lock.ts + lock.ttl

def checkUnlocked (req : CheckTxnStatusRequest) : Reading (Verdict CheckTxnStatusResponse) := do
  let txn := MvccTxn.new req.lockTs
  let rolledBack := txn.putWrite req.primaryKey req.lockTs (rollbackWrite req.lockTs)
  match ← ifFound (txn.currentWrite req.primaryKey) with
  | some (_, commitTs) =>
    if commitTs > 0 then
      return .reply (.committed commitTs)
    else
      return .write rolledBack.writes (.rolledBack .lockNotExistRollback)
  | none => return .write rolledBack.writes (.rolledBack .lockNotExistRollback)

def kvCheckTxnStatus (req : CheckTxnStatusRequest) :
    Reading (Verdict CheckTxnStatusResponse) := do
  let txn := MvccTxn.new req.lockTs
  match ← getLock req.primaryKey with
  | some lock =>
    if lock.ts ≠ req.lockTs then
      return .reply (.locked lock.ttl)
    else if isExpired req.currentTs lock then
      let txn := txn.deleteLock req.primaryKey
      let txn := txn.putWrite req.primaryKey req.lockTs (rollbackWrite req.lockTs)
      let txn := txn.deleteValue req.primaryKey
      return .write txn.writes (.rolledBack .ttlExpireRollback)
    else
      return .reply (.locked lock.ttl)
  | none => checkUnlocked req

/-! ## Batch rollback -/

def rollbackUncommitted (req : BatchRollbackRequest) (txn : MvccTxn) (key : Bytes) :
    Reading (Except KeyError MvccTxn) := do
  let rolledBack :=
    (txn.putWrite key req.startVersion (rollbackWrite req.startVersion)).deleteValue key
  match ← ifFound (txn.currentWrite key) with
  | some (_, commitTs) =>
    if commitTs > req.startVersion then
      return .error (.ofAbort ("key " ++ fromUtf8Lossy key ++ " is already committed"))
    else
      return .ok rolledBack
  | none => return .ok rolledBack

def rollbackKey (req : BatchRollbackRequest) (txn : MvccTxn) (key : Bytes) :
    Reading (Except KeyError MvccTxn) := do
  match ← getLock key with
  | some lock =>
    if lock.ts ≠ req.startVersion then
      return .error (.ofLocked (lockInfo key lock))
    else
      rollbackUncommitted req (txn.deleteLock key) key
  | none => rollbackUncommitted req txn key

def rollbackKeys (req : BatchRollbackRequest) :
    List Bytes → MvccTxn → Reading (Except KeyError MvccTxn)
  | [], txn => return .ok txn
  | key :: rest, txn => do
    match ← rollbackKey req txn key with
    | .error error => return .error error
    | .ok txn => rollbackKeys req rest txn

def kvBatchRollback (req : BatchRollbackRequest) : Reading (Verdict BatchRollbackResponse) := do
  match ← rollbackKeys req req.keys (MvccTxn.new req.startVersion) with
  | .error error => return .reply (.withKeyError error)
  | .ok txn => return .write txn.writes .ok

/-! ## Lock resolution -/

def keysLockedBy (startVersion : UInt64) : List (Bytes × Bytes) → Fallible (List Bytes)
  | [] => .ok []
  | (key, value) :: rest =>
    match Lock.parse value with
    | .error (.panic message) => .error (.panic message)
    | .error (.error _) => keysLockedBy startVersion rest
    | .ok lock => do
      let others ← keysLockedBy startVersion rest
      return if lock.ts = startVersion then key :: others else others

def scanLocks (req : ResolveLockRequest) : Reading (List Bytes) := do
  let iter ← Reading.iter .lock
  Reading.lift (keysLockedBy req.startVersion (iter.seek []))

def rollbackLockedKey (startVersion : UInt64) (txn : MvccTxn) (key : Bytes) :
    Reading MvccTxn := do
  match ← getLock key with
  | some lock =>
    if lock.ts = startVersion then
      let txn := txn.deleteLock key
      let txn := txn.putWrite key startVersion (rollbackWrite startVersion)
      return txn.deleteValue key
    else
      return txn
  | none => return txn

def resolveKeys (req : ResolveLockRequest) (keysToResolve : List Bytes) :
    Reading (Verdict ResolveLockResponse) := do
  if keysToResolve.isEmpty then
    return .reply .ok
  else
    let resolveKey :=
      if req.commitVersion > 0 then commitKey req.startVersion req.commitVersion
      else rollbackLockedKey req.startVersion
    let txn ← keysToResolve.foldlM resolveKey (MvccTxn.new req.startVersion)
    return .write txn.writes .ok

def kvResolveLock (req : ResolveLockRequest) : Reading (Verdict ResolveLockResponse) := do
  resolveKeys req (← scanLocks req)

/-! ## Serving one request -/

def serve (store : FlatStore) (handler : Reading (Verdict ρ)) : FlatStore × Fallible ρ :=
  match handler.run store with
  | .ok (.reply response) => (store, .ok response)
  | .ok (.write batch response) => (store.write batch, .ok response)
  | .error fault => (store, .error fault)

inductive Request where
  | prewrite (req : PrewriteRequest)
  | commit (req : CommitRequest)
  | checkTxnStatus (req : CheckTxnStatusRequest)
  | batchRollback (req : BatchRollbackRequest)
  | resolveLock (req : ResolveLockRequest)
deriving DecidableEq, Repr

inductive Response where
  | prewrite (response : PrewriteResponse)
  | commit (response : CommitResponse)
  | checkTxnStatus (response : CheckTxnStatusResponse)
  | batchRollback (response : BatchRollbackResponse)
  | resolveLock (response : ResolveLockResponse)
deriving DecidableEq, Repr

def Verdict.map (function : ρ → ρ') : Verdict ρ → Verdict ρ'
  | .reply response => .reply (function response)
  | .write batch response => .write batch (function response)

def Request.handler : Request → Reading (Verdict Response)
  | .prewrite req => return (← kvPrewrite req).map .prewrite
  | .commit req => return (← kvCommit req).map .commit
  | .checkTxnStatus req => return (← kvCheckTxnStatus req).map .checkTxnStatus
  | .batchRollback req => return (← kvBatchRollback req).map .batchRollback
  | .resolveLock req => return (← kvResolveLock req).map .resolveLock

end AegisDB.Server

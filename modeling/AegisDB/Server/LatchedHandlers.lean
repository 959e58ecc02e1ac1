import AegisDB.Latches
import AegisDB.Server.StoredRecords

/-! # Handlers that give their latches back

The five handlers once more, from their first line to their last: they wait for the
latches of their keys, open a reader, and name at every exit the latches they release.
Calls of the storage may fail, and `?` then leaves the handler on the spot. -/

namespace AegisDB.Server

open Foundation Storage Mvcc MvccTxn

/-! ## Handlers with effects -/

/-- What a handler works on, with the faults of the storage calls to come, in order. -/
structure World (ν : Type) where
  store : FlatStore
  latches : Latches ν
  faults : List (Option String)

abbrev Handling (ν : Type) := ExceptT Fault (StateT (World ν) Option)

namespace Handling

variable {ν : Type}

def act (handling : Handling ν α) (world : World ν) : Option (Fallible α × World ν) :=
  handling.run.run world

def change (function : World ν → Option (World ν)) : Handling ν Unit :=
  ExceptT.mk fun world => (function world).map fun changed => (.ok (), changed)

def waitForLatches (notify : ν) (keys : List Bytes) : Handling ν Unit :=
  change fun world => (world.latches.tryLatches notify keys).map fun latches =>
    { world with latches }

def releaseLatches (keys : List Bytes) : Handling ν Unit :=
  change fun world => some { world with latches := (world.latches.releaseLatches keys).2 }

def storageCall : Handling ν Unit :=
  ExceptT.mk fun world =>
    match world.faults with
    | [] => some (.ok (), world)
    | none :: faults => some (.ok (), { world with faults })
    | some message :: faults => some (.error (.error message), { world with faults })

def openReader : Handling ν Unit := storageCall

def column (cf : Cf) : Handling ν (OrderedMap Bytes Bytes) :=
  ExceptT.mk fun world => some (.ok (world.store cf), world)

def perform : Reading α → Handling ν α
  | .done value => pure value
  | .fail fault => throw fault
  | .getCf cf key next => do
    storageCall
    perform (next ((← column cf).get? key))
  | .iterCf cf next => do
    perform (next (← column cf))

def write (batch : List Modify) : Handling ν Unit := do
  storageCall
  change fun world => some { world with store := world.store.write batch }

end Handling

open Handling

/-! ## The handlers -/

section Handlers

variable {ν : Type} (notify : ν)

def kvPrewriteLatched (req : PrewriteRequest) : Handling ν PrewriteResponse := do
  let keys := req.mutations.map Mutation.key
  waitForLatches notify keys
  openReader
  let (txn, errors) ←
    perform (req.mutations.foldlM (prewriteMutation req) (MvccTxn.new req.startVersion, []))
  if errors.isEmpty then
    write txn.writes
    releaseLatches keys
    return .ok
  else
    releaseLatches keys
    return { errors }

def kvCommitLatched (req : CommitRequest) : Handling ν CommitResponse := do
  waitForLatches notify req.keys
  openReader
  match ← perform (checkKeysLocked req req.keys) with
  | some error =>
    releaseLatches req.keys
    return .withKeyError error
  | none =>
    let txn ← perform (req.keys.foldlM (commitKey req.startVersion req.commitVersion)
      (MvccTxn.new req.startVersion))
    write txn.writes
    releaseLatches req.keys
    return .ok

def rollBackMissing (req : CheckTxnStatusRequest) : Handling ν CheckTxnStatusResponse := do
  write ((MvccTxn.new req.lockTs).putWrite req.primaryKey req.lockTs
    (rollbackWrite req.lockTs)).writes
  releaseLatches [req.primaryKey]
  return .rolledBack .lockNotExistRollback

def kvCheckTxnStatusLatched (req : CheckTxnStatusRequest) :
    Handling ν CheckTxnStatusResponse := do
  let keys := [req.primaryKey]
  waitForLatches notify keys
  openReader
  let txn := MvccTxn.new req.lockTs
  match ← perform (getLock req.primaryKey) with
  | some lock =>
    if lock.ts ≠ req.lockTs then
      releaseLatches keys
      return .locked lock.ttl
    else if isExpired req.currentTs lock then
      let txn := txn.deleteLock req.primaryKey
      let txn := txn.putWrite req.primaryKey req.lockTs (rollbackWrite req.lockTs)
      let txn := txn.deleteValue req.primaryKey
      write txn.writes
      releaseLatches keys
      return .rolledBack .ttlExpireRollback
    else
      releaseLatches keys
      return .locked lock.ttl
  | none =>
    match ← perform (ifFound (txn.currentWrite req.primaryKey)) with
    | some (_, commitTs) =>
      if commitTs > 0 then
        releaseLatches keys
        return .committed commitTs
      else
        rollBackMissing req
    | none => rollBackMissing req

def kvBatchRollbackLatched (req : BatchRollbackRequest) : Handling ν BatchRollbackResponse := do
  waitForLatches notify req.keys
  openReader
  match ← perform (rollbackKeys req req.keys (MvccTxn.new req.startVersion)) with
  | .error error =>
    releaseLatches req.keys
    return .withKeyError error
  | .ok txn =>
    write txn.writes
    releaseLatches req.keys
    return .ok

def findLocks (req : ResolveLockRequest) : Handling ν (List Bytes) := do
  openReader
  perform (scanLocks req)

def kvResolveLockLatched (req : ResolveLockRequest) : Handling ν ResolveLockResponse := do
  let keysToResolve ← findLocks req
  if keysToResolve.isEmpty then
    return .ok
  else
    waitForLatches notify keysToResolve
    openReader
    let resolveKey :=
      if req.commitVersion > 0 then commitKey req.startVersion req.commitVersion
      else rollbackLockedKey req.startVersion
    let txn ← perform (keysToResolve.foldlM resolveKey (MvccTxn.new req.startVersion))
    write txn.writes
    releaseLatches keysToResolve
    return .ok

def Request.latched : Request → Handling ν Response
  | .prewrite req => return .prewrite (← kvPrewriteLatched notify req)
  | .commit req => return .commit (← kvCommitLatched notify req)
  | .checkTxnStatus req => return .checkTxnStatus (← kvCheckTxnStatusLatched notify req)
  | .batchRollback req => return .batchRollback (← kvBatchRollbackLatched notify req)
  | .resolveLock req => return .resolveLock (← kvResolveLockLatched notify req)

end Handlers

/-! ## One shape for all exits -/

def settle {ν : Type} (keys : List Bytes) : Verdict ρ → Handling ν ρ
  | .reply response => do
    releaseLatches keys
    return response
  | .write batch response => do
    write batch
    releaseLatches keys
    return response

def underLatches {ν : Type} (notify : ν) (keys : List Bytes) (handler : Reading (Verdict ρ)) :
    Handling ν ρ := do
  waitForLatches notify keys
  openReader
  settle keys (← perform handler)

section Shape

variable {ν : Type} {notify : ν}

theorem perform_bind (reading : Reading α) (continuation : α → Reading β) :
    (perform (reading >>= continuation) : Handling ν β) =
      perform reading >>= fun value => perform (continuation value) := by
  change perform (reading.bind continuation) = _
  induction reading with
  | done value => simp [Reading.bind, perform]
  | fail fault => rfl
  | getCf cf key next induction =>
    simp only [Reading.bind, perform, bind_assoc, induction]
  | iterCf cf next induction =>
    simp only [Reading.bind, perform, bind_assoc, induction]

@[simp] theorem perform_pure (value : α) :
    (perform (pure value : Reading α) : Handling ν α) = pure value :=
  rfl

theorem underLatches_congr {keys : List Bytes} {reading : Reading α}
    {continuation : α → Reading (Verdict ρ)} {next : α → Handling ν ρ}
    (same : ∀ value, next value = perform (continuation value) >>= settle keys) :
    (do
      waitForLatches notify keys
      openReader
      next (← perform reading)) =
      underLatches notify keys (reading >>= continuation) := by
  simp only [underLatches, perform_bind, bind_assoc, same]

theorem kvPrewriteLatched_eq (req : PrewriteRequest) :
    kvPrewriteLatched notify req =
      underLatches notify (req.mutations.map Mutation.key) (kvPrewrite req) := by
  apply underLatches_congr
  intro progress
  rcases progress with ⟨txn, errors⟩
  cases errors with
  | nil => simp [settle]
  | cons error rest => simp [settle]

theorem kvCommitLatched_eq (req : CommitRequest) :
    kvCommitLatched notify req = underLatches notify req.keys (kvCommit req) := by
  apply underLatches_congr
  intro error
  cases error with
  | none => simp [perform_bind, settle]
  | some error => simp [settle]

theorem rollBackMissing_eq (req : CheckTxnStatusRequest) :
    (rollBackMissing req : Handling ν CheckTxnStatusResponse) =
      settle [req.primaryKey] (.write ((MvccTxn.new req.lockTs).putWrite req.primaryKey req.lockTs
        (rollbackWrite req.lockTs)).writes (.rolledBack .lockNotExistRollback)) :=
  rfl

theorem kvCheckTxnStatusLatched_eq (req : CheckTxnStatusRequest) :
    kvCheckTxnStatusLatched notify req =
      underLatches notify [req.primaryKey] (kvCheckTxnStatus req) := by
  apply underLatches_congr
  intro held
  cases held with
  | some lock =>
    dsimp only
    split
    · simp [settle]
    · split <;> simp [settle]
  | none =>
    simp only [checkUnlocked, perform_bind, bind_assoc]
    congr 1
    funext current
    cases current with
    | none => simp [rollBackMissing_eq]
    | some found =>
      dsimp only
      split
      · simp [settle]
      · simp [rollBackMissing_eq]

theorem kvBatchRollbackLatched_eq (req : BatchRollbackRequest) :
    kvBatchRollbackLatched notify req = underLatches notify req.keys (kvBatchRollback req) := by
  apply underLatches_congr
  intro round
  cases round with
  | error error => simp [settle]
  | ok txn => simp [settle]

theorem kvResolveLockLatched_eq (req : ResolveLockRequest) :
    kvResolveLockLatched notify req = (do
      let keysToResolve ← findLocks req
      if keysToResolve.isEmpty then return .ok
      else underLatches notify keysToResolve (resolveKeys req keysToResolve)) := by
  rw [kvResolveLockLatched]
  congr 1
  funext keysToResolve
  split
  · rfl
  · rename_i notEmpty
    rw [resolveKeys, if_neg notEmpty]
    apply underLatches_congr
    intro txn
    simp [settle]

end Shape

end AegisDB.Server

import AegisDB.Mvcc.Lookup
import AegisDB.Server.TransactionApi

/-! # What each request does to the store

A request either leaves the store alone or writes one batch. The batch is a function
of the request and of the locks in the store, and it is only written when the checks
of the handler pass. -/

namespace AegisDB.Server

open Foundation Storage Mvcc MvccTxn List

/-! ## Locks as the handlers judge them -/

def lockOn (store : FlatStore) (key : Bytes) : Fallible (Option Lock) :=
  readLock ((store .lock).get? key)

def Available (store : FlatStore) (startTs : UInt64) (key : Bytes) : Prop :=
  ∃ held, lockOn store key = .ok held ∧ ∀ lock ∈ held, lock.ts = startTs

def ownLock (store : FlatStore) (startTs : UInt64) (key : Bytes) : Option Lock :=
  match lockOn store key with
  | .ok (some lock) => if lock.ts = startTs then some lock else none
  | _ => none

variable {startTs : UInt64} {key : Bytes}

theorem ownLock_eq_some_iff {store : FlatStore} {lock : Lock} :
    ownLock store startTs key = some lock ↔
      lockOn store key = .ok (some lock) ∧ lock.ts = startTs := by
  rw [ownLock]
  split
  · rename_i held locked
    rw [locked]
    split
    · rename_i same
      constructor
      · rintro ⟨⟩
        exact ⟨rfl, same⟩
      · rintro ⟨⟨⟩, _⟩
        rfl
    · rename_i different
      simp only [reduceCtorEq, Except.ok.injEq, Option.some.injEq, false_iff, not_and]
      rintro rfl
      exact different
  · rename_i other
    simp only [reduceCtorEq, false_iff, not_and]
    intro locked
    exact absurd locked (other lock)

/-! ## The batches -/

def lockKind : Op → Option WriteKind
  | .put => some .put
  | .del => some .delete
  | .rollback => none

def stageValue (startTs : UInt64) (mutation : Mutation) : Modify :=
  match mutation.op with
  | .put => .put (encodeKey mutation.key startTs) mutation.value .default
  | _ => .delete (encodeKey mutation.key startTs) .default

def prewriteModifies (req : PrewriteRequest) (mutation : Mutation) : List Modify :=
  match lockKind mutation.op with
  | some kind =>
    [stageValue req.startVersion mutation, .put mutation.key (req.lock kind).toBytes .lock]
  | none => []

def commitModifies (store : FlatStore) (startTs commitTs : UInt64) (key : Bytes) : List Modify :=
  match ownLock store startTs key with
  | some lock =>
    [.put (encodeKey key commitTs) (Write.toBytes { startTs, kind := lock.kind }) .write,
      .delete key .lock]
  | none => []

def rollbackModifies (startTs : UInt64) (key : Bytes) : List Modify :=
  [.put (encodeKey key startTs) (rollbackWrite startTs).toBytes .write,
    .delete (encodeKey key startTs) .default]

def unlockModifies (store : FlatStore) (startTs : UInt64) (key : Bytes) : List Modify :=
  if (ownLock store startTs key).isSome then [.delete key .lock] else []

def resolveModifies (store : FlatStore) (startTs : UInt64) (key : Bytes) : List Modify :=
  if (ownLock store startTs key).isSome then
    .delete key .lock :: rollbackModifies startTs key
  else []

/-! ## Prewrite -/

variable {store : FlatStore}

variable {txn : MvccTxn}

theorem stageMutation_cases (req : PrewriteRequest) (errors : List KeyError)
    (mutation : Mutation) (sameTs : txn.startTs = req.startVersion) :
    (lockKind mutation.op = none ∧ ∃ error,
        stageMutation req txn errors mutation = (txn, errors ++ [error])) ∨
      ((lockKind mutation.op).isSome ∧ stageMutation req txn errors mutation =
        (txn.extend (prewriteModifies req mutation), errors)) := by
  cases operation : mutation.op with
  | put =>
    refine .inr ⟨rfl, ?_⟩
    simp [stageMutation, operation, prewriteModifies, lockKind, stageValue, putValue,
      MvccTxn.putLock, MvccTxn.push, sameTs]
  | del =>
    refine .inr ⟨rfl, ?_⟩
    simp [stageMutation, operation, prewriteModifies, lockKind, stageValue, deleteValue,
      MvccTxn.putLock, MvccTxn.push, sameTs]
  | rollback =>
    exact .inl ⟨rfl, .ofAbort "unsupported operation: Rollback", by simp [stageMutation, operation]⟩

theorem run_prewriteUnlocked (req : PrewriteRequest) (errors : List KeyError)
    (mutation : Mutation) (sameTs : txn.startTs = req.startVersion) :
    (prewriteUnlocked req txn errors mutation).run store =
      (fun _ => stageMutation req txn errors mutation) <$>
        found (mostRecentWriteIn req.startVersion mutation.key (store .write)) := by
  rw [prewriteUnlocked, Reading.run_bind, run_ifFound, run_mostRecentWrite, sameTs]
  cases outcome : mostRecentWriteIn req.startVersion mutation.key (store .write) with
  | error fault => cases fault <;> rfl
  | ok result =>
    rcases result with ⟨write?, commitTs⟩
    cases write? with
    | none => rfl
    | some write =>
      have notNewer : ¬ commitTs > req.startVersion := by
        rw [mostRecentWriteIn_eq] at outcome
        exact not_lt.mpr (le_of_mostRecentWriteFrom outcome)
      change Reading.run store (if _ then _ else _) = _
      rw [if_neg notNewer]
      rfl

theorem run_prewriteMutation (req : PrewriteRequest) (txn : MvccTxn) (errors : List KeyError)
    (mutation : Mutation) :
    (prewriteMutation req (txn, errors) mutation).run store =
      lockOn store mutation.key >>= fun held => match held with
        | some lock =>
          if lock.ts ≠ req.startVersion then
            .ok (txn, errors ++ [.ofLocked (lockInfo mutation.key lock)])
          else
            (prewriteUnlocked req txn errors mutation).run store
        | none => (prewriteUnlocked req txn errors mutation).run store := by
  rw [prewriteMutation, Reading.run_bind, run_getLock]
  congr 1
  funext held
  cases held with
  | none => rfl
  | some lock =>
    change Reading.run store (if _ then _ else _) = if _ then _ else _
    split <;> rfl

variable {req : PrewriteRequest} {txn' : MvccTxn} {errors errors' : List KeyError}
  {mutation : Mutation}

theorem prewriteMutation_cases (sameTs : txn.startTs = req.startVersion)
    (ran : (prewriteMutation req (txn, errors) mutation).run store = .ok (txn', errors')) :
    (txn' = txn ∧ ∃ error, errors' = errors ++ [error]) ∨
      (Available store req.startVersion mutation.key ∧ (lockKind mutation.op).isSome ∧
        txn' = txn.extend (prewriteModifies req mutation) ∧ errors' = errors) := by
  rw [run_prewriteMutation, run_prewriteUnlocked req errors mutation sameTs] at ran
  rcases Fallible.bind_eq_ok_iff.mp ran with ⟨held, locked, continued⟩
  have staged (available : ∀ lock ∈ held, lock.ts = req.startVersion)
      (done : (fun _ => stageMutation req txn errors mutation) <$>
        found (mostRecentWriteIn req.startVersion mutation.key (store .write)) =
          .ok (txn', errors')) :
      (txn' = txn ∧ ∃ error, errors' = errors ++ [error]) ∨
        (Available store req.startVersion mutation.key ∧ (lockKind mutation.op).isSome ∧
          txn' = txn.extend (prewriteModifies req mutation) ∧ errors' = errors) := by
    have result : stageMutation req txn errors mutation = (txn', errors') := by
      cases lookup : found (mostRecentWriteIn req.startVersion mutation.key (store .write)) with
      | error fault => simp [lookup] at done
      | ok _ =>
        rw [lookup] at done
        exact Except.ok.inj done
    rcases stageMutation_cases req errors mutation sameTs with
      ⟨_, error, equal⟩ | ⟨supported, equal⟩
    · rcases Prod.mk.inj (equal.symm.trans result) with ⟨rfl, rfl⟩
      exact .inl ⟨rfl, error, rfl⟩
    · rcases Prod.mk.inj (equal.symm.trans result) with ⟨rfl, rfl⟩
      exact .inr ⟨⟨held, locked, available⟩, supported, rfl, rfl⟩
  cases held with
  | none => exact staged (by simp) continued
  | some lock =>
    dsimp only at continued
    split at continued
    · rcases Prod.mk.inj (Except.ok.inj continued) with ⟨rfl, rfl⟩
      exact .inl ⟨rfl, _, rfl⟩
    · rename_i same
      exact staged (by simpa using same) continued

theorem prewriteMutation_of_available (errors : List KeyError)
    (sameTs : txn.startTs = req.startVersion) (versioned : Versioned (store .write))
    (available : Available store req.startVersion mutation.key)
    (supported : (lockKind mutation.op).isSome) :
    (prewriteMutation req (txn, errors) mutation).run store =
      .ok (txn.extend (prewriteModifies req mutation), errors) := by
  rcases available with ⟨held, locked, own⟩
  have lookup : ∃ result, found (mostRecentWriteIn req.startVersion mutation.key (store .write)) =
      .ok result := by
    rcases mostRecentWriteIn_ok versioned req.startVersion mutation.key with ⟨⟨write?, ts⟩, walked⟩
    rw [walked]
    cases write? <;> exact ⟨_, rfl⟩
  rcases lookup with ⟨result, looked⟩
  have staged : stageMutation req txn errors mutation =
      (txn.extend (prewriteModifies req mutation), errors) := by
    rcases stageMutation_cases req errors mutation sameTs with ⟨unsupported, _⟩ | ⟨_, equal⟩
    · simp [unsupported] at supported
    · exact equal
  rw [run_prewriteMutation, run_prewriteUnlocked req errors mutation sameTs, locked, looked, staged]
  cases held with
  | none => rfl
  | some lock =>
    have same := own lock rfl
    simp [same, bind, Except.bind]

def PrewriteAccepted (store : FlatStore) (req : PrewriteRequest) : Prop :=
  ∀ mutation ∈ req.mutations,
    Available store req.startVersion mutation.key ∧ (lockKind mutation.op).isSome

variable {mutations : List Mutation}

theorem prewriteMutations_cases (sameTs : txn.startTs = req.startVersion)
    (ran : (mutations.foldlM (prewriteMutation req) (txn, errors)).run store =
      .ok (txn', errors')) :
    (∃ more, more ≠ [] ∧ errors' = errors ++ more) ∨
      (errors' = errors ∧ txn' = txn.extend (mutations.flatMap (prewriteModifies req)) ∧
        ∀ mutation ∈ mutations,
          Available store req.startVersion mutation.key ∧ (lockKind mutation.op).isSome) := by
  induction mutations generalizing txn errors with
  | nil =>
    rcases Prod.mk.inj (Except.ok.inj ran) with ⟨rfl, rfl⟩
    exact .inr ⟨rfl, by simp, by simp⟩
  | cons mutation rest induction =>
    rw [foldlM_cons, Reading.run_bind] at ran
    rcases Fallible.bind_eq_ok_iff.mp ran with ⟨⟨txn₁, errors₁⟩, first, others⟩
    rcases prewriteMutation_cases sameTs first with
      ⟨rfl, error, rfl⟩ | ⟨available, supported, rfl, rfl⟩
    · rcases induction sameTs others with ⟨more, _, rfl⟩ | ⟨rfl, _⟩
      · exact .inl ⟨error :: more, by simp, by simp⟩
      · exact .inl ⟨[error], by simp, rfl⟩
    · have extendedTs : (txn.extend (prewriteModifies req mutation)).startTs =
          req.startVersion := sameTs
      rcases induction extendedTs others with ⟨more, nonempty, rfl⟩ | ⟨rfl, rfl, accepted⟩
      · exact .inl ⟨more, nonempty, rfl⟩
      · refine .inr ⟨rfl, by simp, ?_⟩
        intro other member
        rcases mem_cons.mp member with rfl | restMember
        · exact ⟨available, supported⟩
        · exact accepted other restMember

theorem prewriteMutations_of_accepted (sameTs : txn.startTs = req.startVersion)
    (versioned : Versioned (store .write)) (accepted : ∀ mutation ∈ mutations,
      Available store req.startVersion mutation.key ∧ (lockKind mutation.op).isSome) :
    (mutations.foldlM (prewriteMutation req) (txn, [])).run store =
      .ok (txn.extend (mutations.flatMap (prewriteModifies req)), []) := by
  induction mutations generalizing txn with
  | nil => simp
  | cons mutation rest induction =>
    have head := accepted mutation mem_cons_self
    rw [foldlM_cons, Reading.run_bind,
      prewriteMutation_of_available [] sameTs versioned head.1 head.2]
    change Reading.run store (rest.foldlM _ _) = _
    rw [induction (by simpa using sameTs)
      (fun other member => accepted other (mem_cons_of_mem _ member))]
    simp

variable {batch : List Modify} {response : PrewriteResponse}

theorem kvPrewrite_write (ran : (kvPrewrite req).run store = .ok (.write batch response)) :
    PrewriteAccepted store req ∧ batch = req.mutations.flatMap (prewriteModifies req) ∧
      response = .ok := by
  rw [kvPrewrite, Reading.run_bind] at ran
  rcases Fallible.bind_eq_ok_iff.mp ran with ⟨⟨txn, errors⟩, collected, ended⟩
  cases errors with
  | cons error others => cases ended
  | nil =>
    cases ended
    rcases prewriteMutations_cases rfl collected with
      ⟨more, nonempty, equal⟩ | ⟨_, rfl, accepted⟩
    · exact absurd (nil_eq_append_iff.mp equal).2 nonempty
    · exact ⟨accepted, rfl, rfl⟩

theorem kvPrewrite_of_accepted (versioned : Versioned (store .write))
    (accepted : PrewriteAccepted store req) :
    (kvPrewrite req).run store =
      .ok (.write (req.mutations.flatMap (prewriteModifies req)) .ok) := by
  rw [kvPrewrite, Reading.run_bind, prewriteMutations_of_accepted rfl versioned accepted]
  rfl

theorem kvPrewrite_reply
    (ran : (kvPrewrite req).run store = .ok (.reply response)) : response.errors ≠ [] := by
  rw [kvPrewrite, Reading.run_bind] at ran
  rcases Fallible.bind_eq_ok_iff.mp ran with ⟨⟨txn, errors⟩, _, ended⟩
  cases errors with
  | nil => cases ended
  | cons error others =>
    cases ended
    simp

/-! ## Commit and lock resolution -/

theorem run_ownLock (startTs : UInt64) (txn : MvccTxn) (key : Bytes) (settle : Lock → MvccTxn) :
    (getLock key >>= fun
      | some lock => if lock.ts = startTs then pure (settle lock) else pure txn
      | none => pure txn : Reading MvccTxn).run store =
      (fun _ => ((ownLock store startTs key).map settle).getD txn) <$> lockOn store key := by
  rw [Reading.run_bind, run_getLock, ownLock]
  change (lockOn store key >>= _) = _
  cases lockOn store key with
  | error fault => rfl
  | ok held =>
    cases held with
    | none => rfl
    | some lock =>
      change Reading.run store (if _ then _ else _) = _
      by_cases own : lock.ts = startTs
      · simp [own]
      · simp [own]

theorem run_commitKey (startTs commitTs : UInt64) (txn : MvccTxn) (key : Bytes) :
    (commitKey startTs commitTs txn key).run store =
      (fun _ => txn.extend (commitModifies store startTs commitTs key)) <$> lockOn store key := by
  apply (run_ownLock startTs txn key _).trans
  congr 1
  funext _
  rw [commitModifies]
  cases ownLock store startTs key with
  | none => exact (extend_nil txn).symm
  | some lock => simp [MvccTxn.putWrite, MvccTxn.deleteLock, MvccTxn.push]

theorem run_rollbackLockedKey (startTs : UInt64) (key : Bytes) (sameTs : txn.startTs = startTs) :
    (rollbackLockedKey startTs txn key).run store =
      (fun _ => txn.extend (resolveModifies store startTs key)) <$> lockOn store key := by
  apply (run_ownLock startTs txn key _).trans
  congr 1
  funext _
  rw [resolveModifies]
  cases ownLock store startTs key with
  | none => exact (extend_nil txn).symm
  | some lock =>
    simp [sameTs, rollbackModifies, putWrite, deleteLock, deleteValue,
      MvccTxn.push]

variable {keys : List Bytes}

theorem foldlM_extend {round : MvccTxn → Bytes → Reading MvccTxn} {added : Bytes → List Modify}
    (extends_ : ∀ {txn key txn'}, txn.startTs = startTs →
      (round txn key).run store = .ok txn' → txn' = txn.extend (added key))
    (sameTs : txn.startTs = startTs)
    (ran : (keys.foldlM round txn).run store = .ok txn') :
    txn' = txn.extend (keys.flatMap added) := by
  induction keys generalizing txn with
  | nil =>
    cases ran
    simp
  | cons key rest induction =>
    rw [foldlM_cons, Reading.run_bind] at ran
    rcases Fallible.bind_eq_ok_iff.mp ran with ⟨next, first, others⟩
    rcases extends_ sameTs first with rfl
    have nextTs : (txn.extend (added key)).startTs = startTs := sameTs
    rw [induction nextTs others]
    simp

theorem map_const_eq_ok {outcome : Fallible α} {value result : β}
    (mapped : (fun _ => value) <$> outcome = .ok result) : result = value := by
  cases outcome with
  | error fault => cases mapped
  | ok _ =>
    cases mapped
    rfl

theorem commitKeys_eq {commitTs : UInt64} (sameTs : txn.startTs = startTs)
    (ran : (keys.foldlM (commitKey startTs commitTs) txn).run store = .ok txn') :
    txn' = txn.extend (keys.flatMap (commitModifies store startTs commitTs)) :=
  foldlM_extend (fun _ first => map_const_eq_ok (run_commitKey .. ▸ first)) sameTs ran

theorem rollbackLockedKeys_eq (sameTs : txn.startTs = startTs)
    (ran : (keys.foldlM (rollbackLockedKey startTs) txn).run store = .ok txn') :
    txn' = txn.extend (keys.flatMap (resolveModifies store startTs)) :=
  foldlM_extend (fun same first => map_const_eq_ok (run_rollbackLockedKey _ _ same ▸ first))
    sameTs ran

theorem kvCommit_cases {req : CommitRequest} {verdict : Verdict CommitResponse}
    (ran : (kvCommit req).run store = .ok verdict) :
    (∃ error, verdict = .reply (.withKeyError error)) ∨
      ((checkKeysLocked req req.keys).run store = .ok none ∧
        verdict = .write
          (req.keys.flatMap (commitModifies store req.startVersion req.commitVersion)) .ok) := by
  rw [kvCommit, Reading.run_bind] at ran
  rcases Fallible.bind_eq_ok_iff.mp ran with ⟨checked, isChecked, continued⟩
  cases checked with
  | some error =>
    cases continued
    exact .inl ⟨error, rfl⟩
  | none =>
    rw [Reading.run_bind] at continued
    rcases Fallible.bind_eq_ok_iff.mp continued with ⟨txn, collected, ended⟩
    cases ended
    rw [commitKeys_eq (startTs_new _) collected]
    exact .inr ⟨isChecked, rfl⟩

theorem kvCommit_write {req : CommitRequest} {response : CommitResponse}
    (ran : (kvCommit req).run store = .ok (.write batch response)) :
    batch = req.keys.flatMap (commitModifies store req.startVersion req.commitVersion) := by
  rcases kvCommit_cases ran with ⟨error, replied⟩ | ⟨_, written⟩
  · cases replied
  · cases written
    rfl

theorem resolveKeys_write {req : ResolveLockRequest} {response : ResolveLockResponse}
    (ran : (resolveKeys req keys).run store = .ok (.write batch response)) :
    batch = keys.flatMap (if req.commitVersion > 0
      then commitModifies store req.startVersion req.commitVersion
      else resolveModifies store req.startVersion) := by
  rw [resolveKeys] at ran
  split at ran
  · cases ran
  · rw [Reading.run_bind] at ran
    rcases Fallible.bind_eq_ok_iff.mp ran with ⟨txn, collected, ended⟩
    cases ended
    split_ifs at collected with commits
    · rw [commitKeys_eq (startTs_new _) collected, if_pos commits]
      rfl
    · rw [rollbackLockedKeys_eq (startTs_new _) collected, if_neg commits]
      rfl

/-! ## Transaction status -/

theorem run_kvCheckTxnStatus (req : CheckTxnStatusRequest) :
    (kvCheckTxnStatus req).run store =
      lockOn store req.primaryKey >>= fun held => match held with
        | some lock =>
          if lock.ts ≠ req.lockTs then .ok (.reply (.locked lock.ttl))
          else if isExpired req.currentTs lock then
            .ok (.write (.delete req.primaryKey .lock :: rollbackModifies req.lockTs req.primaryKey)
              (.rolledBack .ttlExpireRollback))
          else .ok (.reply (.locked lock.ttl))
        | none =>
          found (currentWriteIn req.lockTs req.primaryKey (store .write)) >>= fun current =>
            match current with
            | some (_, commitTs) =>
              if commitTs > 0 then .ok (.reply (.committed commitTs))
              else .ok (.write [.put (encodeKey req.primaryKey req.lockTs)
                (rollbackWrite req.lockTs).toBytes .write] (.rolledBack .lockNotExistRollback))
            | none => .ok (.write [.put (encodeKey req.primaryKey req.lockTs)
                (rollbackWrite req.lockTs).toBytes .write]
                (.rolledBack .lockNotExistRollback)) := by
  rw [kvCheckTxnStatus, Reading.run_bind, run_getLock]
  congr 1
  funext held
  cases held with
  | some lock =>
    change Reading.run store (if _ then _ else _) = if _ then _ else _
    split
    · rfl
    · split <;> rfl
  | none =>
    change (checkUnlocked req).run store = _
    rw [checkUnlocked, Reading.run_bind, run_ifFound, run_currentWrite]
    congr 1
    funext current
    rcases current with _ | ⟨write, commitTs⟩
    · rfl
    · change Reading.run store (if _ then _ else _) = if _ then _ else _
      split <;> rfl

theorem kvCheckTxnStatus_write {req : CheckTxnStatusRequest} {response : CheckTxnStatusResponse}
    (ran : (kvCheckTxnStatus req).run store = .ok (.write batch response)) :
    (∃ lock, ownLock store req.lockTs req.primaryKey = some lock ∧
        isExpired req.currentTs lock ∧
        batch = .delete req.primaryKey .lock :: rollbackModifies req.lockTs req.primaryKey) ∨
      (lockOn store req.primaryKey = .ok none ∧
        batch = [.put (encodeKey req.primaryKey req.lockTs)
          (rollbackWrite req.lockTs).toBytes .write]) := by
  rw [run_kvCheckTxnStatus] at ran
  rcases Fallible.bind_eq_ok_iff.mp ran with ⟨held, locked, continued⟩
  cases held with
  | some lock =>
    dsimp only at continued
    split at continued
    · cases continued
    · rename_i same
      split_ifs at continued with expired
      · cases continued
        exact .inl ⟨lock, ownLock_eq_some_iff.mpr ⟨locked, by simpa using same⟩, expired, rfl⟩
      · cases continued
  | none =>
    rcases Fallible.bind_eq_ok_iff.mp continued with ⟨current, _, ended⟩
    rcases current with _ | ⟨write, commitTs⟩
    · cases ended
      exact .inr ⟨locked, rfl⟩
    · dsimp only at ended
      split at ended
      · cases ended
      · cases ended
        exact .inr ⟨locked, rfl⟩

/-! ## Batch rollback -/

theorem rollbackUncommitted_ok {req : BatchRollbackRequest}
    (sameTs : txn.startTs = req.startVersion)
    (ran : (rollbackUncommitted req txn key).run store = .ok (.ok txn')) :
    txn' = txn.extend (rollbackModifies req.startVersion key) := by
  have rolledBack : (txn.putWrite key req.startVersion
      (rollbackWrite req.startVersion)).deleteValue key =
      txn.extend (rollbackModifies req.startVersion key) := by
    simp [MvccTxn.putWrite, MvccTxn.deleteValue, MvccTxn.push, rollbackModifies, sameTs]
  rw [rollbackUncommitted, Reading.run_bind] at ran
  rcases Fallible.bind_eq_ok_iff.mp ran with ⟨current, _, ended⟩
  rcases current with _ | ⟨write, commitTs⟩
  · cases ended
    exact rolledBack
  · change Reading.run store (if _ then _ else _) = _ at ended
    split at ended
    · cases ended
    · cases ended
      exact rolledBack

theorem rollbackKey_ok {req : BatchRollbackRequest} (sameTs : txn.startTs = req.startVersion)
    (ran : (rollbackKey req txn key).run store = .ok (.ok txn')) :
    Available store req.startVersion key ∧
      txn' = txn.extend (unlockModifies store req.startVersion key ++
        rollbackModifies req.startVersion key) := by
  rw [rollbackKey, Reading.run_bind, run_getLock] at ran
  rcases Fallible.bind_eq_ok_iff.mp ran with ⟨held, locked, continued⟩
  cases held with
  | none =>
    have none : ownLock store req.startVersion key = none := by
      simp [ownLock, lockOn, locked]
    exact ⟨⟨_, locked, by simp⟩, by
      simpa [unlockModifies, none] using rollbackUncommitted_ok sameTs continued⟩
  | some lock =>
    change Reading.run store (if _ then _ else _) = _ at continued
    split at continued
    · cases continued
    · rename_i same
      have same : lock.ts = req.startVersion := by simpa using same
      have own := ownLock_eq_some_iff.mpr ⟨locked, same⟩
      refine ⟨⟨_, locked, by simpa using same⟩, ?_⟩
      have unlockedTs : (txn.deleteLock key).startTs = req.startVersion := sameTs
      have equal := rollbackUncommitted_ok unlockedTs continued
      simpa [unlockModifies, own, MvccTxn.deleteLock, MvccTxn.push] using equal

def RollbackAccepted (store : FlatStore) (req : BatchRollbackRequest) : Prop :=
  ∀ key ∈ req.keys, Available store req.startVersion key

theorem rollbackKeys_ok {req : BatchRollbackRequest} (sameTs : txn.startTs = req.startVersion)
    (ran : (rollbackKeys req keys txn).run store = .ok (.ok txn')) :
    (∀ key ∈ keys, Available store req.startVersion key) ∧
      txn' = txn.extend (keys.flatMap fun key =>
        unlockModifies store req.startVersion key ++ rollbackModifies req.startVersion key) := by
  induction keys generalizing txn with
  | nil =>
    cases ran
    simp
  | cons key rest induction =>
    rw [rollbackKeys, Reading.run_bind] at ran
    rcases Fallible.bind_eq_ok_iff.mp ran with ⟨round, first, others⟩
    cases round with
    | error error => cases others
    | ok next =>
      rcases rollbackKey_ok sameTs first with ⟨available, rfl⟩
      rcases induction (by simpa using sameTs) others with ⟨restAvailable, rfl⟩
      exact ⟨by simpa [available] using restAvailable, by simp⟩

theorem kvBatchRollback_cases {req : BatchRollbackRequest} {verdict : Verdict BatchRollbackResponse}
    (ran : (kvBatchRollback req).run store = .ok verdict) :
    (∃ error, verdict = .reply (.withKeyError error)) ∨
      (RollbackAccepted store req ∧
        verdict = .write (req.keys.flatMap fun key =>
          unlockModifies store req.startVersion key ++ rollbackModifies req.startVersion key)
          .ok) := by
  rw [kvBatchRollback, Reading.run_bind] at ran
  rcases Fallible.bind_eq_ok_iff.mp ran with ⟨outcome, collected, ended⟩
  cases outcome with
  | error error =>
    cases ended
    exact .inl ⟨error, rfl⟩
  | ok txn =>
    cases ended
    rcases rollbackKeys_ok rfl collected with ⟨accepted, rfl⟩
    exact .inr ⟨accepted, rfl⟩

theorem kvBatchRollback_write {req : BatchRollbackRequest} {response : BatchRollbackResponse}
    (ran : (kvBatchRollback req).run store = .ok (.write batch response)) :
    RollbackAccepted store req ∧
      batch = req.keys.flatMap fun key =>
        unlockModifies store req.startVersion key ++ rollbackModifies req.startVersion key := by
  rcases kvBatchRollback_cases ran with ⟨error, replied⟩ | ⟨accepted, written⟩
  · cases replied
  · cases written
    exact ⟨accepted, rfl⟩

/-! ## Any request -/

inductive Writes (store : FlatStore) : Request → List Modify → Prop
  | prewrite {req : PrewriteRequest} (accepted : PrewriteAccepted store req) :
      Writes store (.prewrite req) (req.mutations.flatMap (prewriteModifies req))
  | commit {req : CommitRequest} :
      Writes store (.commit req)
        (req.keys.flatMap (commitModifies store req.startVersion req.commitVersion))
  | expire {req : CheckTxnStatusRequest} {lock : Lock}
      (own : ownLock store req.lockTs req.primaryKey = some lock)
      (expired : isExpired req.currentTs lock) :
      Writes store (.checkTxnStatus req)
        (.delete req.primaryKey .lock :: rollbackModifies req.lockTs req.primaryKey)
  | mark {req : CheckTxnStatusRequest} (unlocked : lockOn store req.primaryKey = .ok none) :
      Writes store (.checkTxnStatus req)
        [.put (encodeKey req.primaryKey req.lockTs) (rollbackWrite req.lockTs).toBytes .write]
  | rollback {req : BatchRollbackRequest} (accepted : RollbackAccepted store req) :
      Writes store (.batchRollback req) (req.keys.flatMap fun key =>
        unlockModifies store req.startVersion key ++ rollbackModifies req.startVersion key)
  | resolveCommit {req : ResolveLockRequest} (keys : List Bytes) (commits : req.commitVersion > 0) :
      Writes store (.resolveLock req)
        (keys.flatMap (commitModifies store req.startVersion req.commitVersion))
  | resolveRollback {req : ResolveLockRequest} (keys : List Bytes)
      (rollsBack : ¬ req.commitVersion > 0) :
      Writes store (.resolveLock req) (keys.flatMap (resolveModifies store req.startVersion))

theorem writes_of_resolveKeys {req : ResolveLockRequest} {response : ResolveLockResponse}
    (ran : (resolveKeys req keys).run store = .ok (.write batch response)) :
    Writes store (.resolveLock req) batch := by
  have equal := resolveKeys_write ran
  by_cases commits : req.commitVersion > 0
  · rw [if_pos commits] at equal
    exact equal ▸ .resolveCommit keys commits
  · rw [if_neg commits] at equal
    exact equal ▸ .resolveRollback keys commits

theorem map_eq_write {verdict : Verdict ρ} {function : ρ → ρ'}
    {response : ρ'} (mapped : verdict.map function = .write batch response) :
    ∃ inner, verdict = .write batch inner ∧ response = function inner := by
  cases verdict with
  | reply inner => cases mapped
  | write inner response =>
    cases mapped
    exact ⟨_, rfl, rfl⟩

theorem run_map_eq_write {handler : Reading (Verdict ρ)} {function : ρ → ρ'} {response : ρ'}
    (ran : (do return (← handler).map function).run store = .ok (.write batch response)) :
    ∃ inner, handler.run store = .ok (.write batch inner) ∧ response = function inner := by
  rw [Reading.run_bind] at ran
  rcases Fallible.bind_eq_ok_iff.mp ran with ⟨verdict, inner, mapped⟩
  rcases map_eq_write (Except.ok.inj mapped) with ⟨response, rfl, equal⟩
  exact ⟨response, inner, equal⟩

theorem writes_of_handler {request : Request} {response : Response}
    (ran : request.handler.run store = .ok (.write batch response)) :
    Writes store request batch := by
  cases request with
  | prewrite req =>
    rcases run_map_eq_write ran with ⟨_, inner, _⟩
    rcases kvPrewrite_write inner with ⟨accepted, rfl, _⟩
    exact .prewrite accepted
  | commit req =>
    rcases run_map_eq_write ran with ⟨_, inner, _⟩
    exact kvCommit_write inner ▸ .commit
  | checkTxnStatus req =>
    rcases run_map_eq_write ran with ⟨_, inner, _⟩
    rcases kvCheckTxnStatus_write inner with ⟨lock, own, expired, rfl⟩ | ⟨unlocked, rfl⟩
    · exact .expire own expired
    · exact .mark unlocked
  | batchRollback req =>
    rcases run_map_eq_write ran with ⟨_, inner, _⟩
    rcases kvBatchRollback_write inner with ⟨accepted, rfl⟩
    exact .rollback accepted
  | resolveLock req =>
    rcases run_map_eq_write ran with ⟨_, inner, _⟩
    rw [kvResolveLock, Reading.run_bind] at inner
    rcases Fallible.bind_eq_ok_iff.mp inner with ⟨keys, _, resolved⟩
    exact writes_of_resolveKeys resolved

def Request.step (store : FlatStore) (request : Request) : FlatStore :=
  (serve store request.handler).1

theorem serve_cases (store : FlatStore) (handler : Reading (Verdict ρ)) :
    (serve store handler).1 = store ∨ ∃ batch response,
      handler.run store = .ok (.write batch response) ∧
        (serve store handler).1 = store.write batch := by
  rw [serve]
  split
  · exact .inl rfl
  · exact .inr ⟨_, _, ‹_›, rfl⟩
  · exact .inl rfl

theorem serve_map_fst (store : FlatStore) (handler : Reading (Verdict ρ)) (function : ρ → ρ') :
    (serve store (do return (← handler).map function)).1 = (serve store handler).1 := by
  rw [serve, serve, Reading.run_bind]
  cases handler.run store with
  | error fault => rfl
  | ok verdict => cases verdict <;> rfl

theorem Request.step_cases (store : FlatStore) (request : Request) :
    request.step store = store ∨
      ∃ batch, Writes store request batch ∧ request.step store = store.write batch := by
  rcases serve_cases store request.handler with same | ⟨batch, response, ran, written⟩
  · exact .inl same
  · exact .inr ⟨batch, writes_of_handler ran, written⟩

end AegisDB.Server

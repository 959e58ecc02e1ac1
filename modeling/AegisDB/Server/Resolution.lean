import AegisDB.Server.Outcomes

/-! # Lock resolution settles one transaction

`kv_resolve_lock` by itself: the scan finds every lock of the transaction, and each of them
is turned into a record. -/

namespace AegisDB.Server

open Foundation Storage Mvcc OrderedMap List

def ParseableLocks (store : FlatStore) : Prop :=
  ∀ entry ∈ (store .lock).entries, ∃ lock, Lock.parse entry.2 = .ok lock

section Scan

variable {store : FlatStore}

theorem ParseableLocks.lockOn (parseable : ParseableLocks store) (key : Bytes) :
    ∃ held, Server.lockOn store key = .ok held := by
  cases present : (store .lock).get? key with
  | none =>
    refine ⟨none, ?_⟩
    rw [Server.lockOn, present]
    rfl
  | some value =>
    rcases parseable _ (get?_eq_some_iff.mp present) with ⟨lock, parses⟩
    exact ⟨some lock, lockOn_of_parse present parses⟩

/-- The keys under which there is a lock of the transaction. -/
def lockedBy (startTs : UInt64) (entries : List (Bytes × Bytes)) : List Bytes :=
  (entries.filter fun entry =>
    (Lock.parse entry.2).toOption.any fun lock => lock.ts = startTs).map Prod.fst

theorem keysLockedBy_cases (startTs : UInt64) (entries : List (Bytes × Bytes)) :
    keysLockedBy startTs entries = .ok (lockedBy startTs entries) ∨
      ∃ entry ∈ entries, ∃ message, Lock.parse entry.2 = .error (.panic message) ∧
        keysLockedBy startTs entries = .error (.panic message) := by
  induction entries with
  | nil => exact .inl rfl
  | cons head rest induction =>
    rcases head with ⟨key, value⟩
    rw [keysLockedBy]
    cases parsed : Lock.parse value with
    | error fault =>
      cases fault with
      | panic message => exact .inr ⟨_, mem_cons_self, message, parsed, rfl⟩
      | error message =>
        have passed : lockedBy startTs ((key, value) :: rest) = lockedBy startTs rest := by
          simp [lockedBy, parsed, Except.toOption]
        rw [passed]
        exact induction.imp_right fun ⟨entry, member, panics⟩ =>
          ⟨entry, mem_cons_of_mem _ member, panics⟩
    | ok lock =>
      rcases induction with found | ⟨entry, member, message, panics, fails⟩
      · left
        rw [found]
        by_cases own : lock.ts = startTs
        · simp [lockedBy, parsed, own, Except.toOption, bind, Except.bind, pure, Except.pure]
        · simp [lockedBy, parsed, own, Except.toOption, bind, Except.bind, pure, Except.pure]
      · right
        rw [fails]
        exact ⟨entry, mem_cons_of_mem _ member, message, panics, rfl⟩

theorem run_scanLocks (req : ResolveLockRequest) :
    (scanLocks req).run store = keysLockedBy req.startVersion (store .lock).entries := by
  have everything : (store .lock).seek [] = (store .lock).entries := by
    rw [seek_eq_filter, filter_eq_self]
    intro entry _
    simpa using le_of_isPrefix ( nil_prefix (l := entry.1))
  rw [scanLocks, Reading.run_bind, Reading.run_iter]
  change (Reading.lift _).run store = _
  rw [Reading.run_lift, everything]

theorem scanLocks_ok (parseable : ParseableLocks store) (req : ResolveLockRequest) :
    ∃ keys, (scanLocks req).run store = .ok keys ∧
      ∀ key, key ∈ keys ↔ ∃ lock, ownLock store req.startVersion key = some lock := by
  refine ⟨lockedBy req.startVersion (store .lock).entries, ?_, ?_⟩
  · rw [run_scanLocks]
    refine (keysLockedBy_cases _ _).resolve_right ?_
    intro panics
    rcases panics with ⟨entry, member, message, panics, _⟩
    rcases parseable entry member with ⟨lock, parses⟩
    cases parses.symm.trans panics
  · intro key
    simp only [lockedBy, mem_map, mem_filter, Option.any_eq_true]
    constructor
    · intro listed
      rcases listed with ⟨⟨_, value⟩, ⟨member, lock, parses, own⟩, rfl⟩
      rcases parseable _ member with ⟨stored, storedParses⟩
      have same : stored = lock := by simpa [storedParses, Except.toOption] using parses
      exact ⟨lock, ownLock_eq_some_iff.mpr ⟨lockOn_of_parse
        (get?_eq_some_iff.mpr member) (same ▸ storedParses), by simpa using own⟩⟩
    · intro held
      rcases held with ⟨lock, own⟩
      rcases ownLock_eq_some_iff.mp own with ⟨locked, same⟩
      cases present : (store .lock).get? key with
      | none =>
        rw [lockOn, present] at locked
        cases locked
      | some value =>
        have member := get?_eq_some_iff.mp present
        rcases parseable _ member with ⟨stored, parses⟩
        rw [lockOn_of_parse present parses] at locked
        cases locked
        exact ⟨(key, value), ⟨member, lock, by simp [parses, Except.toOption], by simpa using same⟩,
          rfl⟩

end Scan

/-! ## The batch -/

section Batch

variable {store : FlatStore}

def ResolveLockRequest.modifies (req : ResolveLockRequest) (store : FlatStore) :
    Bytes → List Modify :=
  if req.commitVersion > 0 then commitModifies store req.startVersion req.commitVersion
  else resolveModifies store req.startVersion

variable {startTs : UInt64}

theorem foldlM_ok {round : MvccTxn → Bytes → Reading MvccTxn} {added : Bytes → List Modify}
    (extends_ : ∀ {txn key}, txn.startTs = startTs →
      (round txn key).run store = .ok (txn.extend (added key)))
    (keys : List Bytes) {txn : MvccTxn} (sameTs : txn.startTs = startTs) :
    (keys.foldlM round txn).run store = .ok (txn.extend (keys.flatMap added)) := by
  induction keys generalizing txn with
  | nil => simp
  | cons key rest induction =>
    have nextTs : (txn.extend (added key)).startTs = startTs := sameTs
    rw [foldlM_cons, Reading.run_bind, extends_ sameTs]
    change (rest.foldlM round (txn.extend (added key))).run store = _
    rw [induction nextTs]
    simp

theorem resolveKeys_ok (parseable : ParseableLocks store) (req : ResolveLockRequest)
    (keys : List Bytes) :
    serve store (resolveKeys req keys) =
      (store.write (keys.flatMap (req.modifies store)), .ok .ok) := by
  have ran : (keys.foldlM (if req.commitVersion > 0
      then commitKey req.startVersion req.commitVersion else rollbackLockedKey req.startVersion)
      (MvccTxn.new req.startVersion)).run store =
        .ok ((MvccTxn.new req.startVersion).extend (keys.flatMap (req.modifies store))) := by
    rw [ResolveLockRequest.modifies]
    split
    · apply foldlM_ok _ keys (MvccTxn.startTs_new _)
      intro txn key _
      rcases parseable.lockOn key with ⟨held, locked⟩
      rw [run_commitKey, locked]
      rfl
    · apply foldlM_ok _ keys (MvccTxn.startTs_new _)
      intro txn key sameTs
      rcases parseable.lockOn key with ⟨held, locked⟩
      rw [run_rollbackLockedKey _ _ sameTs, locked]
      rfl
  rw [resolveKeys]
  cases keys with
  | nil => rfl
  | cons key rest =>
    change serve store (_ >>= _) = _
    rw [serve, Reading.run_bind, ran]
    rfl

theorem kvResolveLock_ok (parseable : ParseableLocks store) (req : ResolveLockRequest) :
    ∃ keys : List Bytes,
      (∀ key, key ∈ keys ↔ ∃ lock, ownLock store req.startVersion key = some lock) ∧
      serve store (kvResolveLock req) =
        (store.write (keys.flatMap (req.modifies store)), .ok .ok) := by
  rcases scanLocks_ok parseable req with ⟨keys, scanned, mem⟩
  refine ⟨keys, mem, ?_⟩
  rw [← resolveKeys_ok parseable req keys, serve, kvResolveLock, Reading.run_bind, scanned]
  rfl

theorem about_modifies (req : ResolveLockRequest) (key : Bytes) :
    About key (req.modifies store key) := by
  rw [ResolveLockRequest.modifies]
  split
  · exact about_commitModifies key
  · exact about_resolveModifies key

variable {key : Bytes} {lock : Lock}

theorem get?_write_resolveModifies (own : ownLock store startTs key = some lock) :
    (store.write (resolveModifies store startTs key) .lock).get? key = none ∧
      (store.write (resolveModifies store startTs key) .write).get? (encodeKey key startTs) =
        some (rollbackWrite startTs).toBytes ∧
      (store.write (resolveModifies store startTs key) .default).get? (encodeKey key startTs) =
        none := by
  rw [resolveModifies, own, rollbackModifies]
  simp [FlatStore.get?_apply, Modify.Touches, Modify.cf, Modify.key, Modify.value]

inductive ResolveLockRequest.Settles (req : ResolveLockRequest) (store : FlatStore) :
    Cf → Bytes → Prop
  | lock {key : Bytes} {lock : Lock} (own : ownLock store req.startVersion key = some lock) :
      Settles req store .lock key
  | commit {key : Bytes} {lock : Lock} (own : ownLock store req.startVersion key = some lock)
      (commits : req.commitVersion > 0) :
      Settles req store .write (encodeKey key req.commitVersion)
  | rollback {key : Bytes} {lock : Lock} (own : ownLock store req.startVersion key = some lock)
      (rollsBack : req.commitVersion = 0) :
      Settles req store .write (encodeKey key req.startVersion)
  | value {key : Bytes} {lock : Lock} (own : ownLock store req.startVersion key = some lock)
      (rollsBack : req.commitVersion = 0) :
      Settles req store .default (encodeKey key req.startVersion)

variable {req : ResolveLockRequest}

theorem settles_of_mem_modifies {modify : Modify}
    (member : modify ∈ req.modifies store key) : req.Settles store modify.cf modify.key := by
  rw [ResolveLockRequest.modifies] at member
  split_ifs at member with commits
  · rcases touches_commitModifies member with ⟨lock, own, isLock | isRecord⟩
    · rw [isLock.1, isLock.2]
      exact .lock own
    · rw [isRecord.1, isRecord.2]
      exact .commit own commits
  · have rollsBack : req.commitVersion = 0 := by simpa using commits
    rw [resolveModifies] at member
    split_ifs at member with held
    · rcases Option.isSome_iff_exists.mp held with ⟨lock, own⟩
      simp only [rollbackModifies, mem_cons, not_mem_nil, or_false] at member
      rcases member with rfl | rfl | rfl
      · exact .lock own
      · exact .rollback own rollsBack
      · exact .value own rollsBack
    · simp at member

variable {entry : Bytes}

theorem get?_write_of_not_settles {keys : List Bytes} {cf : Cf}
    (elsewhere : ¬ req.Settles store cf entry) :
    (store.write (keys.flatMap (req.modifies store)) cf).get? entry = (store cf).get? entry := by
  apply FlatStore.get?_write_of_untouched
  intro modify member touches
  rcases mem_flatMap.mp member with ⟨key, _, member⟩
  rw [← touches.1, ← touches.2] at elsewhere
  exact elsewhere (settles_of_mem_modifies member)

theorem get?_lock_write_modifies (own : ownLock store req.startVersion key = some lock) :
    (store.write (req.modifies store key) .lock).get? key = none := by
  rw [ResolveLockRequest.modifies]
  split
  · exact (get?_write_commitModifies own).2
  · exact (get?_write_resolveModifies own).1

theorem not_settles_value
    (commits : req.commitVersion > 0) : ¬ req.Settles store .default entry := by
  intro settles
  cases settles with
  | value own rollsBack =>
    rw [rollsBack] at commits
    exact absurd commits (lt_irrefl 0)

end Batch

/-- Resolution by itself: the transaction holds no lock afterwards, each of its locks has
become a record of its kind or a rollback, and nothing else has changed. -/
theorem kvResolveLock_settles (store : FlatStore) (req : ResolveLockRequest)
    (parseable : ParseableLocks store) :
    (serve store (kvResolveLock req)).2 = .ok .ok ∧
      (∀ key lock, lockOn (serve store (kvResolveLock req)).1 key = .ok (some lock) →
        lock.ts ≠ req.startVersion) ∧
      (∀ key lock, lockOn store key = .ok (some lock) → lock.ts = req.startVersion →
        ((serve store (kvResolveLock req)).1 .lock).get? key = none ∧
        (req.commitVersion > 0 →
          HoldsRecord (serve store (kvResolveLock req)).1 key req.commitVersion
              { startTs := req.startVersion, kind := lock.kind } ∧
            ∀ ts, ((serve store (kvResolveLock req)).1 .default).get? (encodeKey key ts) =
              (store .default).get? (encodeKey key ts)) ∧
        (req.commitVersion = 0 →
          HoldsRecord (serve store (kvResolveLock req)).1 key req.startVersion
              (rollbackWrite req.startVersion) ∧
            ((serve store (kvResolveLock req)).1 .default).get?
              (encodeKey key req.startVersion) = none)) ∧
      ∀ cf entry, ¬ req.Settles store cf entry →
        ((serve store (kvResolveLock req)).1 cf).get? entry = (store cf).get? entry := by
  rcases kvResolveLock_ok parseable req with ⟨keys, mem, served⟩
  rw [served]
  have listed {key : Bytes} {cf : Cf} {entry : Bytes} {lock : Lock}
      (own : ownLock store req.startVersion key = some lock) (isEntry : EntryOf key cf entry) :
      (store.write (keys.flatMap (req.modifies store)) cf).get? entry =
        (store.write (req.modifies store key) cf).get? entry :=
    get?_write_flatMap_of_mem (about_modifies req) ((mem key).mpr ⟨lock, own⟩) isEntry
  have unlocked {key : Bytes} {lock : Lock}
      (own : ownLock store req.startVersion key = some lock) :
      (store.write (keys.flatMap (req.modifies store)) .lock).get? key = none :=
    (listed own .lock).trans (get?_lock_write_modifies own)
  refine ⟨rfl, ?_, ?_, fun _ _ => get?_write_of_not_settles⟩
  · intro key lock locked same
    by_cases settles : req.Settles store .lock key
    · cases settles with
      | lock own =>
        rw [lockOn, unlocked own] at locked
        cases locked
    · rw [lockOn, get?_write_of_not_settles settles] at locked
      exact settles (.lock (ownLock_eq_some_iff.mpr ⟨locked, same⟩))
  · intro key lock locked same
    have own := ownLock_eq_some_iff.mpr ⟨locked, same⟩
    refine ⟨unlocked own, ?_, ?_⟩
    · intro commits
      constructor
      · rw [HoldsRecord, listed own (.record _), ResolveLockRequest.modifies, if_pos commits]
        exact (get?_write_commitModifies own).1
      · intro ts
        exact get?_write_of_not_settles (not_settles_value commits)
    · intro rollsBack
      have notPositive : ¬ req.commitVersion > 0 := by simp [rollsBack]
      rw [HoldsRecord, listed own (.record _), listed own (.value _),
        ResolveLockRequest.modifies, if_neg notPositive]
      exact (get?_write_resolveModifies own).2

theorem kvResolveLock_settles_one_of_two :
    (serve (after [putOne [1] [7] 1, putOne [2] [8] 2])
        (kvResolveLock { startVersion := 1, commitVersion := 3 })).2 = .ok .ok ∧
      ∀ key lock, lockOn (serve (after [putOne [1] [7] 1, putOne [2] [8] 2])
          (kvResolveLock { startVersion := 1, commitVersion := 3 })).1 key = .ok (some lock) →
        lock.ts ≠ 1 := by
  have locks : (after [putOne [1] [7] 1, putOne [2] [8] 2] .lock).entries =
      [([1], Lock.toBytes { primary := [1], ts := 1, ttl := 10, kind := .put }),
        ([2], Lock.toBytes { primary := [2], ts := 2, ttl := 10, kind := .put })] := by
    decide +kernel
  have parseable : ParseableLocks (after [putOne [1] [7] 1, putOne [2] [8] 2]) := by
    intro entry member
    rw [locks] at member
    simp only [mem_cons, not_mem_nil, or_false] at member
    rcases member with rfl | rfl
    · exact ⟨_, Lock.parse_toBytes _ (by decide)⟩
    · exact ⟨_, Lock.parse_toBytes _ (by decide)⟩
  have settled := kvResolveLock_settles _ { startVersion := 1, commitVersion := 3 } parseable
  exact ⟨settled.1, settled.2.1⟩

end AegisDB.Server

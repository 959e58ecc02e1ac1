import AegisDB.Server.Effects

/-! # Transactions leave each other's state alone

Whatever a request of one transaction does, the locks and the staged values of the
other transactions stay, and so do the write records at other timestamps. -/

namespace AegisDB.Server

open Foundation Storage Mvcc List

def Request.startVersion : Request → UInt64
  | .prewrite req => req.startVersion
  | .commit req => req.startVersion
  | .checkTxnStatus req => req.lockTs
  | .batchRollback req => req.startVersion
  | .resolveLock req => req.startVersion

def Request.commitVersion : Request → Option UInt64
  | .commit req => some req.commitVersion
  | .resolveLock req => some req.commitVersion
  | _ => none

inductive Belongs (store : FlatStore) (startTs : UInt64) (commitTs : Option UInt64) :
    Modify → Prop
  | putLock {key : Bytes} {lock : Lock} (available : Available store startTs key)
      (own : lock.ts = startTs) : Belongs store startTs commitTs (.put key lock.toBytes .lock)
  | deleteLock {key : Bytes} {lock : Lock} (own : ownLock store startTs key = some lock) :
      Belongs store startTs commitTs (.delete key .lock)
  | putValue {key value : Bytes} :
      Belongs store startTs commitTs (.put (encodeKey key startTs) value .default)
  | deleteValue {key : Bytes} :
      Belongs store startTs commitTs (.delete (encodeKey key startTs) .default)
  | putWrite {key : Bytes} {ts : UInt64} {write : Write}
      (stamped : ts = startTs ∨ commitTs = some ts) :
      Belongs store startTs commitTs (.put (encodeKey key ts) write.toBytes .write)

/-! ## Every batch belongs to its transaction -/

section Batches

variable {store : FlatStore} {startTs : UInt64} {commitTs : Option UInt64} {modify : Modify}

theorem belongs_of_prewriteModifies {req : PrewriteRequest} {mutation : Mutation}
    (available : Available store req.startVersion mutation.key)
    (member : modify ∈ prewriteModifies req mutation) :
    Belongs store req.startVersion commitTs modify := by
  rw [prewriteModifies] at member
  split at member
  · rename_i kind supported
    simp only [mem_cons, not_mem_nil, or_false] at member
    rcases member with rfl | rfl
    · rw [stageValue]
      split
      · exact .putValue
      · exact .deleteValue
    · exact .putLock available rfl
  · simp at member

variable {key : Bytes}

theorem belongs_of_commitModifies {commit : UInt64}
    (member : modify ∈ commitModifies store startTs commit key) :
    Belongs store startTs (some commit) modify := by
  rw [commitModifies] at member
  split at member
  · rename_i lock own
    simp only [mem_cons, not_mem_nil, or_false] at member
    rcases member with rfl | rfl
    · exact .putWrite (.inr rfl)
    · exact .deleteLock own
  · simp at member

theorem belongs_of_rollbackModifies (member : modify ∈ rollbackModifies startTs key) :
    Belongs store startTs commitTs modify := by
  simp only [rollbackModifies, mem_cons, not_mem_nil, or_false] at member
  rcases member with rfl | rfl
  · exact .putWrite (.inl rfl)
  · exact .deleteValue

theorem belongs_of_unlockModifies (member : modify ∈ unlockModifies store startTs key) :
    Belongs store startTs commitTs modify := by
  rw [unlockModifies] at member
  split_ifs at member with held
  · rcases Option.isSome_iff_exists.mp held with ⟨lock, own⟩
    rcases mem_singleton.mp member with rfl
    exact .deleteLock own
  · simp at member

theorem belongs_of_resolveModifies (member : modify ∈ resolveModifies store startTs key) :
    Belongs store startTs commitTs modify := by
  rw [resolveModifies] at member
  split_ifs at member with held
  · rcases Option.isSome_iff_exists.mp held with ⟨lock, own⟩
    rcases mem_cons.mp member with rfl | rest
    · exact .deleteLock own
    · exact belongs_of_rollbackModifies rest
  · simp at member

theorem belongs_of_writes {request : Request} {batch : List Modify}
    (writes : Writes store request batch) (member : modify ∈ batch) :
    Belongs store request.startVersion request.commitVersion modify := by
  cases writes with
  | prewrite accepted =>
    rcases mem_flatMap.mp member with ⟨mutation, mutated, member⟩
    exact belongs_of_prewriteModifies (accepted mutation mutated).1 member
  | commit =>
    rcases mem_flatMap.mp member with ⟨_, _, member⟩
    exact belongs_of_commitModifies member
  | expire own _ =>
    rcases mem_cons.mp member with rfl | rest
    · exact .deleteLock own
    · exact belongs_of_rollbackModifies rest
  | mark _ =>
    rcases mem_singleton.mp member with rfl
    exact .putWrite (.inl rfl)
  | rollback _ =>
    rcases mem_flatMap.mp member with ⟨_, _, member⟩
    rcases mem_append.mp member with unlock | rest
    · exact belongs_of_unlockModifies unlock
    · exact belongs_of_rollbackModifies rest
  | resolveCommit keys _ =>
    rcases mem_flatMap.mp member with ⟨_, _, member⟩
    exact belongs_of_commitModifies member
  | resolveRollback keys _ =>
    rcases mem_flatMap.mp member with ⟨_, _, member⟩
    exact belongs_of_resolveModifies member

end Batches

/-! ## The frame -/

/-- What belongs to other transactions is the same in both stores. -/
structure SameElsewhere (startTs : UInt64) (commitTs : Option UInt64)
    (before after : FlatStore) : Prop where
  locks : ∀ key bytes lock, Lock.parse bytes = .ok lock → lock.ts ≠ startTs →
    ((before .lock).get? key = some bytes ↔ (after .lock).get? key = some bytes)
  values : ∀ key ts, ts ≠ startTs →
    (after .default).get? (encodeKey key ts) = (before .default).get? (encodeKey key ts)
  records : ∀ key ts, ts ≠ startTs → commitTs ≠ some ts →
    (after .write).get? (encodeKey key ts) = (before .write).get? (encodeKey key ts)

theorem SameElsewhere.refl (startTs : UInt64) (commitTs : Option UInt64) (store : FlatStore) :
    SameElsewhere startTs commitTs store store :=
  ⟨fun _ _ _ _ _ => .rfl, fun _ _ _ => rfl, fun _ _ _ _ => rfl⟩

variable {lock : Lock}

theorem ts_of_parse_toBytes {parsed : Lock} (parses : Lock.parse lock.toBytes = .ok parsed) :
    parsed.ts = lock.ts := by
  by_cases named : lock.primary = []
  · rcases Lock.parse_toBytes_of_unnamed lock named with ⟨message, failed⟩
    rw [failed] at parses
    cases parses
  · rw [Lock.parse_toBytes lock named] at parses
    cases parses
    rfl

theorem lockOn_of_parse {store : FlatStore} {key bytes : Bytes}
    (present : (store .lock).get? key = some bytes) (parses : Lock.parse bytes = .ok lock) :
    lockOn store key = .ok (some lock) := by
  simp [lockOn, present, readLock, parseStoredLock, parses, withContext]

section Frame

variable {store : FlatStore} {startTs : UInt64} {commitTs : Option UInt64} {modify : Modify}

variable {key bytes : Bytes} {lock : Lock}

variable (belongs : Belongs store startTs commitTs modify)

include belongs

theorem not_touches_foreign_lock (present : (store .lock).get? key = some bytes)
    (parses : Lock.parse bytes = .ok lock) (foreign : lock.ts ≠ startTs) :
    ¬ modify.Touches .lock key := by
  have held := lockOn_of_parse present parses
  rintro ⟨sameCf, sameKey⟩
  cases belongs with
  | putLock available _ =>
    obtain rfl : _ = key := sameKey
    rcases available with ⟨other, locked, own⟩
    rcases Except.ok.inj (locked.symm.trans held) with rfl
    exact foreign (own lock rfl)
  | deleteLock own =>
    obtain rfl : _ = key := sameKey
    rcases ownLock_eq_some_iff.mp own with ⟨locked, same⟩
    rcases Option.some.inj (Except.ok.inj (locked.symm.trans held)) with rfl
    exact foreign same
  | putValue => cases sameCf
  | deleteValue => cases sameCf
  | putWrite _ => cases sameCf

theorem ts_eq_of_touched_lock (touches : modify.Touches .lock key)
    (left : modify.value = some bytes) (parses : Lock.parse bytes = .ok lock) :
    lock.ts = startTs := by
  cases belongs with
  | putLock _ own =>
    cases left
    exact (ts_of_parse_toBytes parses).trans own
  | deleteLock _ => cases left
  | putValue => cases touches.1
  | deleteValue => cases touches.1
  | putWrite _ => cases touches.1

variable {ts : UInt64}

theorem not_touches_other_value (other : ts ≠ startTs) :
    ¬ modify.Touches .default (encodeKey key ts) := by
  rintro ⟨sameCf, sameKey⟩
  cases belongs with
  | putLock _ _ => cases sameCf
  | deleteLock _ => cases sameCf
  | putValue => exact other (encodeKey_inj.mp sameKey).2.symm
  | deleteValue => exact other (encodeKey_inj.mp sameKey).2.symm
  | putWrite _ => cases sameCf

theorem not_touches_other_record (notStart : ts ≠ startTs) (notCommit : commitTs ≠ some ts) :
    ¬ modify.Touches .write (encodeKey key ts) := by
  rintro ⟨sameCf, sameKey⟩
  cases belongs with
  | putLock _ _ => cases sameCf
  | deleteLock _ => cases sameCf
  | putValue => cases sameCf
  | deleteValue => cases sameCf
  | putWrite stamped =>
    rcases encodeKey_inj.mp sameKey with ⟨_, rfl⟩
    rcases stamped with start | commit
    · exact notStart start
    · exact notCommit commit

omit belongs

theorem sameElsewhere_write {batch : List Modify}
    (belongs : ∀ modify ∈ batch, Belongs store startTs commitTs modify) :
    SameElsewhere startTs commitTs store (store.write batch) where
  locks key bytes lock parses foreign := by
    constructor
    · intro present
      rw [FlatStore.get?_write_of_untouched fun modify member =>
        not_touches_foreign_lock (belongs modify member) present parses foreign]
      exact present
    · intro left
      rcases FlatStore.get?_write_cases store batch .lock key with
        ⟨_, same⟩ | ⟨modify, member, touches, set⟩
      · exact same.symm.trans left
      · exact absurd (ts_eq_of_touched_lock (belongs modify member) touches
          (set.symm.trans left) parses) foreign
  values key ts other :=
    FlatStore.get?_write_of_untouched fun modify member =>
      not_touches_other_value (belongs modify member) other
  records key ts notStart notCommit :=
    FlatStore.get?_write_of_untouched fun modify member =>
      not_touches_other_record (belongs modify member) notStart notCommit

end Frame

/-- No request disturbs the uncommitted state of other transactions, in any store. For
a lock resolution this holds for whatever keys its earlier scan has found. -/
theorem request_sameElsewhere (store : FlatStore) :
    (∀ request : Request, SameElsewhere request.startVersion request.commitVersion
        store (request.step store)) ∧
      ∀ (req : ResolveLockRequest) (keys : List Bytes),
        SameElsewhere req.startVersion (some req.commitVersion)
          store (serve store (resolveKeys req keys)).1 := by
  constructor
  · intro request
    rcases request.step_cases store with same | ⟨batch, writes, written⟩
    · rw [same]
      exact .refl _ _ store
    · rw [written]
      exact sameElsewhere_write fun modify member => belongs_of_writes writes member
  · intro req keys
    rcases serve_cases store (resolveKeys req keys) with same | ⟨batch, response, ran, written⟩
    · rw [same]
      exact .refl _ _ store
    · rw [written]
      exact sameElsewhere_write fun modify member =>
        belongs_of_writes (writes_of_resolveKeys ran) member

end AegisDB.Server

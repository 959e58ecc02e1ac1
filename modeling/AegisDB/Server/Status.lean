import AegisDB.Server.History

/-! # What the status of a transaction says

Other clients settle the secondary keys of a crashed transaction on the answer of
`kv_check_txn_status` about its primary key. The answer is compared with the records
the store holds. -/

namespace AegisDB.Server

open Foundation Storage Mvcc

def HoldsRollback (store : FlatStore) (key : Bytes) (startTs : UInt64) : Prop :=
  ∃ ts, HoldsRecord store key ts (rollbackWrite startTs)

def LifetimeOver (currentTs : UInt64) (lock : Lock) : Prop :=
  (physicalTime currentTs).toNat > (physicalTime lock.ts).toNat + lock.ttl.toNat

/-- The answer follows the records of the primary key, and a rollback is written only if allowed. -/
structure TellsTruth (store : FlatStore) (req : CheckTxnStatusRequest) : Prop where
  committed : ∀ commitTs, HoldsCommit store req.primaryKey req.lockTs commitTs →
    serve store (kvCheckTxnStatus req) = (store, .ok (.committed commitTs))
  rolledBack : HoldsRollback store req.primaryKey req.lockTs →
    ∃ response, serve store (kvCheckTxnStatus req) = (store, .ok response) ∧
      response.commitVersion = 0
  writes : ∀ batch response, (kvCheckTxnStatus req).run store = .ok (.write batch response) →
    .put (encodeKey req.primaryKey req.lockTs) (rollbackWrite req.lockTs).toBytes .write ∈ batch →
    (∀ commitTs, ¬ HoldsCommit store req.primaryKey req.lockTs commitTs) ∧
      ¬ HoldsRollback store req.primaryKey req.lockTs ∧
      ∀ lock : Lock, (store .lock).get? req.primaryKey = some lock.toBytes → lock.ts = req.lockTs →
        LifetimeOver req.currentTs lock

/-- Nothing is committed, a rollback is met only behind a lock that stays, no lock expires early. -/
structure Answerable (store : FlatStore) (req : CheckTxnStatusRequest) : Prop where
  uncommitted : ∀ commitTs, ¬ HoldsCommit store req.primaryKey req.lockTs commitTs
  behindLock : HoldsRollback store req.primaryKey req.lockTs →
    ∃ lock, lockOn store req.primaryKey = .ok (some lock) ∧
      (lock.ts = req.lockTs → ¬ isExpired req.currentTs lock)
  expiry : ∀ lock, ownLock store req.lockTs req.primaryKey = some lock →
    isExpired req.currentTs lock → LifetimeOver req.currentTs lock

section Answers

variable {store : FlatStore} {states : Bytes → KeyState} {req : CheckTxnStatusRequest}

variable {lock : Lock}

theorem serve_of_lock (locked : lockOn store req.primaryKey = .ok (some lock))
    (stays : lock.ts = req.lockTs → ¬ isExpired req.currentTs lock) :
    serve store (kvCheckTxnStatus req) = (store, .ok (.locked lock.ttl)) := by
  have ran : (kvCheckTxnStatus req).run store = .ok (.reply (.locked lock.ttl)) := by
    rw [run_kvCheckTxnStatus, locked]
    by_cases own : lock.ts = req.lockTs
    · simp [own, stays own, bind, Except.bind]
    · simp [own, bind, Except.bind]
  rw [serve, ran]

theorem run_of_expired (own : ownLock store req.lockTs req.primaryKey = some lock)
    (expired : isExpired req.currentTs lock) :
    (kvCheckTxnStatus req).run store =
      .ok (.write (.delete req.primaryKey .lock :: rollbackModifies req.lockTs req.primaryKey)
        (.rolledBack .ttlExpireRollback)) := by
  rcases ownLock_eq_some_iff.mp own with ⟨locked, same⟩
  rw [run_kvCheckTxnStatus, locked]
  simp [same, expired, bind, Except.bind]

theorem run_of_unlocked (represents : Represents store states)
    (unlocked : lockOn store req.primaryKey = .ok none) :
    (kvCheckTxnStatus req).run store =
      if ((states req.primaryKey).record req.lockTs).isSome ∧ req.lockTs > 0 then
        .ok (.reply (.committed req.lockTs))
      else
        .ok (.write [.put (encodeKey req.primaryKey req.lockTs)
          (rollbackWrite req.lockTs).toBytes .write] (.rolledBack .lockNotExistRollback)) := by
  have entry := represents.records req.primaryKey req.lockTs
  rw [run_kvCheckTxnStatus, unlocked]
  cases recorded : (states req.primaryKey).record req.lockTs with
  | none =>
    rw [recorded] at entry
    simp [found_currentWriteIn_of_none represents.versioned entry, bind, Except.bind]
  | some write =>
    rw [recorded] at entry
    simp [found_currentWriteIn_of_some entry, bind, Except.bind]

theorem commitVersion_cases (represents : Represents store states)
    {response : CheckTxnStatusResponse}
    (answered : (serve store (kvCheckTxnStatus req)).2 = .ok response) :
    response.commitVersion = 0 ∨ response.commitVersion = req.lockTs := by
  cases locked : lockOn store req.primaryKey with
  | error fault =>
    rw [serve, run_kvCheckTxnStatus, locked] at answered
    cases answered
  | ok held =>
    cases held with
    | some lock =>
      by_cases stays : lock.ts = req.lockTs → ¬ isExpired req.currentTs lock
      · rw [serve_of_lock locked stays] at answered
        cases answered
        exact .inl rfl
      · simp only [Classical.not_imp, not_not] at stays
        rw [serve, run_of_expired (ownLock_eq_some_iff.mpr ⟨locked, stays.1⟩) stays.2] at answered
        cases answered
        exact .inl rfl
    | none =>
      rw [serve, run_of_unlocked represents locked] at answered
      split at answered
      · rename_i ran
        split at ran
        · cases ran
          cases answered
          exact .inr rfl
        · cases ran
      · rename_i ran
        split at ran
        · cases ran
        · cases ran
          cases answered
          exact .inl rfl
      · rename_i ran
        split at ran <;> cases ran

theorem rollback_put_mem_expired :
    .put (encodeKey req.primaryKey req.lockTs) (rollbackWrite req.lockTs).toBytes .write ∈
      Modify.delete req.primaryKey .lock :: rollbackModifies req.lockTs req.primaryKey := by
  simp [rollbackModifies]

variable (represents : Represents store states)

include represents

theorem get?_of_lockOn (locked : lockOn store req.primaryKey = .ok (some lock)) :
    (store .lock).get? req.primaryKey = some lock.toBytes := by
  have shows_ := (represents_iff.mp represents).1 req.primaryKey
  rw [represents.locks, lock_of_lockOn shows_ locked]
  rfl

theorem Answerable.tellsTruth (answerable : Answerable store req) : TellsTruth store req where
  committed commitTs holds := absurd holds (answerable.uncommitted commitTs)
  rolledBack holds := by
    rcases answerable.behindLock holds with ⟨lock, locked, stays⟩
    exact ⟨_, serve_of_lock locked stays, rfl⟩
  writes batch response ran _ := by
    refine ⟨answerable.uncommitted, ?_⟩
    rcases kvCheckTxnStatus_write ran with ⟨lock, own, expired, _⟩ | ⟨unlocked, _⟩
    · rcases ownLock_eq_some_iff.mp own with ⟨locked, same⟩
      constructor
      · intro holds
        rcases answerable.behindLock holds with ⟨other, otherLocked, stays⟩
        rcases Option.some.inj (Except.ok.inj (otherLocked.symm.trans locked)) with rfl
        exact stays same expired
      · intro other present _
        have equal := present.symm.trans (get?_of_lockOn represents locked)
        rw [Lock.toBytes_injective (Option.some.inj equal)]
        exact answerable.expiry lock own expired
    · constructor
      · intro holds
        rcases answerable.behindLock holds with ⟨lock, locked, _⟩
        cases locked.symm.trans unlocked
      · intro lock present _
        have shows_ := (represents_iff.mp represents).1 req.primaryKey
        rw [represents.locks, lock_of_lockOn shows_ unlocked] at present
        cases present

variable {timestamps : Timestamps}

theorem TellsTruth.uncommitted
    (stamped : (states req.primaryKey).Stamped timestamps) (truth : TellsTruth store req)
    (commitTs : UInt64) : ¬ HoldsCommit store req.primaryKey req.lockTs commitTs := by
  intro holds
  have later := timestamps.ordered (stamped.commit ((holdsCommit_iff represents).mp holds))
  have answer := truth.committed commitTs holds
  rcases commitVersion_cases represents (congrArg Prod.snd answer) with isZero | isStart
  · have : commitTs = 0 := isZero
    subst this
    exact absurd (UInt64.lt_iff_toNat_lt.mp later) (by simp)
  · have : commitTs = req.lockTs := isStart
    exact absurd this later.ne'

theorem TellsTruth.behindLock (stamped : (states req.primaryKey).Stamped timestamps)
    (truth : TellsTruth store req) (holds : HoldsRollback store req.primaryKey req.lockTs) :
    ∃ lock, lockOn store req.primaryKey = .ok (some lock) ∧
      (lock.ts = req.lockTs → ¬ isExpired req.currentTs lock) := by
  rcases truth.rolledBack holds with ⟨response, answer, isZero⟩
  cases locked : lockOn store req.primaryKey with
  | error fault =>
    rw [serve, run_kvCheckTxnStatus, locked] at answer
    cases (Prod.mk.inj answer).2
  | ok held =>
    cases held with
    | some lock =>
      refine ⟨lock, rfl, fun same expired => ?_⟩
      have ran := run_of_expired (ownLock_eq_some_iff.mpr ⟨locked, same⟩) expired
      exact (truth.writes _ _ ran rollback_put_mem_expired).2.1 holds
    | none =>
      have ran := run_of_unlocked represents locked
      rcases holds with ⟨ts, recorded⟩
      -- a rollback record stands at the start timestamp itself
      have present := (holdsRecord_iff represents).mp recorded
      have atStart : ts = req.lockTs := by
        rcases stamped.2 ts _ present with ⟨_, same, _⟩ | ⟨notRollback, _⟩
        · exact same
        · exact absurd rfl notRollback
      subst atStart
      rw [present] at ran
      by_cases positive : req.lockTs > 0
      · simp only [Option.isSome_some, positive, and_self, if_true] at ran
        rw [serve, ran] at answer
        have same := Except.ok.inj (Prod.mk.inj answer).2
        rw [← same] at isZero
        exact absurd isZero positive.ne'
      · simp only [positive, and_false, if_false] at ran
        exact absurd ⟨_, recorded⟩
          (truth.writes _ _ ran (List.mem_singleton_self _)).2.1

theorem TellsTruth.expiry (truth : TellsTruth store req)
    (own : ownLock store req.lockTs req.primaryKey = some lock)
    (expired : isExpired req.currentTs lock) : LifetimeOver req.currentTs lock := by
  rcases ownLock_eq_some_iff.mp own with ⟨locked, same⟩
  exact (truth.writes _ _ (run_of_expired own expired) rollback_put_mem_expired).2.2 lock
    (get?_of_lockOn represents locked) same

end Answers

/-- In every reachable store and for every request, the status tells the truth exactly in
the states in which the handler can answer. -/
theorem tellsTruth_iff (requests : List Request) (unique : UniqueTimestamps requests)
    (req : CheckTxnStatusRequest) :
    TellsTruth (after requests) req ↔ Answerable (after requests) req := by
  rcases stamped_after unique with ⟨states, represents, stamped⟩
  constructor
  · intro truth
    exact ⟨truth.uncommitted represents (stamped _), truth.behindLock represents (stamped _),
      fun lock => truth.expiry represents⟩
  · exact Answerable.tellsTruth represents

theorem tellsTruth_expired_lock :
    TellsTruth (after [putOne [1] [7] 1])
      { primaryKey := [1], lockTs := 1, currentTs := 0x100000 } := by
  have noRecord : (after [putOne [1] [7] 1] .write).entries = [] := by decide +kernel
  have absent : ∀ ts write, ¬ HoldsRecord (after [putOne [1] [7] 1]) [1] ts write := by
    intro ts write holds
    have member := OrderedMap.get?_eq_some_iff.mp holds
    rw [noRecord] at member
    cases member
  have locked : ownLock (after [putOne [1] [7] 1]) 1 [1] =
      some { primary := [1], ts := 1, ttl := 10, kind := .put } := by decide +kernel
  apply (tellsTruth_iff [putOne [1] [7] 1] (uniqueTimestamps_of_check (by decide)) _).mpr
  refine ⟨?_, ?_, ?_⟩
  · rintro commitTs ⟨kind, _, holds⟩
    exact absent _ _ holds
  · rintro ⟨ts, holds⟩
    exact absurd holds (absent _ _)
  · intro lock own _
    rcases Option.some.inj (own.symm.trans locked) with rfl
    change (physicalTime 0x100000).toNat > (physicalTime 1).toNat + (10 : UInt64).toNat
    decide

/-- A committed transaction is reported as rolled back, and a rollback record is written
next to its commit record. -/
theorem status_of_committed_wrong :
    ∃ requests req, UniqueTimestamps requests ∧ ¬ TellsTruth (after requests) req := by
  refine ⟨[putOne [1] [7] 1, commitOne [1] 1 2], { primaryKey := [1], lockTs := 1, currentTs := 3 },
    uniqueTimestamps_of_check (by decide), ?_⟩
  intro truth
  have answer := truth.committed 2 ⟨.put, by decide, by decide +kernel⟩
  exact absurd (congrArg Prod.snd answer) (by decide +kernel)

/-! ## Expiry -/

def LifetimeFits (lock : Lock) : Prop :=
  (physicalTime lock.ts).toNat + lock.ttl.toNat < 2 ^ 64

variable {currentTs : UInt64} {lock : Lock}

theorem isExpired_iff :
    isExpired currentTs lock ↔ (physicalTime currentTs).toNat >
      ((physicalTime lock.ts).toNat + lock.ttl.toNat) % 2 ^ 64 := by
  rw [isExpired, decide_eq_true_iff, gt_iff_lt, UInt64.lt_iff_toNat_lt, UInt64.toNat_add]

theorem lifetimeOver_of_isExpired (fits : LifetimeFits lock)
    (expired : isExpired currentTs lock) : LifetimeOver currentTs lock := by
  rw [isExpired_iff, Nat.mod_eq_of_lt fits] at expired
  exact expired

theorem isExpired_of_not_fits (notFits : ¬ LifetimeFits lock) :
    isExpired lock.ts lock := by
  have ttl := lock.ttl.toNat_lt
  have time := (physicalTime lock.ts).toNat_lt
  rw [LifetimeFits, not_lt] at notFits
  rw [isExpired_iff, Nat.mod_eq_sub_mod notFits, Nat.mod_eq_of_lt (by omega)]
  omega

theorem serve_of_ownLock {store : FlatStore} {req : CheckTxnStatusRequest}
    (own : ownLock store req.lockTs req.primaryKey = some lock) :
    (serve store (kvCheckTxnStatus req)).2 =
      .ok (if isExpired req.currentTs lock then .rolledBack .ttlExpireRollback
        else .locked lock.ttl) := by
  by_cases expired : isExpired req.currentTs lock
  · rw [serve, run_of_expired own expired, if_pos expired]
  · rw [serve_of_lock (ownLock_eq_some_iff.mp own).1 fun _ => expired, if_neg expired]

/-- A lock is never taken for expired before its lifetime is over exactly if the end of
the lifetime is a machine word. -/
theorem neverExpiresEarly_iff {store : FlatStore} {primaryKey : Bytes} {lockTs : UInt64}
    {lock : Lock} (own : ownLock store lockTs primaryKey = some lock) :
    (∀ currentTs,
      Fallible.NoPanic (serve store (kvCheckTxnStatus { primaryKey, lockTs, currentTs })).2 ∧
      ((serve store (kvCheckTxnStatus { primaryKey, lockTs, currentTs })).2 =
          .ok (.rolledBack .ttlExpireRollback) → LifetimeOver currentTs lock)) ↔
    LifetimeFits lock := by
  have answer (currentTs : UInt64) :
      (serve store (kvCheckTxnStatus { primaryKey, lockTs, currentTs })).2 =
        .ok (if isExpired currentTs lock then .rolledBack .ttlExpireRollback
          else .locked lock.ttl) :=
    serve_of_ownLock own
  constructor
  · intro never
    by_contra notFits
    have early := (never lock.ts).2 (by rw [answer, if_pos (isExpired_of_not_fits notFits)])
    rw [LifetimeOver] at early
    omega
  · intro fits currentTs
    rw [answer]
    refine ⟨Fallible.noPanic_ok _, fun rolledBack => ?_⟩
    split_ifs at rolledBack with expired
    · exact lifetimeOver_of_isExpired fits expired
    · have action := congrArg CheckTxnStatusResponse.action (Except.ok.inj rolledBack)
      cases action

theorem neverExpiresEarly_short_ttl :
    LifetimeFits { primary := [1], ts := 1, ttl := 10, kind := .put } ∧
      ∀ currentTs, (serve (after [putOne [1] [7] 1])
          (kvCheckTxnStatus { primaryKey := [1], lockTs := 1, currentTs })).2 =
            .ok (.rolledBack .ttlExpireRollback) →
        LifetimeOver currentTs { primary := [1], ts := 1, ttl := 10, kind := .put } := by
  have fits : LifetimeFits { primary := [1], ts := 1, ttl := 10, kind := .put } := by
    change (physicalTime 1).toNat + (10 : UInt64).toNat < 2 ^ 64
    decide
  exact ⟨fits, fun currentTs =>
    ((neverExpiresEarly_iff (by decide +kernel)).mpr fits currentTs).2⟩

def lastingPut : PrewriteRequest where
  mutations := [{ op := .put, key := [1], value := [7] }]
  primaryLock := [1]
  startVersion := 0x10000
  lockTtl := maxTimestamp

/-- A lock that is to live as long as possible expires at once: the request that asks in
the very millisecond of the prewrite rolls it back. -/
theorem longest_ttl_expires :
    ∃ store req lock, store = after [.prewrite lastingPut] ∧
      ownLock store req.lockTs req.primaryKey = some lock ∧
      (serve store (kvCheckTxnStatus req)).2 = .ok (.rolledBack .ttlExpireRollback) ∧
      ¬ LifetimeOver req.currentTs lock := by
  refine ⟨_, { primaryKey := [1], lockTs := 0x10000, currentTs := 0x10000 },
    { primary := [1], ts := 0x10000, ttl := maxTimestamp, kind := .put }, rfl,
    by decide +kernel, by decide +kernel, ?_⟩
  change ¬ (physicalTime 0x10000).toNat > (physicalTime 0x10000).toNat + maxTimestamp.toNat
  decide

end AegisDB.Server

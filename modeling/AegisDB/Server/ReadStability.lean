import AegisDB.Server.Outcomes
import AegisDB.Server.SnapshotReads

/-! # What point reads notice of other transactions

A read as of a timestamp should not notice transactions that are rolled back, nor later
ones. What it notices all the same are rollback records, which hide older versions, and
locks, whatever their timestamp. -/

namespace AegisDB.Server

open Foundation Storage Mvcc KeyState

/-! ## Answers -/

section Answers

variable {store other : FlatStore} {key : Bytes} {state : KeyState} {version : UInt64}

variable {value : Option Bytes}

theorem answer_of_own {held : Option Lock} (own : ∀ lock ∈ held, lock.ts = version) :
    GetRequest.answer { key, version } held value = .ok value := by
  cases held with
  | none => rfl
  | some lock => exact if_neg (by simpa using own lock rfl)

theorem answer_of_foreign {lock : Lock} (foreign : lock.ts ≠ version) :
    GetRequest.answer { key, version } (some lock) value =
      .withKeyError (.ofLocked (lockInfo key lock)) :=
  if_pos foreign

theorem Shows.readableAt_iff (shows_ : Shows store key state) :
    state.ReadableAt version ↔
      ∃ held, lockOn store key = .ok held ∧ ∀ lock ∈ held, lock.ts = version := by
  rcases lockOn_of_shows shows_ with
    ⟨none, read⟩ | ⟨lock, some, ⟨named, read⟩ | ⟨unnamed, fault, read⟩⟩
  · simp [ReadableAt, none, read]
  · simp [ReadableAt, some, read, named]
  · simp [ReadableAt, some, read, unnamed]

theorem Shows.run_kvGet_eq_ok_iff (shows_ : Shows store key state)
    (versioned : Versioned (store .write)) :
    (kvGet { key, version }).run store = .ok (.ok value) ↔
      state.ReadableAt version ∧ state.readAt version = value := by
  rw [shows_.run_kvGet versioned, shows_.readableAt_iff]
  cases lockOn store key with
  | error fault => simp
  | ok held =>
    by_cases own : ∀ lock ∈ held, lock.ts = version
    · change Except.ok (GetRequest.answer _ held _) = _ ↔ _
      rw [answer_of_own own, Except.ok.injEq, GetResponse.ok_inj]
      constructor
      · intro same
        exact ⟨⟨held, rfl, own⟩, same⟩
      · intro answers
        exact answers.2
    · rcases not_forall₂.mp own with ⟨lock, isHeld, foreign⟩
      rw [Option.mem_def.mp isHeld] at own ⊢
      change Except.ok (GetRequest.answer _ (some lock) _) = _ ↔ _
      rw [answer_of_foreign foreign]
      constructor
      · intro same
        exact absurd (Except.ok.inj same).symm ok_ne_withKeyError
      · intro answers
        rcases answers with ⟨⟨held, equal, heldOwn⟩, _⟩
        cases equal
        exact absurd heldOwn own

theorem Shows.run_kvGet_of_readable (shows_ : Shows store key state)
    (versioned : Versioned (store .write)) (readable : state.ReadableAt version) :
    (kvGet { key, version }).run store = .ok (.ok (state.readAt version)) :=
  (shows_.run_kvGet_eq_ok_iff versioned).mpr ⟨readable, rfl⟩

theorem Shows.run_kvGet_eq (shows_ : Shows store key state) (otherShows : Shows other key state)
    (versioned : Versioned (store .write)) (otherVersioned : Versioned (other .write)) :
    (kvGet { key, version }).run store = (kvGet { key, version }).run other := by
  rw [shows_.run_kvGet versioned, otherShows.run_kvGet otherVersioned, lockOn, lockOn, shows_.lock,
    otherShows.lock]

end Answers

/-! ## Transactions that do not commit -/

variable {store : FlatStore} {key : Bytes}

theorem withoutCommit_of_performs {request : Request}
    {action : KeyAction} (performs : Performs store request key action)
    (uncommitted : request.commitPair = none) : action.WithoutCommit request.startVersion := by
  cases performs with
  | commit member => cases uncommitted
  | resolveCommit commits =>
    rw [Request.commitPair, if_pos commits] at uncommitted
    cases uncommitted
  | keep => trivial
  | _ => rfl

variable {startTs : UInt64} {states : Bytes → KeyState}

theorem undecided_after {past later : List Request} (represents : Represents (after past) states)
    (without : ∀ request ∈ later, request.startVersion = startTs ∧ request.commitPair = none) :
    ∃ states', Represents (after (past ++ later)) states' ∧
      ∀ key, Undecided startTs (states key) (states' key) := by
  induction later using List.reverseRecOn with
  | nil =>
    rw [List.append_nil]
    exact ⟨states, represents, fun key => .refl startTs (states key)⟩
  | append_singleton later request induction =>
    rcases induction fun other member => without other (List.mem_append_left _ member) with
      ⟨middle, middleRepresents, undecided⟩
    rcases request.step_refines middleRepresents with ⟨states', represents', acts⟩
    refine ⟨states', ?_, ?_⟩
    · rwa [← List.append_assoc, after_append_singleton]
    · intro key
      rcases acts key with ⟨action, performs, enabled, equal⟩
      rcases without request (by simp) with ⟨ofTransaction, uncommitted⟩
      rw [equal]
      exact (undecided key).apply enabled
        (ofTransaction ▸ withoutCommit_of_performs performs uncommitted)

def LeftLocked (store : FlatStore) (key : Bytes) (startTs version : UInt64) : Prop :=
  ∃ lock : Lock, (store .lock).get? key = some lock.toBytes ∧ lock.ts = startTs ∧
    (version ≠ startTs ∨ lock.primary = [])

/-- The rollback record of the transaction hides a value from the reader. -/
def HiddenByRollback (before later : FlatStore) (key : Bytes) (startTs version : UInt64)
    (value : Option Bytes) : Prop :=
  HoldsRecord later key startTs (rollbackWrite startTs) ∧ startTs ≤ version ∧
    (∀ ts write, startTs < ts → ts ≤ version → ¬ HoldsRecord before key ts write) ∧ value ≠ none

variable {version : UInt64}

theorem Shows.leftLocked_iff {state : KeyState} (shows_ : Shows store key state) :
    LeftLocked store key startTs version ↔
      ∃ lock ∈ state.lock, lock.ts = startTs ∧ (version ≠ startTs ∨ lock.primary = []) := by
  have stored (lock : Lock) :
      (store .lock).get? key = some lock.toBytes ↔ lock ∈ state.lock := by
    rw [shows_.lock]
    cases state.lock with
    | none => simp
    | some held =>
      rw [Option.map_some, Option.some.injEq, Option.mem_def, Option.some.injEq]
      constructor
      · intro same
        exact Lock.toBytes_injective same
      · intro same
        rw [same]
  simp only [LeftLocked, stored]

theorem hiddenByRollback_iff {before later : FlatStore} {states' : Bytes → KeyState}
    (represents : Represents before states) (represents' : Represents later states')
    {value : Option Bytes} :
    HiddenByRollback before later key startTs version value ↔
      (states' key).record startTs = some { startTs, kind := .rollback } ∧ startTs ≤ version ∧
        (∀ ts, startTs < ts → ts ≤ version → (states key).record ts = none) ∧ value ≠ none := by
  simp only [HiddenByRollback, holdsRecord_iff represents, holdsRecord_iff represents',
    rollbackWrite, Option.eq_none_iff_forall_ne_some]
  constructor
  · intro hidden
    exact ⟨hidden.1, hidden.2.1, fun ts newer readable write =>
      hidden.2.2.1 ts write newer readable, hidden.2.2.2⟩
  · intro hidden
    exact ⟨hidden.1, hidden.2.1, fun ts write newer readable =>
      hidden.2.2.1 ts newer readable write, hidden.2.2.2⟩

/-- A read notices a transaction that does not commit exactly if the transaction has left a
lock on the key or its rollback record hides a value. -/
theorem readUnchanged_iff (past later : List Request) (startTs : UInt64) (key : Bytes)
    (version : UInt64) (value : Option Bytes)
    (undecided : ∀ other commitTs, ¬ HoldsCommit (after past) other startTs commitTs)
    (without : ∀ request ∈ later, request.startVersion = startTs ∧ request.commitPair = none)
    (read : (kvGet { key, version }).run (after past) = .ok (.ok value)) :
    (kvGet { key, version }).run (after (past ++ later)) = .ok (.ok value) ↔
      ¬ LeftLocked (after (past ++ later)) key startTs version ∧
        ¬ HiddenByRollback (after past) (after (past ++ later)) key startTs version value := by
  rcases represents_after past with ⟨states, represents⟩
  rcases undecided_after represents without with ⟨states', represents', changed⟩
  rcases represents_iff.mp represents with ⟨shows_, versioned⟩
  rcases represents_iff.mp represents' with ⟨shows', versioned'⟩
  rcases ((shows_ key).run_kvGet_eq_ok_iff versioned).mp read with ⟨readable, rfl⟩
  have uncommitted (commitTs : UInt64) :
      (states key).record commitTs ≠ some { startTs, kind := .put } := by
    intro present
    exact undecided key commitTs
      ((holdsCommit_iff represents).mpr ⟨.put, by simp, present⟩)
  rw [(shows' key).run_kvGet_eq_ok_iff versioned', (changed key).readableAt_iff readable,
    (changed key).readAt_eq_iff uncommitted, (shows' key).leftLocked_iff,
    hiddenByRollback_iff represents represents']

theorem undecided_after_first :
    ∀ other commitTs,
      ¬ HoldsCommit (after [putOne [1] [7] 1, commitOne [1] 1 2]) other 3 commitTs := by
  have only : (after [putOne [1] [7] 1, commitOne [1] 1 2] .write).entries =
      [(encodeKey [1] 2, Write.toBytes { startTs := 1, kind := .put })] := by
    decide +kernel
  intro other commitTs committed
  rcases committed with ⟨kind, _, holds⟩
  rcases eq_of_only_entry only holds with ⟨_, _, same⟩
  have sameStart : (3 : UInt64) = 1 := congrArg Write.startTs same
  exact absurd sameStart (by decide)

theorem readUnchanged_of_older_reader :
    (kvGet { key := [1], version := 2 }).run (after ([putOne [1] [7] 1, commitOne [1] 1 2] ++
      [putOne [1] [8] 3, .batchRollback { startVersion := 3, keys := [[1]] }])) =
      .ok (.ok (some [7])) := by
  apply (readUnchanged_iff _ _ 3 [1] 2 (some [7]) undecided_after_first (by decide)
    (by decide +kernel)).mpr
  constructor
  · intro left
    rcases left with ⟨lock, present, _⟩
    have unlocked : (after ([putOne [1] [7] 1, commitOne [1] 1 2] ++
        [putOne [1] [8] 3, .batchRollback { startVersion := 3, keys := [[1]] }]) .lock).get? [1] =
        none := by
      decide +kernel
    rw [unlocked] at present
    cases present
  · intro hidden
    exact absurd hidden.2.1 (by decide)

/-- A value is gone for a reader once a later transaction on its key has been rolled back, by
whichever request. -/
theorem rollback_noticed :
    (∀ other commitTs,
        ¬ HoldsCommit (after [putOne [1] [7] 1, commitOne [1] 1 2]) other 3 commitTs) ∧
      (kvGet { key := [1], version := 4 }).run (after [putOne [1] [7] 1, commitOne [1] 1 2]) =
        .ok (.ok (some [7])) ∧
      ∀ rollback ∈ [Request.batchRollback { startVersion := 3, keys := [[1]] },
          .checkTxnStatus { primaryKey := [1], lockTs := 3, currentTs := 1000000 },
          .resolveLock { startVersion := 3, commitVersion := 0 }],
        (kvGet { key := [1], version := 4 }).run (after ([putOne [1] [7] 1, commitOne [1] 1 2] ++
          [putOne [1] [8] 3, rollback])) = .ok (.ok none) := by
  refine ⟨undecided_after_first, by decide +kernel, ?_⟩
  intro rollback member
  simp only [List.mem_cons, List.not_mem_nil, or_false] at member
  rcases member with rfl | rfl | rfl
  · decide +kernel
  · decide +kernel
  · decide +kernel

/-! ## Later transactions -/

section Later

variable {store : FlatStore} {key : Bytes} {state : KeyState} {version : UInt64}

variable {lock : Lock}

theorem Shows.run_kvGet_of_foreign (shows_ : Shows store key state)
    (versioned : Versioned (store .write))
    (locked : lockOn store key = .ok (some lock)) (foreign : lock.ts ≠ version) :
    (kvGet { key, version }).run store =
      .ok (.withKeyError (.ofLocked (lockInfo key lock))) := by
  rw [shows_.run_kvGet versioned, locked]
  exact congrArg Except.ok (answer_of_foreign foreign)

theorem ts_eq_of_locked_answer {held : Lock}
    (same : GetResponse.withKeyError (.ofLocked (lockInfo key held)) =
      .withKeyError (.ofLocked (lockInfo key lock))) : held.ts = lock.ts := by
  simp only [GetResponse.withKeyError, KeyError.ofLocked, lockInfo, GetResponse.mk.injEq,
    Option.some.injEq, KeyError.mk.injEq, LockInfo.mk.injEq, and_true] at same
  exact same.2.1

/-- The key carries a lock of a transaction that is later than the version. -/
def LockedLater (store : FlatStore) (key : Bytes) (version : UInt64) : Prop :=
  ∃ lock, lockOn store key = .ok (some lock) ∧ version < lock.ts

/-- A read answers as before, and does not answer that a later transaction has locked the
key. -/
def Unseen (before after : FlatStore) (key : Bytes) (version : UInt64) : Prop :=
  (kvGet { key, version }).run after = (kvGet { key, version }).run before ∧
    ∀ lock : Lock, version < lock.ts → (kvGet { key, version }).run after ≠
      .ok (.withKeyError (.ofLocked (lockInfo key lock)))

variable (shows_ : Shows store key state) (versioned : Versioned (store .write))

include shows_ versioned

theorem lockedLater_iff :
    LockedLater store key version ↔ ∃ lock : Lock, version < lock.ts ∧
      (kvGet { key, version }).run store =
        .ok (.withKeyError (.ofLocked (lockInfo key lock))) := by
  constructor
  · intro later
    rcases later with ⟨lock, locked, isLater⟩
    exact ⟨lock, isLater, shows_.run_kvGet_of_foreign versioned locked isLater.ne'⟩
  · intro answers
    rcases answers with ⟨lock, isLater, answer⟩
    rw [shows_.run_kvGet versioned] at answer
    cases locked : lockOn store key with
    | error fault =>
      rw [locked] at answer
      cases answer
    | ok held =>
      rw [locked] at answer
      have same : GetRequest.answer { key, version } held _ = _ := Except.ok.inj answer
      by_cases own : ∀ lock ∈ held, lock.ts = version
      · rw [answer_of_own own] at same
        exact absurd same ok_ne_withKeyError
      · rcases not_forall₂.mp own with ⟨other, isHeld, foreign⟩
        rcases Option.mem_def.mp isHeld with rfl
        rw [answer_of_foreign foreign] at same
        exact ⟨other, locked, ts_eq_of_locked_answer same ▸ isLater⟩

theorem unseen_iff_of_shows {after : FlatStore} (shows' : Shows after key state)
    (versioned' : Versioned (after .write)) :
    Unseen store after key version ↔ ¬ LockedLater store key version := by
  rw [Unseen, shows'.run_kvGet_eq shows_ versioned' versioned, lockedLater_iff shows_ versioned]
  simp

theorem prewrite_unseen_iff {req : PrewriteRequest}
    (accepted : PrewriteAccepted store req) (isLater : version < req.startVersion) :
    Unseen store (store.write (req.mutations.flatMap (prewriteModifies req))) key version ↔
      (∀ mutation ∈ req.mutations, mutation.key ≠ key) ∧ ¬ LockedLater store key version := by
  have versioned' : Versioned
      (store.write (req.mutations.flatMap (prewriteModifies req)) .write) :=
    versioned_write versioned (.prewrite accepted)
  by_cases mutated : ∃ mutation ∈ req.mutations, mutation.key = key
  · rcases prewrite_refines shows_ accepted mutated with
      ⟨mutation, member, rfl, kind, supported, enabled, shows'⟩
    refine iff_of_false ?_ fun both => both.1 mutation member rfl
    intro unseen
    -- The new lock is of a later transaction, or cannot be read at all.
    rcases lockOn_of_shows shows' with
      ⟨unlocked, _⟩ | ⟨lock, isLock, ⟨_, read⟩ | ⟨_, fault, read⟩⟩
    · cases unlocked
    · have same : req.lock kind = lock := Option.some.inj isLock
      have later : version < lock.ts := same ▸ isLater
      exact unseen.2 lock later (shows'.run_kvGet_of_foreign versioned' read later.ne')
    · rcases (accepted mutation member).1 with ⟨held, locked, _⟩
      have answers := unseen.1
      rw [shows'.run_kvGet versioned', shows_.run_kvGet versioned, read, locked] at answers
      cases answers
  · have absent : ∀ mutation ∈ req.mutations, mutation.key ≠ key := by
      intro mutation member same
      exact mutated ⟨mutation, member, same⟩
    have shows' := shows_.write_flatMap_of_absent Mutation.key
      (fun mutation _ => about_prewriteModifies req mutation) absent
    rw [unseen_iff_of_shows shows_ versioned shows' versioned', and_iff_right absent]

omit versioned

variable {req : CommitRequest}

theorem shows_commit_of_not_own (notOwn : ¬ (key ∈ req.keys ∧
      ∃ lock, lockOn store key = .ok (some lock) ∧ lock.ts = req.startVersion)) :
    Shows (store.write
      (req.keys.flatMap (commitModifies store req.startVersion req.commitVersion))) key state := by
  by_cases member : key ∈ req.keys
  · apply Shows.write_flatMap_of_mem about_commitModifies member
    have noLock : ownLock store req.startVersion key = none := by
      rw [Option.eq_none_iff_forall_ne_some]
      intro lock own
      exact notOwn ⟨member, lock, ownLock_eq_some_iff.mp own⟩
    simpa [commitModifies, noLock] using shows_
  · exact shows_.write_flatMap_of_not_mem about_commitModifies member

theorem commit_unseen_iff
    (versioned : Versioned (store .write)) (isLater : version < req.commitVersion) :
    Unseen store (store.write
        (req.keys.flatMap (commitModifies store req.startVersion req.commitVersion))) key version ↔
      ((key ∈ req.keys ∧ ∃ lock, lockOn store key = .ok (some lock) ∧
        lock.ts = req.startVersion) → req.startVersion = version) ∧
        ¬ LockedLater store key version := by
  have versioned' : Versioned (store.write
      (req.keys.flatMap (commitModifies store req.startVersion req.commitVersion)) .write) :=
    versioned_write versioned .commit
  by_cases committed : key ∈ req.keys ∧
      ∃ lock, lockOn store key = .ok (some lock) ∧ lock.ts = req.startVersion
  · rcases committed with ⟨member, lock, locked, same⟩
    have own := ownLock_eq_some_iff.mpr ⟨locked, same⟩
    have held := (lock_of_ownLock shows_ own).1
    have shows' : Shows (store.write
        (req.keys.flatMap (commitModifies store req.startVersion req.commitVersion))) key
        (state.apply (.commit req.startVersion req.commitVersion)) :=
      .write_flatMap_of_mem about_commitModifies member (shows_.commitModifies own)
    have unlocked : (state.apply (.commit req.startVersion req.commitVersion)).ReadableAt
        version := by
      simp [KeyState.ReadableAt, KeyState.apply, held]
    rw [Unseen, shows'.run_kvGet_of_readable versioned' unlocked, state.readAt_commit isLater]
    by_cases ofReader : req.startVersion = version
    · have readable : state.ReadableAt version :=
        shows_.readableAt_iff.mpr ⟨some lock, locked, by simpa [same] using ofReader⟩
      have notLater : ¬ LockedLater store key version := by
        intro later
        rcases later with ⟨other, isHeld, isLater⟩
        cases isHeld.symm.trans locked
        exact absurd (same.trans ofReader) isLater.ne'
      rw [shows_.run_kvGet_of_readable versioned readable]
      refine iff_of_true ⟨rfl, ?_⟩ ⟨fun _ => ofReader, notLater⟩
      intro other _ answers
      exact ok_ne_withKeyError (Except.ok.inj answers)
    · rw [shows_.run_kvGet_of_foreign versioned locked (same ▸ ofReader)]
      refine iff_of_false ?_ fun both => ofReader (both.1 ⟨member, lock, locked, same⟩)
      intro unseen
      exact ok_ne_withKeyError (Except.ok.inj unseen.1)
  · rw [unseen_iff_of_shows shows_ versioned (shows_commit_of_not_own shows_ committed) versioned',
      and_iff_right fun both => absurd both committed]

end Later

/-- A prewrite of a later transaction that succeeds is unseen by the reader of a key exactly
if it does not mutate the key and the key carries no later lock. A commit at a later timestamp
is, exactly if the key carries no later lock and the commit takes off no lock but of the
reader's own version. -/
theorem laterWrites_unseen_iff (past : List Request) (key : Bytes) (version : UInt64) :
    (∀ req : PrewriteRequest, version < req.startVersion →
      (serve (after past) (kvPrewrite req)).2 = .ok .ok →
      (Unseen (after past) (serve (after past) (kvPrewrite req)).1 key version ↔
        (∀ mutation ∈ req.mutations, mutation.key ≠ key) ∧
          ¬ LockedLater (after past) key version)) ∧
      ∀ req : CommitRequest, version < req.commitVersion →
        (serve (after past) (kvCommit req)).2 = .ok .ok →
        (Unseen (after past) (serve (after past) (kvCommit req)).1 key version ↔
          ((key ∈ req.keys ∧ ∃ lock, lockOn (after past) key = .ok (some lock) ∧
            lock.ts = req.startVersion) → req.startVersion = version) ∧
            ¬ LockedLater (after past) key version) := by
  rcases represents_after past with ⟨states, represents⟩
  rcases represents_iff.mp represents with ⟨shows_, versioned⟩
  constructor
  · intro req isLater success
    rcases kvPrewrite_success success with ⟨accepted, written⟩
    rw [written]
    exact prewrite_unseen_iff (shows_ key) versioned accepted isLater
  · intro req isLater success
    rw [(kvCommit_success success).2]
    exact commit_unseen_iff (shows_ key) versioned isLater

theorem laterWrites_unseen_elsewhere :
    Unseen (after [putOne [1] [7] 1, commitOne [1] 1 2])
      (serve (after [putOne [1] [7] 1, commitOne [1] 1 2])
        (kvPrewrite { mutations := [{ op := .put, key := [2], value := [8] }], primaryLock := [2],
                      startVersion := 3, lockTtl := 10 })).1 [1] 2 := by
  refine ((laterWrites_unseen_iff _ [1] 2).1 _ (by decide) (by decide +kernel)).mpr
    ⟨by decide, ?_⟩
  intro later
  rcases later with ⟨lock, locked, _⟩
  have unlocked : lockOn (after [putOne [1] [7] 1, commitOne [1] 1 2]) [1] = .ok none := by
    decide +kernel
  cases unlocked.symm.trans locked

/-- The lock of a later transaction, which by its own rule is none for the reader, makes an
earlier snapshot unreadable, and the commit makes the snapshot readable again. -/
theorem later_lock_seen :
    (kvGet { key := [1], version := 2 }).run (after [putOne [1] [7] 1, commitOne [1] 1 2]) =
        .ok (.ok (some [7])) ∧
      (∃ lock, lockOn (after [putOne [1] [7] 1, commitOne [1] 1 2, putOne [1] [8] 3]) [1] =
        .ok (some lock) ∧ lock.isLockedFor [1] 2 = false) ∧
      (kvGet { key := [1], version := 2 }).run
          (after [putOne [1] [7] 1, commitOne [1] 1 2, putOne [1] [8] 3]) =
        .ok (.withKeyError (.ofLocked
          { primaryLock := [1], lockVersion := 3, key := [1], lockTtl := 10 })) ∧
      (kvGet { key := [1], version := 2 }).run
          (after [putOne [1] [7] 1, commitOne [1] 1 2, putOne [1] [8] 3, commitOne [1] 3 4]) =
        .ok (.ok (some [7])) := by
  refine ⟨?_, ⟨{ primary := [1], ts := 3, ttl := 10, kind := .put }, ?_, ?_⟩, ?_, ?_⟩
  · decide +kernel
  · decide +kernel
  · decide
  · decide +kernel
  · decide +kernel

end AegisDB.Server

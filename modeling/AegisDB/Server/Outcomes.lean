import AegisDB.Server.History

/-! # What an answer says about the store

A handler that answers with a key error has written nothing, and one that answers with
success has done all of its work and nothing else. -/

namespace AegisDB.Server

open Foundation Storage Mvcc Reading FlatStore List

section Answers

variable {store : FlatStore}

theorem serve_ok {handler : Reading (Verdict ρ)} {response : ρ}
    (answered : (serve store handler).2 = .ok response) :
    (handler.run store = .ok (.reply response) ∧ (serve store handler).1 = store) ∨
      ∃ batch, handler.run store = .ok (.write batch response) ∧
        (serve store handler).1 = store.write batch := by
  rw [serve] at answered ⊢
  split at answered
  · rename_i reply ran
    cases answered
    exact .inl ⟨ran, rfl⟩
  · rename_i batch reply ran
    cases answered
    exact .inr ⟨batch, ran, rfl⟩
  · cases answered

/-! ## Prewrite -/

theorem kvPrewrite_success {req : PrewriteRequest}
    (success : (serve store (kvPrewrite req)).2 = .ok .ok) :
    PrewriteAccepted store req ∧
      (serve store (kvPrewrite req)).1 =
        store.write (req.mutations.flatMap (prewriteModifies req)) := by
  rcases serve_ok success with ⟨replied, _⟩ | ⟨batch, ran, written⟩
  · exact absurd rfl (kvPrewrite_reply replied)
  · rcases kvPrewrite_write ran with ⟨accepted, rfl, _⟩
    exact ⟨accepted, written⟩

theorem kvPrewrite_error {req : PrewriteRequest} {response : PrewriteResponse}
    (answered : (serve store (kvPrewrite req)).2 = .ok response) (failed : response.errors ≠ []) :
    (serve store (kvPrewrite req)).1 = store := by
  rcases serve_ok answered with ⟨_, same⟩ | ⟨batch, ran, _⟩
  · exact same
  · rw [(kvPrewrite_write ran).2.2] at failed
    exact absurd rfl failed

/-! ## Commit -/

def CommitAccepts (store : FlatStore) (req : CommitRequest) (key : Bytes) : Prop :=
  (∃ lock, ownLock store req.startVersion key = some lock) ∨
    lockOn store key = .ok none ∧ ∃ write,
      found (currentWriteIn req.startVersion key (store .write)) =
        .ok (some (write, req.commitVersion))

variable {req : CommitRequest}

theorem commitAccepts_of_checkKeyLocked {key : Bytes}
    (checked : (checkKeyLocked req key).run store = .ok none) : CommitAccepts store req key := by
  rw [checkKeyLocked, run_bind, run_getLock] at checked
  rcases Fallible.bind_eq_ok_iff.mp checked with ⟨held, locked, continued⟩
  cases held with
  | some lock =>
    change Reading.run store (if _ then _ else _) = _ at continued
    split at continued
    · cases continued
    · rename_i same
      exact .inl ⟨lock, ownLock_eq_some_iff.mpr ⟨locked, by simpa using same⟩⟩
  | none =>
    rw [run_bind, run_ifFound, run_currentWrite, MvccTxn.startTs_new] at continued
    rcases Fallible.bind_eq_ok_iff.mp continued with ⟨current, looked, ended⟩
    cases current with
    | none => cases ended
    | some entry =>
      change Reading.run store (if _ then _ else _) = _ at ended
      split_ifs at ended with same
      · exact .inr ⟨locked, entry.1, by rw [looked, ← same]⟩
      · cases ended

theorem commitAccepts_of_checkKeysLocked {keys : List Bytes}
    (checked : (checkKeysLocked req keys).run store = .ok none) :
    ∀ key ∈ keys, CommitAccepts store req key := by
  induction keys with
  | nil => simp
  | cons key rest induction =>
    rw [checkKeysLocked, run_bind] at checked
    rcases Fallible.bind_eq_ok_iff.mp checked with ⟨error, first, others⟩
    cases error with
    | some error => cases others
    | none =>
      intro other member
      rcases mem_cons.mp member with rfl | restMember
      · exact commitAccepts_of_checkKeyLocked first
      · exact induction others other restMember

theorem kvCommit_success (success : (serve store (kvCommit req)).2 = .ok .ok) :
    (∀ key ∈ req.keys, CommitAccepts store req key) ∧
      (serve store (kvCommit req)).1 = store.write
        (req.keys.flatMap (commitModifies store req.startVersion req.commitVersion)) := by
  rcases serve_ok success with ⟨replied, _⟩ | ⟨batch, ran, written⟩
  · rcases kvCommit_cases replied with ⟨error, impossible⟩ | ⟨_, impossible⟩ <;> cases impossible
  · rcases kvCommit_cases ran with ⟨error, impossible⟩ | ⟨checked, isWrite⟩
    · cases impossible
    · cases isWrite
      exact ⟨commitAccepts_of_checkKeysLocked checked, written⟩

theorem kvCommit_error {response : CommitResponse}
    (answered : (serve store (kvCommit req)).2 = .ok response) (failed : response.error ≠ none) :
    (serve store (kvCommit req)).1 = store := by
  rcases serve_ok answered with ⟨_, same⟩ | ⟨batch, ran, _⟩
  · exact same
  · rcases kvCommit_cases ran with ⟨error, impossible⟩ | ⟨_, isWrite⟩
    · cases impossible
    · cases isWrite
      exact absurd rfl failed

/-! ## Batch rollback -/

theorem kvBatchRollback_error {req : BatchRollbackRequest} {response : BatchRollbackResponse}
    (answered : (serve store (kvBatchRollback req)).2 = .ok response)
    (failed : response.error ≠ none) : (serve store (kvBatchRollback req)).1 = store := by
  rcases serve_ok answered with ⟨_, same⟩ | ⟨batch, ran, _⟩
  · exact same
  · rcases kvBatchRollback_cases ran with ⟨error, impossible⟩ | ⟨_, isWrite⟩
    · cases impossible
    · cases isWrite
      exact absurd rfl failed

end Answers

/-! ## All or nothing -/

/-- Every mutated key carries the lock and the value of its last mutation. -/
structure PrewriteDone (req : PrewriteRequest) (before after : FlatStore) : Prop where
  staged : ∀ earlier mutation later, req.mutations = earlier ++ mutation :: later →
    (∀ other ∈ later, other.key ≠ mutation.key) →
    ∃ kind, lockKind mutation.op = some kind ∧
      (after .lock).get? mutation.key = some (req.lock kind).toBytes ∧
      (after .default).get? (encodeKey mutation.key req.startVersion) =
        if mutation.op = .put then some mutation.value else none
  unchanged : ∀ cf entry,
    (∀ mutation ∈ req.mutations, ¬ (cf = .lock ∧ entry = mutation.key) ∧
      ¬ (cf = .default ∧ entry = encodeKey mutation.key req.startVersion)) →
    (after cf).get? entry = (before cf).get? entry

/-- Every listed key that the transaction had locked carries its record and no lock. -/
structure CommitDone (req : CommitRequest) (before after : FlatStore) : Prop where
  settled : ∀ key ∈ req.keys, ∀ lock, lockOn before key = .ok (some lock) →
    lock.ts = req.startVersion →
    HoldsRecord after key req.commitVersion
        { startTs := req.startVersion, kind := lock.kind } ∧
      (after .lock).get? key = none
  unchanged : ∀ cf entry,
    (∀ key ∈ req.keys, ∀ lock, lockOn before key = .ok (some lock) →
      lock.ts = req.startVersion → ¬ (cf = .lock ∧ entry = key) ∧
        ¬ (cf = .write ∧ entry = encodeKey key req.commitVersion)) →
    (after cf).get? entry = (before cf).get? entry

section Done

variable {store : FlatStore}

theorem prewriteDone_of_accepted {req : PrewriteRequest} (accepted : PrewriteAccepted store req) :
    PrewriteDone req store (store.write (req.mutations.flatMap (prewriteModifies req))) where
  staged earlier mutation later split isLast := by
    have supported := (accepted mutation (by simp [split])).2
    have decides {cf : Cf} {entry : Bytes} (isEntry : EntryOf mutation.key cf entry) :
        (store.write (req.mutations.flatMap (prewriteModifies req)) cf).get? entry =
          (store.write (prewriteModifies req mutation) cf).get? entry := by
      rw [split]
      exact get?_write_flatMap_of_last Mutation.key
        (fun element _ => about_prewriteModifies req element) isLast
        (fun element _ sameKey => prewriteModifies_covers supported sameKey) isEntry
    rcases Option.isSome_iff_exists.mp supported with ⟨kind, kindIs⟩
    refine ⟨kind, kindIs, ?_, ?_⟩
    · rw [decides .lock, prewriteModifies, kindIs]
      simp [get?_apply, Modify.Touches, Modify.cf, Modify.key, Modify.value]
    · rw [decides (.value req.startVersion), prewriteModifies, kindIs, stageValue]
      cases operation : mutation.op <;>
        simp [get?_apply, Modify.Touches, Modify.cf, Modify.key, Modify.value]
  unchanged cf entry elsewhere := by
    apply get?_write_of_untouched
    intro modify member touches
    rcases mem_flatMap.mp member with ⟨mutation, mutated, member⟩
    rcases touches with ⟨rfl, rfl⟩
    rw [prewriteModifies] at member
    split at member
    · simp only [mem_cons, not_mem_nil, or_false] at member
      rcases member with rfl | rfl
      · refine (elsewhere mutation mutated).2 ?_
        rw [stageValue]
        split <;> exact ⟨rfl, rfl⟩
      · exact (elsewhere mutation mutated).1 ⟨rfl, rfl⟩
    · simp at member

variable {startTs commitTs : UInt64} {key : Bytes}

theorem get?_write_commitModifies {lock : Lock} (own : ownLock store startTs key = some lock) :
    (store.write (commitModifies store startTs commitTs key) .write).get?
        (encodeKey key commitTs) = some (Write.toBytes { startTs, kind := lock.kind }) ∧
      (store.write (commitModifies store startTs commitTs key) .lock).get? key = none := by
  rw [commitModifies, own]
  simp [get?_apply, Modify.Touches, Modify.cf, Modify.key, Modify.value]

theorem touches_commitModifies {modify : Modify}
    (member : modify ∈ commitModifies store startTs commitTs key) :
    ∃ lock, ownLock store startTs key = some lock ∧
      (modify.Touches .lock key ∨ modify.Touches .write (encodeKey key commitTs)) := by
  rw [commitModifies] at member
  split at member
  · rename_i lock own
    simp only [mem_cons, not_mem_nil, or_false] at member
    rcases member with rfl | rfl
    · exact ⟨lock, own, .inr ⟨rfl, rfl⟩⟩
    · exact ⟨lock, own, .inl ⟨rfl, rfl⟩⟩
  · simp at member

theorem commitDone (req : CommitRequest) :
    CommitDone req store (store.write
      (req.keys.flatMap (commitModifies store req.startVersion req.commitVersion))) where
  settled key member lock locked same := by
    have own := ownLock_eq_some_iff.mpr ⟨locked, same⟩
    rw [HoldsRecord, get?_write_flatMap_of_mem about_commitModifies member (.record _),
      get?_write_flatMap_of_mem about_commitModifies member .lock]
    exact get?_write_commitModifies own
  unchanged cf entry elsewhere := by
    apply get?_write_of_untouched
    intro modify member touches
    rcases mem_flatMap.mp member with ⟨key, listed, member⟩
    rcases touches_commitModifies member with ⟨lock, own, isLock | isRecord⟩
    · rcases ownLock_eq_some_iff.mp own with ⟨locked, same⟩
      exact (elsewhere key listed lock locked same).1
        ⟨touches.1.symm.trans isLock.1, touches.2.symm.trans isLock.2⟩
    · rcases ownLock_eq_some_iff.mp own with ⟨locked, same⟩
      exact (elsewhere key listed lock locked same).2
        ⟨touches.1.symm.trans isRecord.1, touches.2.symm.trans isRecord.2⟩

end Done

/-- Whatever lists of keys a request has and wherever in them a check fails: an answer with
a key error leaves all column families as they were, and success is the whole request. -/
theorem writes_all_or_nothing (store : FlatStore) :
    (∀ req response, (serve store (kvPrewrite req)).2 = .ok response → response.errors ≠ [] →
        (serve store (kvPrewrite req)).1 = store) ∧
      (∀ req response, (serve store (kvCommit req)).2 = .ok response → response.error ≠ none →
        (serve store (kvCommit req)).1 = store) ∧
      (∀ req response, (serve store (kvBatchRollback req)).2 = .ok response →
        response.error ≠ none → (serve store (kvBatchRollback req)).1 = store) ∧
      (∀ req, (serve store (kvPrewrite req)).2 = .ok .ok →
        PrewriteDone req store (serve store (kvPrewrite req)).1) ∧
      ∀ req, (serve store (kvCommit req)).2 = .ok .ok →
        CommitDone req store (serve store (kvCommit req)).1 := by
  refine ⟨fun _ _ => kvPrewrite_error, fun _ _ => kvCommit_error,
    fun _ _ => kvBatchRollback_error, ?_, ?_⟩
  · intro req success
    rcases kvPrewrite_success success with ⟨accepted, written⟩
    rw [written]
    exact prewriteDone_of_accepted accepted
  · intro req success
    rw [(kvCommit_success success).2]
    exact commitDone req

theorem prewrite_of_repeated_key :
    PrewriteDone
      { mutations := [{ op := .put, key := [1], value := [7] },
          { op := .del, key := [1], value := [] }]
        primaryLock := [1], startVersion := 1, lockTtl := 10 }
      FlatStore.empty
      (serve FlatStore.empty (kvPrewrite
        { mutations := [{ op := .put, key := [1], value := [7] },
            { op := .del, key := [1], value := [] }]
          primaryLock := [1], startVersion := 1, lockTtl := 10 })).1 :=
  (writes_all_or_nothing FlatStore.empty).2.2.2.1 _ (by decide +kernel)

/-! ## Retried commits -/

variable {key : Bytes}

theorem ownLock_of_commitAccepts {store : FlatStore} {req : CommitRequest}
    (versioned : Versioned (store .write)) (later : req.startVersion < req.commitVersion)
    (accepts : CommitAccepts store req key) :
    ∃ lock, ownLock store req.startVersion key = some lock := by
  rcases accepts with own | ⟨_, write, looked⟩
  · exact own
  · cases present : (store .write).get? (encodeKey key req.startVersion) with
    | none =>
      rw [found_currentWriteIn_of_none versioned present] at looked
      cases looked
    | some value =>
      rcases versioned _ (OrderedMap.get?_eq_some_iff.mp present) with ⟨other, ts, stored, equal⟩
      rcases Prod.mk.inj equal with ⟨_, rfl⟩
      rw [found_currentWriteIn_of_some present] at looked
      have sameTs := congrArg Prod.snd (Option.some.inj (Except.ok.inj looked))
      exact absurd sameTs later.ne

theorem not_holdsLock_of_others {past others : List Request} {startTs : UInt64}
    (unlocked : ¬ HoldsLock (after past) key startTs)
    (different : ∀ request ∈ others, request.startVersion ≠ startTs) :
    ¬ HoldsLock (after (past ++ others)) key startTs := by
  induction others using List.reverseRecOn with
  | nil => rwa [append_nil]
  | append_singleton others request induction =>
    have before := induction fun other member => different other (mem_append_left _ member)
    rcases represents_after (past ++ others) with ⟨states, represents⟩
    rcases request.step_refines represents with ⟨states', represents', acts⟩
    rcases acts key with ⟨action, performs, enabled, equal⟩
    rw [← append_assoc, after_append_singleton, holdsLock_iff represents', equal]
    intro held
    rcases held with ⟨lock, locked, own⟩
    rcases KeyState.lock_apply_cases enabled locked with ⟨earlier, _⟩ | ⟨value, rfl⟩
    · exact before ((holdsLock_iff represents).mpr ⟨lock, earlier, own⟩)
    · cases performs with
      | @stage req mutation kind accepted member supported =>
        exact different (.prewrite req) (by simp) own

/-- A commit that has succeeded succeeds once more exactly if it lists no keys: the locks it
asks for are gone, and the records are not where it looks for them. -/
theorem commit_retried_iff (past others : List Request) (req : CommitRequest)
    (later : req.startVersion < req.commitVersion)
    (success : (serve (after past) (kvCommit req)).2 = .ok .ok)
    (different : ∀ request ∈ others, request.startVersion ≠ req.startVersion) :
    serve (after (past ++ [.commit req] ++ others)) (kvCommit req) =
        (after (past ++ [.commit req] ++ others), .ok .ok) ↔ req.keys = [] := by
  constructor
  · intro again
    by_contra listed
    rcases exists_mem_of_ne_nil _ listed with ⟨key, member⟩
    have versionedAt (requests : List Request) : Versioned (after requests .write) := by
      rcases represents_after requests with ⟨states, represents⟩
      exact represents.versioned
    rcases kvCommit_success success with ⟨accepts, written⟩
    rcases ownLock_of_commitAccepts (versionedAt past) later (accepts key member) with ⟨lock, own⟩
    rcases ownLock_eq_some_iff.mp own with ⟨locked, same⟩
    have unlocked : ¬ HoldsLock (after (past ++ [.commit req])) key req.startVersion := by
      have stepped : (Request.commit req).step (after past) =
          (serve (after past) (kvCommit req)).1 := serve_map_fst ..
      intro held
      rcases held with ⟨left, present, _⟩
      rw [after_append_singleton, stepped, written,
        ((commitDone req).settled key member lock locked same).2] at present
      cases present
    have retried := kvCommit_success (congrArg Prod.snd again)
    rcases ownLock_of_commitAccepts (versionedAt _) later (retried.1 key member) with
      ⟨still, stillOwn⟩
    rcases represents_after (past ++ [.commit req] ++ others) with ⟨states, represents⟩
    rcases lock_of_ownLock ((represents_iff.mp represents).1 key) stillOwn with ⟨held, ownTs⟩
    exact not_holdsLock_of_others unlocked different
      ((holdsLock_iff represents).mpr ⟨still, held, ownTs⟩)
  · intro none
    rw [serve, kvCommit, none]
    rfl

theorem commit_without_keys_retried :
    serve (after ([] ++ [.commit { startVersion := 1, keys := [], commitVersion := 3 }] ++
        [putOne [1] [7] 2])) (kvCommit { startVersion := 1, keys := [], commitVersion := 3 }) =
      (after ([] ++ [.commit { startVersion := 1, keys := [], commitVersion := 3 }] ++
        [putOne [1] [7] 2]), .ok .ok) :=
  (commit_retried_iff [] [putOne [1] [7] 2] { startVersion := 1, keys := [], commitVersion := 3 }
    (by decide) (by decide +kernel) (by decide)).mpr rfl

theorem commit_retry_refused :
    ∃ past req, req.startVersion < req.commitVersion ∧
      (serve (after past) (kvCommit req)).2 = .ok .ok ∧
      (serve (after (past ++ [.commit req])) (kvCommit req)).2 =
        .ok (.withKeyError (notLocked [1])) :=
  ⟨[putOne [1] [7] 1], { startVersion := 1, keys := [[1]], commitVersion := 2 }, by decide,
    by decide +kernel, by decide +kernel⟩

end AegisDB.Server

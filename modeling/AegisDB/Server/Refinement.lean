import AegisDB.Mvcc.KeyState
import AegisDB.Server.Frame

/-! # Requests act on each key by one action

A request changes several keys in one batch, and lists of keys may repeat a key.
Seen from one user key, it still takes a single enabled action. -/

namespace AegisDB.Server

open Foundation Storage Mvcc FlatStore List

inductive Performs (store : FlatStore) : Request → Bytes → KeyAction → Prop
  | stage {req : PrewriteRequest} {mutation : Mutation} {kind : WriteKind}
      (accepted : PrewriteAccepted store req)
      (member : mutation ∈ req.mutations) (supported : lockKind mutation.op = some kind) :
      Performs store (.prewrite req) mutation.key
        (.stage (req.lock kind) (stageValue req.startVersion mutation).value)
  | commit {req : CommitRequest} {key : Bytes} (member : key ∈ req.keys) :
      Performs store (.commit req) key (.commit req.startVersion req.commitVersion)
  | expire {req : CheckTxnStatusRequest} :
      Performs store (.checkTxnStatus req) req.primaryKey (.abandon req.lockTs)
  | mark {req : CheckTxnStatusRequest} :
      Performs store (.checkTxnStatus req) req.primaryKey (.mark req.lockTs)
  | rollback {req : BatchRollbackRequest} {key : Bytes} (accepted : RollbackAccepted store req)
      (member : key ∈ req.keys) :
      Performs store (.batchRollback req) key (.rollback req.startVersion)
  | resolveCommit {req : ResolveLockRequest} {key : Bytes} (commits : req.commitVersion > 0) :
      Performs store (.resolveLock req) key (.commit req.startVersion req.commitVersion)
  | resolveRollback {req : ResolveLockRequest} {key : Bytes} :
      Performs store (.resolveLock req) key (.abandon req.startVersion)
  | keep {request : Request} {key : Bytes} : Performs store request key .keep

structure Shows (store : FlatStore) (key : Bytes) (state : KeyState) : Prop where
  lock : (store .lock).get? key = state.lock.map Lock.toBytes
  record : ∀ ts, (store .write).get? (encodeKey key ts) = (state.record ts).map Write.toBytes
  value : ∀ ts, (store .default).get? (encodeKey key ts) = state.value ts

theorem represents_iff {store : FlatStore} {states : Bytes → KeyState} :
    Represents store states ↔
      (∀ key, Shows store key (states key)) ∧ Versioned (store .write) := by
  constructor
  · rintro ⟨locks, records, values, versioned⟩
    exact ⟨fun key => ⟨locks key, records key, values key⟩, versioned⟩
  · rintro ⟨shows, versioned⟩
    exact ⟨fun key => (shows key).lock, fun key => (shows key).record,
      fun key => (shows key).value, versioned⟩

/-! ## Locks of a represented key -/

section Locks

variable {store : FlatStore} {key : Bytes} {state : KeyState}

variable (shows_ : Shows store key state)

include shows_

theorem lockOn_of_shows :
    (state.lock = none ∧ lockOn store key = .ok none) ∨
      ∃ lock, state.lock = some lock ∧
        ((lock.primary ≠ [] ∧ lockOn store key = .ok (some lock)) ∨
          (lock.primary = [] ∧ ∃ fault, lockOn store key = .error fault)) := by
  have present := shows_.lock
  rw [lockOn, present]
  cases state.lock with
  | none => exact .inl ⟨rfl, rfl⟩
  | some lock =>
    refine .inr ⟨lock, rfl, ?_⟩
    by_cases named : lock.primary = []
    · rcases Lock.parse_toBytes_of_unnamed lock named with ⟨message, failed⟩
      exact .inr ⟨named, _, by
        simp only [readLock, Option.map_some, parseStoredLock, failed]
        rfl⟩
    · exact .inl ⟨named, by
        simp only [readLock, Option.map_some, parseStoredLock, Lock.parse_toBytes lock named]
        rfl⟩

theorem lock_of_lockOn {held : Option Lock}
    (locked : lockOn store key = .ok held) : state.lock = held := by
  rcases lockOn_of_shows shows_ with
    ⟨none, read⟩ | ⟨lock, some, ⟨_, read⟩ | ⟨_, fault, read⟩⟩
  · rw [none, ← Except.ok.inj (read.symm.trans locked)]
  · rw [some, ← Except.ok.inj (read.symm.trans locked)]
  · rw [read] at locked
    cases locked

variable {startTs : UInt64}

theorem heldOnlyBy_of_available
    (available : Available store startTs key) : state.HeldOnlyBy startTs := by
  rcases available with ⟨held, locked, own⟩
  rw [KeyState.HeldOnlyBy, lock_of_lockOn shows_ locked]
  exact own

theorem lock_of_ownLock {lock : Lock}
    (own : ownLock store startTs key = some lock) : state.lock = some lock ∧ lock.ts = startTs := by
  rcases ownLock_eq_some_iff.mp own with ⟨locked, same⟩
  exact ⟨lock_of_lockOn shows_ locked, same⟩

end Locks

/-! ## Batches seen from one key -/

inductive EntryOf (key : Bytes) : Cf → Bytes → Prop
  | lock : EntryOf key .lock key
  | record (ts : UInt64) : EntryOf key .write (encodeKey key ts)
  | value (ts : UInt64) : EntryOf key .default (encodeKey key ts)

theorem EntryOf.eq {key other entry : Bytes} {cf : Cf} (left : EntryOf key cf entry)
    (right : EntryOf other cf entry) : key = other := by
  generalize same : entry = entry' at right
  cases left with
  | lock =>
    cases right
    exact same
  | record ts =>
    cases right
    exact (encodeKey_inj.mp same).1
  | value ts =>
    cases right
    exact (encodeKey_inj.mp same).1

section Batches

variable {store other : FlatStore} {key : Bytes} {state : KeyState}

theorem Shows.congr (shows_ : Shows store key state)
    (same : ∀ cf entry, EntryOf key cf entry → (other cf).get? entry = (store cf).get? entry) :
    Shows other key state where
  lock := (same _ _ .lock).trans shows_.lock
  record ts := (same _ _ (.record ts)).trans (shows_.record ts)
  value ts := (same _ _ (.value ts)).trans (shows_.value ts)

def About (key : Bytes) (modifies : List Modify) : Prop :=
  ∀ modify ∈ modifies, EntryOf key modify.cf modify.key

variable {α : Type} {elements : List α} (keyOf : α → Bytes) {added : α → List Modify}

variable {cf : Cf} {entry : Bytes}

theorem not_touches_of_about {modifies : List Modify} {different : Bytes}
    (about : About different modifies) (notSame : different ≠ key)
    (isEntry : EntryOf key cf entry) :
    ∀ modify ∈ modifies, ¬ modify.Touches cf entry := by
  rintro modify member ⟨rfl, rfl⟩
  exact notSame ((about modify member).eq isEntry)

theorem get?_write_flatMap_of_absent
    (about : ∀ element ∈ elements, About (keyOf element) (added element))
    (absent : ∀ element ∈ elements, keyOf element ≠ key) (isEntry : EntryOf key cf entry) :
    (store.write (elements.flatMap added) cf).get? entry = (store cf).get? entry := by
  apply get?_write_of_untouched
  intro modify member
  rcases mem_flatMap.mp member with ⟨element, elementMember, member⟩
  exact not_touches_of_about (about element elementMember) (absent element elementMember) isEntry
    modify member

theorem Shows.write_flatMap_of_absent (shows_ : Shows store key state)
    (about : ∀ element ∈ elements, About (keyOf element) (added element))
    (absent : ∀ element ∈ elements, keyOf element ≠ key) :
    Shows (store.write (elements.flatMap added)) key state :=
  shows_.congr fun _ _ isEntry => get?_write_flatMap_of_absent keyOf about absent isEntry

variable {keys : List Bytes}

theorem Shows.write_flatMap_of_not_mem (shows_ : Shows store key state)
    {added : Bytes → List Modify} (about : ∀ key, About key (added key)) (absent : key ∉ keys) :
    Shows (store.write (keys.flatMap added)) key state := by
  apply shows_.write_flatMap_of_absent id fun key _ => about key
  intro other member same
  exact absent (same ▸ member)

theorem Shows.write_of_about (shows_ : Shows store key state) {other : Bytes}
    {batch : List Modify} (about : About other batch) (different : key ≠ other) :
    Shows (store.write batch) key state := by
  apply shows_.congr
  intro cf entry isEntry
  exact get?_write_of_untouched (not_touches_of_about about different.symm isEntry)

variable {before after : List α} {last : α}

section Last

variable (about : ∀ element ∈ before ++ last :: after, About (keyOf element) (added element))
  (afterOther : ∀ element ∈ after, keyOf element ≠ key)
  (covered : ∀ element ∈ before, keyOf element = key → ∀ modify ∈ added element,
    ∃ later ∈ added last, later.Touches modify.cf modify.key)

include about afterOther covered

theorem get?_write_flatMap_of_last (isEntry : EntryOf key cf entry) :
    (store.write ((before ++ last :: after).flatMap added) cf).get? entry =
      (store.write (added last) cf).get? entry := by
  have afterUntouched : ∀ modify ∈ after.flatMap added, ¬ modify.Touches cf entry := by
    intro modify member
    rcases mem_flatMap.mp member with ⟨element, elementMember, member⟩
    exact not_touches_of_about (about element (by simp [elementMember]))
      (afterOther element elementMember) isEntry modify member
  rw [flatMap_append, flatMap_cons, write_append, write_append,
    get?_write_of_untouched afterUntouched]
  apply get?_write_congr
  by_cases touched : ∃ modify ∈ added last, modify.Touches cf entry
  · exact .inr touched
  · refine .inl (get?_write_of_untouched ?_)
    intro modify member touches
    rcases mem_flatMap.mp member with ⟨element, elementMember, member⟩
    by_cases same : keyOf element = key
    · rcases touches with ⟨rfl, rfl⟩
      exact touched (covered element elementMember same modify member)
    · exact not_touches_of_about (about element (by simp [elementMember])) same isEntry
        modify member touches

theorem Shows.write_flatMap_of_last (shows_ : Shows (store.write (added last)) key state) :
    Shows (store.write ((before ++ last :: after).flatMap added)) key state :=
  shows_.congr fun _ _ isEntry =>
    get?_write_flatMap_of_last keyOf about afterOther covered isEntry

end Last

theorem exists_last_about (present : ∃ element ∈ elements, keyOf element = key) :
    ∃ before last after, elements = before ++ last :: after ∧ keyOf last = key ∧
      ∀ element ∈ after, keyOf element ≠ key := by
  induction elements with
  | nil => simp at present
  | cons head rest induction =>
    by_cases later : ∃ element ∈ rest, keyOf element = key
    · rcases induction later with ⟨before, last, after, rfl, lastKey, afterOther⟩
      exact ⟨head :: before, last, after, rfl, lastKey, afterOther⟩
    · have headKey : keyOf head = key := by
        rcases present with ⟨element, member, same⟩
        rcases mem_cons.mp member with rfl | restMember
        · exact same
        · exact absurd ⟨element, restMember, same⟩ later
      refine ⟨[], head, rest, rfl, headKey, ?_⟩
      intro element member same
      exact later ⟨element, member, same⟩

theorem get?_write_flatMap_of_mem {added : Bytes → List Modify}
    (about : ∀ key, About key (added key)) (member : key ∈ keys) (isEntry : EntryOf key cf entry) :
    (store.write (keys.flatMap added) cf).get? entry =
      (store.write (added key) cf).get? entry := by
  rcases exists_last_about id ⟨key, member, rfl⟩ with
    ⟨before, last, after, rfl, lastKey, afterOther⟩
  obtain rfl : last = key := lastKey
  apply get?_write_flatMap_of_last id (fun element _ => about element) afterOther _ isEntry
  rintro element _ rfl modify member
  exact ⟨modify, member, rfl, rfl⟩

theorem Shows.write_flatMap_of_mem {added : Bytes → List Modify}
    (about : ∀ key, About key (added key)) (member : key ∈ keys)
    (shows_ : Shows (store.write (added key)) key state) :
    Shows (store.write (keys.flatMap added)) key state :=
  shows_.congr fun _ _ isEntry => get?_write_flatMap_of_mem about member isEntry

end Batches

/-! ## Single modifications -/

section Modifications

variable {store : FlatStore} {key : Bytes} {state : KeyState}

variable (shows_ : Shows store key state)

include shows_

theorem Shows.putLock (lock : Lock) :
    Shows (store.apply (.put key lock.toBytes .lock)) key { state with lock := some lock } where
  lock := by simp [get?_apply, Modify.Touches, Modify.cf, Modify.key, Modify.value]
  record ts := by
    simpa [get?_apply, Modify.Touches, Modify.cf] using shows_.record ts
  value ts := by
    simpa [get?_apply, Modify.Touches, Modify.cf] using shows_.value ts

theorem Shows.deleteLock :
    Shows (store.apply (.delete key .lock)) key { state with lock := none } where
  lock := by simp [get?_apply, Modify.Touches, Modify.cf, Modify.key, Modify.value]
  record ts := by
    simpa [get?_apply, Modify.Touches, Modify.cf] using shows_.record ts
  value ts := by
    simpa [get?_apply, Modify.Touches, Modify.cf] using shows_.value ts

theorem Shows.putWrite (ts : UInt64) (write : Write) :
    Shows (store.apply (.put (encodeKey key ts) write.toBytes .write)) key
      (state.putRecord ts write) where
  lock := by
    simpa [get?_apply, Modify.Touches, Modify.cf] using shows_.lock
  record other := by
    rw [get?_apply, KeyState.putRecord]
    by_cases same : other = ts
    · subst same
      simp [Modify.Touches, Modify.cf, Modify.key, Modify.value]
    · have differs : ¬ encodeKey key ts = encodeKey key other :=
        fun equal => same (encodeKey_inj.mp equal).2.symm
      simpa [Modify.Touches, Modify.key, differs, Function.update_of_ne same] using
        shows_.record other
  value other := by
    simpa [get?_apply, Modify.Touches, Modify.cf] using shows_.value other

theorem Shows.setValue (modify : Modify) (ts : UInt64)
    (ofDefault : modify.cf = .default) (ofKey : modify.key = encodeKey key ts) :
    Shows (store.apply modify) key
      { state with value := Function.update state.value ts modify.value } where
  lock := by
    simpa [get?_apply, Modify.Touches, ofDefault] using shows_.lock
  record other := by
    simpa [get?_apply, Modify.Touches, ofDefault] using shows_.record other
  value other := by
    rw [get?_apply]
    by_cases same : other = ts
    · subst same
      simp [Modify.Touches, ofDefault, ofKey]
    · have differs : ¬ encodeKey key ts = encodeKey key other :=
        fun equal => same (encodeKey_inj.mp equal).2.symm
      simpa [Modify.Touches, ofKey, differs, Function.update_of_ne same] using
        shows_.value other

/-! ## The parts of the batches -/

omit shows_

theorem Shows.prewriteModifies {req : PrewriteRequest} {mutation : Mutation} {kind : WriteKind}
    (shows_ : Shows store mutation.key state) (supported : lockKind mutation.op = some kind) :
    Shows (store.write (prewriteModifies req mutation)) mutation.key
      (state.apply (.stage (req.lock kind) (stageValue req.startVersion mutation).value)) := by
  have ofDefault : (stageValue req.startVersion mutation).cf = .default := by
    rw [stageValue]
    split <;> rfl
  have ofKey : (stageValue req.startVersion mutation).key =
      encodeKey mutation.key req.startVersion := by
    rw [stageValue]
    split <;> rfl
  rw [Server.prewriteModifies, supported]
  exact (shows_.setValue _ _ ofDefault ofKey).putLock (req.lock kind)

include shows_

theorem Shows.commitModifies {startTs commitTs : UInt64}
    {lock : Lock} (own : ownLock store startTs key = some lock) :
    Shows (store.write (commitModifies store startTs commitTs key)) key
      (state.apply (.commit startTs commitTs)) := by
  rw [Server.commitModifies, own, KeyState.apply, (lock_of_ownLock shows_ own).1]
  exact (shows_.putWrite commitTs _).deleteLock

theorem Shows.rollbackModifies (startTs : UInt64) (unlocked : state.lock = none) :
    Shows (store.write (rollbackModifies startTs key)) key (state.rolledBack startTs) := by
  have result := (shows_.putWrite startTs (rollbackWrite startTs)).setValue
    (.delete (encodeKey key startTs) .default) startTs rfl rfl
  rw [KeyState.rolledBack, ← unlocked]
  exact result

theorem Shows.abandonModifies (startTs : UInt64) :
    Shows (store.write (.delete key .lock :: Server.rollbackModifies startTs key)) key
      (state.rolledBack startTs) :=
  shows_.deleteLock.rollbackModifies startTs rfl

end Modifications

/-! ## Every request -/

section Requests

variable {store : FlatStore} {key : Bytes} {state : KeyState} {startTs commitTs : UInt64}

theorem about_prewriteModifies (req : PrewriteRequest) (mutation : Mutation) :
    About mutation.key (prewriteModifies req mutation) := by
  intro modify member
  rw [prewriteModifies] at member
  split at member
  · simp only [mem_cons, not_mem_nil, or_false] at member
    rcases member with rfl | rfl
    · rw [stageValue]
      split <;> exact .value _
    · exact .lock
  · simp at member

theorem about_commitModifies (key : Bytes) :
    About key (commitModifies store startTs commitTs key) := by
  intro modify member
  rw [commitModifies] at member
  split at member
  · simp only [mem_cons, not_mem_nil, or_false] at member
    rcases member with rfl | rfl
    · exact .record _
    · exact .lock
  · simp at member

theorem about_rollbackModifies (key : Bytes) : About key (rollbackModifies startTs key) := by
  intro modify member
  simp only [rollbackModifies, mem_cons, not_mem_nil, or_false] at member
  rcases member with rfl | rfl
  · exact .record _
  · exact .value _

theorem About.cons_deleteLock {modifies : List Modify} (about : About key modifies) :
    About key (.delete key .lock :: modifies) := by
  intro modify member
  rcases mem_cons.mp member with rfl | rest
  · exact .lock
  · exact about modify rest

theorem about_unlock_rollbackModifies (key : Bytes) :
    About key (unlockModifies store startTs key ++ rollbackModifies startTs key) := by
  rw [unlockModifies]
  split
  · exact (about_rollbackModifies key).cons_deleteLock
  · exact about_rollbackModifies key

theorem about_resolveModifies (key : Bytes) :
    About key (resolveModifies store startTs key) := by
  rw [resolveModifies]
  split
  · exact (about_rollbackModifies key).cons_deleteLock
  · simp [About]

variable {keys : List Bytes}

theorem commit_refines (shows_ : Shows store key state) (member : key ∈ keys) :
    (state.Enabled (.commit startTs commitTs) ∧
        Shows (store.write (keys.flatMap (commitModifies store startTs commitTs))) key
          (state.apply (.commit startTs commitTs))) ∨
      Shows (store.write (keys.flatMap (commitModifies store startTs commitTs))) key state := by
  cases own : ownLock store startTs key with
  | some lock =>
    rcases lock_of_ownLock shows_ own with ⟨held, same⟩
    exact .inl ⟨⟨lock, held, same⟩,
      .write_flatMap_of_mem about_commitModifies member (shows_.commitModifies own)⟩
  | none =>
    refine .inr (.write_flatMap_of_mem about_commitModifies member ?_)
    simpa [commitModifies, own] using shows_

theorem resolve_refines (shows_ : Shows store key state) (member : key ∈ keys) :
    (state.Enabled (.abandon startTs) ∧
        Shows (store.write (keys.flatMap (resolveModifies store startTs))) key
          (state.apply (.abandon startTs))) ∨
      Shows (store.write (keys.flatMap (resolveModifies store startTs))) key state := by
  cases own : ownLock store startTs key with
  | some lock =>
    rcases lock_of_ownLock shows_ own with ⟨held, same⟩
    refine .inl ⟨⟨lock, held, same⟩, .write_flatMap_of_mem about_resolveModifies member ?_⟩
    simpa [resolveModifies, own] using shows_.abandonModifies startTs
  | none =>
    refine .inr (.write_flatMap_of_mem about_resolveModifies member ?_)
    simpa [resolveModifies, own] using shows_

theorem rollback_refines (shows_ : Shows store key state)
    (member : key ∈ keys) (available : Available store startTs key) :
    state.Enabled (.rollback startTs) ∧
      Shows (store.write (keys.flatMap fun key =>
        unlockModifies store startTs key ++ rollbackModifies startTs key)) key
          (state.apply (.rollback startTs)) := by
  refine ⟨heldOnlyBy_of_available shows_ available,
    .write_flatMap_of_mem about_unlock_rollbackModifies member ?_⟩
  cases own : ownLock store startTs key with
  | some lock => simpa [unlockModifies, own] using shows_.abandonModifies startTs
  | none =>
    have unlocked : state.lock = none := by
      rcases available with ⟨held, locked, same⟩
      rw [lock_of_lockOn shows_ locked]
      cases held with
      | none => rfl
      | some lock =>
        rw [ownLock_eq_some_iff.mpr ⟨locked, same lock rfl⟩] at own
        cases own
    simpa [unlockModifies, own] using shows_.rollbackModifies startTs unlocked

variable {req : PrewriteRequest}

theorem prewriteModifies_covers {mutation last : Mutation}
    (supported : (lockKind last.op).isSome) (sameKey : mutation.key = last.key) :
    ∀ modify ∈ prewriteModifies req mutation,
      ∃ later ∈ prewriteModifies req last, later.Touches modify.cf modify.key := by
  rcases Option.isSome_iff_exists.mp supported with ⟨kind, kindIs⟩
  intro modify member
  rw [prewriteModifies, kindIs]
  rw [prewriteModifies] at member
  split at member
  · simp only [mem_cons, not_mem_nil, or_false] at member
    rcases member with rfl | rfl
    · refine ⟨_, mem_cons_self, ?_⟩
      rw [stageValue, stageValue, sameKey]
      constructor <;> split <;> split <;> rfl
    · exact ⟨_, mem_cons_of_mem _ mem_cons_self, rfl, sameKey.symm⟩
  · simp at member

theorem prewrite_refines (shows_ : Shows store key state) (accepted : PrewriteAccepted store req)
    (mutated : ∃ mutation ∈ req.mutations, mutation.key = key) :
    ∃ mutation ∈ req.mutations, mutation.key = key ∧ ∃ kind, lockKind mutation.op = some kind ∧
      state.Enabled (.stage (req.lock kind) (stageValue req.startVersion mutation).value) ∧
      Shows (store.write (req.mutations.flatMap (prewriteModifies req))) key
        (state.apply (.stage (req.lock kind) (stageValue req.startVersion mutation).value)) := by
  rcases exists_last_about Mutation.key mutated with ⟨before, last, after, split, rfl, afterOther⟩
  have lastMember : last ∈ req.mutations := by simp [split]
  rcases accepted last lastMember with ⟨available, supported⟩
  rcases Option.isSome_iff_exists.mp supported with ⟨kind, kindIs⟩
  refine ⟨last, lastMember, rfl, kind, kindIs, ⟨heldOnlyBy_of_available shows_ available, ?_⟩, ?_⟩
  · intro isRollback
    cases operation : last.op <;> simp_all [lockKind, PrewriteRequest.lock]
  · rw [split]
    apply Shows.write_flatMap_of_last Mutation.key
      (fun element _ => about_prewriteModifies req element) afterOther
      _ (shows_.prewriteModifies kindIs)
    intro element member sameKey
    exact prewriteModifies_covers supported sameKey

variable {request : Request} {batch : List Modify}

theorem writes_refines (shows_ : Shows store key state) (writes : Writes store request batch) :
    ∃ action, Performs store request key action ∧ state.Enabled action ∧
      Shows (store.write batch) key (state.apply action) := by
  have kept {unchanged : List Modify} (same : Shows (store.write unchanged) key state) :
      ∃ action, Performs store request key action ∧ state.Enabled action ∧
        Shows (store.write unchanged) key (state.apply action) :=
    ⟨.keep, .keep, trivial, same⟩
  cases writes with
  | @prewrite req accepted =>
    by_cases mutated : ∃ mutation ∈ req.mutations, mutation.key = key
    · rcases prewrite_refines shows_ accepted mutated with
        ⟨mutation, member, rfl, kind, supported, enabled, result⟩
      exact ⟨_, .stage accepted member supported, enabled, result⟩
    · apply kept
      apply shows_.write_flatMap_of_absent Mutation.key fun mutation _ =>
        about_prewriteModifies req mutation
      intro mutation member same
      exact mutated ⟨mutation, member, same⟩
  | @commit req =>
    by_cases member : key ∈ req.keys
    · rcases commit_refines shows_ member with ⟨enabled, result⟩ | same
      · exact ⟨_, .commit member, enabled, result⟩
      · exact kept same
    · exact kept (shows_.write_flatMap_of_not_mem about_commitModifies member)
  | @expire req lock own expired =>
    by_cases same : key = req.primaryKey
    · subst same
      exact ⟨_, .expire, ⟨lock, lock_of_ownLock shows_ own⟩, shows_.abandonModifies _⟩
    · exact kept
        (shows_.write_of_about (about_rollbackModifies req.primaryKey).cons_deleteLock same)
  | @mark req unlocked =>
    by_cases same : key = req.primaryKey
    · subst same
      exact ⟨_, .mark, lock_of_lockOn shows_ unlocked, shows_.putWrite _ _⟩
    · have about : About req.primaryKey [.put (encodeKey req.primaryKey req.lockTs)
          (rollbackWrite req.lockTs).toBytes .write] := by
        intro modify member
        rw [mem_singleton.mp member]
        exact .record _
      exact kept (shows_.write_of_about about same)
  | @rollback req accepted =>
    by_cases member : key ∈ req.keys
    · rcases rollback_refines shows_ member (accepted key member) with ⟨enabled, result⟩
      exact ⟨_, .rollback accepted member, enabled, result⟩
    · exact kept (shows_.write_flatMap_of_not_mem about_unlock_rollbackModifies member)
  | @resolveCommit req keys commits =>
    by_cases member : key ∈ keys
    · rcases commit_refines shows_ member with ⟨enabled, result⟩ | same
      · exact ⟨_, .resolveCommit commits, enabled, result⟩
      · exact kept same
    · exact kept (shows_.write_flatMap_of_not_mem about_commitModifies member)
  | @resolveRollback req keys rollsBack =>
    by_cases member : key ∈ keys
    · rcases resolve_refines shows_ member with ⟨enabled, result⟩ | same
      · exact ⟨_, .resolveRollback, enabled, result⟩
      · exact kept same
    · exact kept (shows_.write_flatMap_of_not_mem about_resolveModifies member)

theorem versioned_write
    (versioned : Versioned (store .write)) (writes : Writes store request batch) :
    Versioned (store.write batch .write) := by
  rintro ⟨encodedKey, value⟩ member
  have present := OrderedMap.get?_eq_some_iff.mpr member
  rcases get?_write_cases store batch .write encodedKey with
    ⟨_, same⟩ | ⟨modify, modifyMember, touches, set⟩
  · exact versioned _ (OrderedMap.get?_eq_some_iff.mp (same.symm.trans present))
  · rcases touches with ⟨ofWrite, rfl⟩
    have left := set.symm.trans present
    cases belongs_of_writes writes modifyMember with
    | putLock _ _ => cases ofWrite
    | deleteLock _ => cases ofWrite
    | putValue => cases ofWrite
    | deleteValue => cases ofWrite
    | @putWrite key ts write _ =>
      cases left
      exact ⟨key, ts, write, rfl⟩

theorem Request.step_refines {states : Bytes → KeyState} (represents : Represents store states)
    (request : Request) :
    ∃ states', Represents (request.step store) states' ∧
      ∀ key, ∃ action, Performs store request key action ∧ (states key).Enabled action ∧
        states' key = (states key).apply action := by
  rcases represents_iff.mp represents with ⟨shows_, versioned⟩
  rcases request.step_cases store with same | ⟨batch, writes, written⟩
  · refine ⟨states, ?_, fun key => ⟨.keep, .keep, trivial, rfl⟩⟩
    rw [same]
    exact represents
  · choose action performs enabled result using fun key => writes_refines (shows_ key) writes
    refine ⟨fun key => (states key).apply (action key), ?_, fun key =>
      ⟨action key, performs key, enabled key, rfl⟩⟩
    rw [written]
    exact represents_iff.mpr ⟨result, versioned_write versioned writes⟩

end Requests

end AegisDB.Server

import AegisDB.Storage.Standalone

/-! # Concurrent calls of the storage with a cache

A read looks into the cache, then into the database, then fills the cache; a write
updates the database, then the cache. Other calls can come in between, so a read can
fill the cache with a value that has been overwritten, and two writes can update the
cache in another order than the database. -/

namespace AegisDB.Storage

open Foundation OrderedMap Cache List

inductive CallStage where
  | peek (cf : Cf) (key : Bytes)
  | read (cf : Cf) (key : Bytes)
  | fill (cf : Cf) (key value : Bytes)
  | apply (batch : List Modify)
  | update (batch : List Modify)
deriving DecidableEq, Repr

namespace CallStage

def first : StorageCall → CallStage
  | .get cf key => .peek cf key
  | .write batch => .apply batch

def Updates (cf : Cf) (key : Bytes) : CallStage → Prop
  | .update batch => ∃ modify ∈ batch, modify.Touches cf key
  | _ => False

instance decidableUpdates (cf : Cf) (key : Bytes) (stage : CallStage) :
    Decidable (stage.Updates cf key) := by
  cases stage <;> unfold Updates <;> infer_instance

def Textual : CallStage → Prop
  | .peek _ key | .read _ key | .fill _ key _ => validUtf8 key = true
  | .apply batch | .update batch => ∀ modify ∈ batch, validUtf8 modify.key = true

end CallStage

structure ConcurrentStorage (σ : Type) where
  storage : StandaloneStorage σ
  calls : OrderedMap Nat CallStage

inductive StorageEvent where
  | begin (id : Nat) (call : StorageCall)
  | advance (id : Nat)
deriving DecidableEq, Repr

def StorageEvent.Textual : StorageEvent → Prop
  | .begin _ call => call.Textual
  | .advance _ => True

instance StorageEvent.decidableTextual (event : StorageEvent) : Decidable event.Textual := by
  cases event <;> unfold Textual <;> infer_instance

namespace ConcurrentStorage

variable {σ : Type}

def start (cache : σ) : ConcurrentStorage σ := { storage := .new cache, calls := .empty }

def moveTo (state : ConcurrentStorage σ) (id : Nat) (stage : CallStage) : ConcurrentStorage σ :=
  { state with calls := state.calls.insert id stage }

def finish (state : ConcurrentStorage σ) (id : Nat) : ConcurrentStorage σ :=
  { state with calls := state.calls.erase id }

section Stages

variable {state : ConcurrentStorage σ} {id : Nat} {stage : CallStage}

theorem storage_moveTo : (state.moveTo id stage).storage = state.storage := rfl

theorem get?_moveTo : (state.moveTo id stage).calls.get? id = some stage :=
  get?_insert_same _ _ _

theorem moveTo_moveTo {first second : CallStage} :
    (state.moveTo id first).moveTo id second = state.moveTo id second := by
  rw [moveTo, moveTo, moveTo, insert_insert]

theorem finish_moveTo (fresh : state.calls.get? id = none) :
    (state.moveTo id stage).finish id = state := by
  rw [moveTo, finish, erase_insert_of_fresh stage fresh]

end Stages

variable [Cache σ (List Char) Bytes]

def perform (state : ConcurrentStorage σ) (id : Nat) : CallStage → ConcurrentStorage σ
  | .peek cf key =>
    match Cache.peek state.storage.cache (cacheKey cf key) with
    | some _ => state.finish id
    | none => state.moveTo id (.read cf key)
  | .read cf key =>
    match state.storage.db.get? (keyWithCf cf key) with
    | some value => state.moveTo id (.fill cf key value)
    | none => state.finish id
  | .fill cf key value =>
    { state with
      storage.cache := Cache.put state.storage.cache (cacheKey cf key) value }.finish id
  | .apply batch =>
    { state with storage.db := batch.foldl applyEncoded state.storage.db }.moveTo id
      (.update batch)
  | .update batch =>
    { state with
      storage.cache :=
        batch.foldl StandaloneStorage.updateCache state.storage.cache }.finish id

def act (state : ConcurrentStorage σ) : StorageEvent → ConcurrentStorage σ
  | .begin id call =>
    match state.calls.get? id with
    | some _ => state
    | none => state.moveTo id (.first call)
  | .advance id =>
    match state.calls.get? id with
    | some stage => state.perform id stage
    | none => state

/-! ## Calls by themselves -/

variable {state : ConcurrentStorage σ} {id : Nat} {stage : CallStage}

theorem act_begin (call : StorageCall) (fresh : state.calls.get? id = none) :
    state.act (.begin id call) = state.moveTo id (.first call) := by
  rw [act, fresh]

theorem act_advance (present : state.calls.get? id = some stage) :
    state.act (.advance id) = state.perform id stage := by
  rw [act, present]

theorem act_advance_of_absent (absent : state.calls.get? id = none) :
    state.act (.advance id) = state := by
  rw [act, absent]

theorem getCf_alone (cf : Cf) (key : Bytes) (fresh : state.calls.get? id = none) :
    [.begin id (.get cf key), .advance id, .advance id, .advance id].foldl act state =
      { state with storage := (state.storage.getCf cf key).2 } := by
  simp only [foldl_cons, foldl_nil]
  rw [act_begin _ fresh, CallStage.first, act_advance get?_moveTo, perform, storage_moveTo,
    StandaloneStorage.getCf]
  cases found : Cache.peek state.storage.cache (cacheKey cf key) with
  | some value =>
    dsimp only
    rw [finish_moveTo fresh, act_advance_of_absent fresh, act_advance_of_absent fresh]
  | none =>
    dsimp only
    rw [moveTo_moveTo, act_advance get?_moveTo, perform, storage_moveTo]
    cases present : state.storage.db.get? (keyWithCf cf key) with
    | none =>
      dsimp only
      rw [finish_moveTo fresh, act_advance_of_absent fresh]
    | some value =>
      dsimp only
      rw [moveTo_moveTo, act_advance get?_moveTo, perform]
      exact congrArg _ (erase_insert_of_fresh _ fresh)

theorem write_alone (batch : List Modify) (fresh : state.calls.get? id = none) :
    [.begin id (.write batch), .advance id, .advance id].foldl act state =
      { state with storage := state.storage.write batch } := by
  simp only [foldl_cons, foldl_nil]
  rw [act_begin _ fresh, CallStage.first, act_advance get?_moveTo, perform,
    act_advance get?_moveTo, perform]
  have calls : ((state.calls.insert id (.apply batch)).insert id (.update batch)).erase id =
      state.calls := by
    rw [insert_insert, erase_insert_of_fresh _ fresh]
  exact congrArg (ConcurrentStorage.mk _) calls

end ConcurrentStorage

/-! ## Calls in progress -/

def InProgress (calls : OrderedMap Nat CallStage) (cf : Cf) (key : Bytes) : Prop :=
  ∃ call ∈ calls.entries, call.2.Updates cf key

instance decidableInProgress (calls : OrderedMap Nat CallStage) (cf : Cf) (key : Bytes) :
    Decidable (InProgress calls cf key) := by
  unfold InProgress
  infer_instance

section InProgress

variable {calls : OrderedMap Nat CallStage} {id : Nat} {cf : Cf} {key : Bytes}

theorem inProgress_iff :
    InProgress calls cf key ↔
      ∃ id stage, calls.get? id = some stage ∧ stage.Updates cf key := by
  simp only [InProgress, Prod.exists, get?_eq_some_iff]

theorem InProgress.erase (inProgress : InProgress calls cf key)
    (idle : ∀ stage, calls.get? id = some stage → ¬ stage.Updates cf key) :
    InProgress (calls.erase id) cf key := by
  rcases inProgress_iff.mp inProgress with ⟨other, stage, present, updates⟩
  refine inProgress_iff.mpr ⟨other, stage, ?_, updates⟩
  rw [get?_erase_other]
  · exact present
  · rintro rfl
    exact idle stage present updates

theorem InProgress.of_erase (inProgress : InProgress (calls.erase id) cf key) (stage : CallStage) :
    InProgress (calls.insert id stage) cf key := by
  rcases inProgress_iff.mp inProgress with ⟨other, next, present, updates⟩
  refine inProgress_iff.mpr ⟨other, next, ?_, updates⟩
  rw [get?_erase] at present
  split at present
  · cases present
  · rename_i different
    rw [get?_insert_other _ _ different, present]

end InProgress

/-! ## Runs -/

def LeftBy {σ : Type} [Cache σ (List Char) Bytes] (batch : List Modify) (cache : σ)
    (text : List Char) (value : Bytes) : Prop :=
  (∃ modify ∈ batch, cacheKey modify.cf modify.key = text ∧
      (FlatStore.empty.write batch modify.cf).get? modify.key = some value) ∨
    (∀ modify ∈ batch, cacheKey modify.cf modify.key ≠ text) ∧
      Cache.peek cache text = some value

theorem leftBy_of_peek {σ : Type} [Cache σ (List Char) Bytes] [LawfulCache σ] {cache : σ}
    {batch : List Modify} {text : List Char} {value : Bytes}
    (found : Cache.peek (batch.foldl StandaloneStorage.updateCache cache) text = some value) :
    LeftBy batch cache text value := by
  induction batch using List.reverseRecOn with
  | nil => exact .inr ⟨nofun, found⟩
  | append_singleton earlier last induction =>
    have written : ∀ cf key, (FlatStore.empty.write (earlier ++ [last]) cf).get? key =
        if last.Touches cf key then last.value
        else (FlatStore.empty.write earlier cf).get? key := by
      intro cf key
      rw [FlatStore.write_append]
      exact FlatStore.get?_apply _ last cf key
    -- What an earlier modification left at another place is still there.
    have older : text ≠ cacheKey last.cf last.key →
        Cache.peek (earlier.foldl StandaloneStorage.updateCache cache) text = some value →
        LeftBy (earlier ++ [last]) cache text value := by
      intro other kept
      rcases induction kept with ⟨modify, member, same, present⟩ | ⟨untouched, present⟩
      · refine .inl ⟨modify, mem_append_left _ member, same, ?_⟩
        rw [written, if_neg, present]
        intro ⟨sameCf, sameKey⟩
        rw [sameCf, sameKey] at other
        exact other same.symm
      · refine .inr ⟨?_, present⟩
        intro modify member
        rcases mem_append.mp member with inEarlier | isLast
        · exact untouched modify inEarlier
        · rw [mem_singleton.mp isLast]
          exact other.symm
    rw [foldl_append, foldl_cons, foldl_nil, StandaloneStorage.updateCache]
      at found
    split at found
    · rename_i new put
      rcases LawfulCache.peek_put found with ⟨rfl, rfl⟩ | ⟨other, kept⟩
      · refine .inl ⟨last, mem_append_right _ mem_cons_self, rfl, ?_⟩
        rw [written, if_pos ⟨rfl, rfl⟩, put]
      · exact older other kept
    · rcases LawfulCache.peek_pop found with ⟨other, kept⟩
      exact older other kept

namespace ConcurrentStorage

variable {σ : Type} [Cache σ (List Char) Bytes]

def PutsCurrent (db : OrderedMap Bytes Bytes) (others : OrderedMap Nat CallStage) :
    CallStage → Prop
  | .fill cf key value => db.get? (keyWithCf cf key) = some value ∨ InProgress others cf key
  | .update batch =>
    ∀ modify ∈ batch, ∀ value ∈ (FlatStore.empty.write batch modify.cf).get? modify.key,
      db.get? (keyWithCf modify.cf modify.key) = some value ∨
        InProgress others modify.cf modify.key
  | _ => True

instance decidablePutsCurrent (db : OrderedMap Bytes Bytes) (others : OrderedMap Nat CallStage)
    (stage : CallStage) : Decidable (PutsCurrent db others stage) := by
  cases stage <;> unfold PutsCurrent <;> infer_instance

def Current (state : ConcurrentStorage σ) : StorageEvent → Prop
  | .begin _ _ => True
  | .advance id =>
    ∀ stage ∈ state.calls.get? id,
      PutsCurrent state.storage.db (state.calls.erase id) stage

instance decidableCurrent (state : ConcurrentStorage σ) (event : StorageEvent) :
    Decidable (state.Current event) := by
  cases event <;> unfold Current <;> infer_instance

def Accounted (db : OrderedMap Bytes Bytes) (calls : OrderedMap Nat CallStage)
    (text : List Char) (value : Bytes) : Prop :=
  ∃ cf key, validUtf8 key = true ∧ cacheKey cf key = text ∧
    (db.get? (keyWithCf cf key) = some value ∨ InProgress calls cf key)

structure Settling (state : ConcurrentStorage σ) : Prop where
  textual : ∀ id stage, state.calls.get? id = some stage → stage.Textual
  cached : ∀ text value, Cache.peek state.storage.cache text = some value →
    Accounted state.storage.db state.calls text value

variable {state : ConcurrentStorage σ} {id : Nat} {stage : CallStage} {text : List Char}
  {value : Bytes} {db : OrderedMap Bytes Bytes} {batch : List Modify}

def Idle (state : ConcurrentStorage σ) (id : Nat) : Prop :=
  ∀ stage, state.calls.get? id = some stage → ∀ cf key, ¬ stage.Updates cf key

omit [Cache σ (List Char) Bytes] in
theorem idle_of_present (present : state.calls.get? id = some stage)
    (done : ∀ cf key, ¬ stage.Updates cf key) : state.Idle id := by
  intro other same
  rw [present] at same
  rw [← Option.some.inj same]
  exact done

theorem Accounted.insert {calls : OrderedMap Nat CallStage}
    (accounted : Accounted db (calls.erase id) text value) (stage : CallStage) :
    Accounted db (calls.insert id stage) text value := by
  rcases accounted with ⟨cf, key, valid, same, held | inProgress⟩
  · exact ⟨cf, key, valid, same, .inl held⟩
  · exact ⟨cf, key, valid, same, .inr (inProgress.of_erase stage)⟩

variable (settling : state.Settling)

include settling

theorem Settling.finish {cache : σ}
    (cached : ∀ text value, Cache.peek cache text = some value →
      Accounted state.storage.db (state.calls.erase id) text value) :
    ({ state with storage.cache := cache }.finish id).Settling := by
  refine ⟨?_, cached⟩
  intro other stage present
  change (state.calls.erase id).get? other = some stage at present
  rw [get?_erase] at present
  split at present
  · cases present
  · exact settling.textual other stage present

theorem Settling.moveTo (textual : stage.Textual)
    (cached : ∀ text value, Cache.peek state.storage.cache text = some value →
      Accounted db (state.calls.insert id stage) text value) :
    ({ state with storage.db := db }.moveTo id stage).Settling := by
  refine ⟨?_, cached⟩
  intro other next present
  change (state.calls.insert id stage).get? other = some next at present
  rw [get?_insert] at present
  split at present
  · rw [← Option.some.inj present]
    exact textual
  · exact settling.textual other next present

theorem Settling.without (idle : state.Idle id)
    (found : Cache.peek state.storage.cache text = some value) :
    Accounted state.storage.db (state.calls.erase id) text value := by
  rcases settling.cached text value found with ⟨cf, key, valid, same, held | inProgress⟩
  · exact ⟨cf, key, valid, same, .inl held⟩
  · exact ⟨cf, key, valid, same, .inr (inProgress.erase fun stage present =>
      idle stage present cf key)⟩

theorem Settling.still (idle : state.Idle id) :
    (state.finish id).Settling ∧
      ∀ stage : CallStage, stage.Textual → (state.moveTo id stage).Settling :=
  ⟨settling.finish fun _ _ found => settling.without idle found,
    fun stage textual => settling.moveTo textual fun _ _ found =>
      (settling.without idle found).insert stage⟩

variable [LawfulCache σ]

theorem Settling.fill {cf : Cf} {key : Bytes}
    (present : state.calls.get? id = some (.fill cf key value))
    (current : state.Current (.advance id)) : (state.perform id (.fill cf key value)).Settling := by
  refine settling.finish fun text found foundThere => ?_
  rcases LawfulCache.peek_put foundThere with ⟨rfl, rfl⟩ | ⟨_, kept⟩
  · exact ⟨cf, key, settling.textual id _ present, rfl, current _ present⟩
  · exact settling.without (idle_of_present present fun _ _ => not_false) kept

omit [LawfulCache σ] in
theorem Settling.apply (present : state.calls.get? id = some (.apply batch)) :
    (state.perform id (.apply batch)).Settling := by
  have textual := settling.textual id (.apply batch) present
  refine settling.moveTo textual fun text value found => ?_
  rcases settling.without (idle_of_present present fun _ _ => not_false) found with
    ⟨cf, key, valid, same, held⟩
  refine ⟨cf, key, valid, same, ?_⟩
  by_cases touched : ∃ modify ∈ batch, modify.Touches cf key
  · exact .inr (inProgress_iff.mpr
      ⟨id, .update batch, get?_insert_same _ _ _, touched⟩)
  · refine held.imp (fun held => ?_) fun inProgress => inProgress.of_erase _
    rw [get?_foldl_applyEncoded fun modify member touches => touched ⟨modify, member, touches⟩]
    exact held

theorem Settling.update (present : state.calls.get? id = some (.update batch))
    (current : state.Current (.advance id)) : (state.perform id (.update batch)).Settling := by
  refine settling.finish fun text value found => ?_
  rcases leftBy_of_peek found with ⟨modify, member, same, left⟩ | ⟨untouched, kept⟩
  · exact ⟨modify.cf, modify.key, settling.textual id _ present modify member, same,
      current _ present modify member value left⟩
  · rcases settling.cached text value kept with ⟨cf, key, valid, same, held⟩
    refine ⟨cf, key, valid, same, held.imp_right fun inProgress => inProgress.erase ?_⟩
    intro stage isUpdate
    rw [present] at isUpdate
    rw [← Option.some.inj isUpdate]
    intro updates
    rcases updates with ⟨modify, member, rfl, rfl⟩
    exact untouched modify member same

theorem Settling.perform
    (present : state.calls.get? id = some stage) (current : state.Current (.advance id)) :
    (state.perform id stage).Settling := by
  have textual := settling.textual id stage present
  cases stage with
  | peek cf key =>
    have still := settling.still (idle_of_present present fun _ _ => not_false)
    rw [ConcurrentStorage.perform]
    split
    · exact still.1
    · exact still.2 _ textual
  | read cf key =>
    have still := settling.still (idle_of_present present fun _ _ => not_false)
    rw [ConcurrentStorage.perform]
    split
    · exact still.2 _ textual
    · exact still.1
  | fill cf key value => exact settling.fill present current
  | apply batch => exact settling.apply present
  | update batch => exact settling.update present current

theorem Settling.act {event : StorageEvent} (textual : event.Textual)
    (current : state.Current event) : (state.act event).Settling := by
  cases event with
  | begin id call =>
    rw [ConcurrentStorage.act]
    split
    · exact settling
    · rename_i fresh
      have idle : state.Idle id := by
        intro stage present
        rw [fresh] at present
        cases present
      apply (settling.still idle).2
      cases call with
      | write batch => exact textual
      | get cf key => exact textual
  | advance id =>
    rw [ConcurrentStorage.act]
    split
    · rename_i present
      exact settling.perform present current
    · exact settling

end ConcurrentStorage

open ConcurrentStorage in
/-- If values are put into the cache only while they are current, or while a write that changes
them is in progress, the cache agrees with the database whenever no call runs. -/
theorem cached_eq_of_current {σ : Type} [Cache σ (List Char) Bytes] [LawfulCache σ] {cache : σ}
    (isEmpty : ∀ text, Cache.peek cache text = none) {events : List StorageEvent}
    (textual : ∀ event ∈ events, event.Textual)
    (guarded : Guarded act Current (start cache) events) :
    ∀ past, past <+: events → (past.foldl act (start cache)).calls = .empty →
      ∀ text value, Cache.peek (past.foldl act (start cache)).storage.cache text = some value →
        ∃ cf key, validUtf8 key = true ∧ cacheKey cf key = text ∧
          (past.foldl act (start cache)).storage.db.get? (keyWithCf cf key) = some value := by
  intro past isPrefix quiet text value found
  have settling : (past.foldl act (start cache)).Settling := by
    refine (guarded.of_isPrefix isPrefix).induction
      (motive := fun past => (past.foldl act (start cache)).Settling) ⟨nofun, ?_⟩ ?_
    · intro text value found
      exact absurd ((isEmpty text).symm.trans found) nofun
    · intro earlier event isEarlier current settling
      rw [foldl_append]
      refine settling.act (textual event ?_) current
      exact (isEarlier.trans isPrefix).subset (mem_append_right _ mem_cons_self)
  rcases settling.cached text value found with ⟨cf, key, valid, same, held | inProgress⟩
  · exact ⟨cf, key, valid, same, held⟩
  · rw [quiet] at inProgress
    rcases inProgress with ⟨_, member, _⟩
    cases member

def readDuringWrite : List StorageEvent :=
  [.begin 1 (.write [.put [0x61] [1] .default]), .advance 1, .begin 2 (.get .default [0x61]),
    .advance 2, .advance 2, .advance 2, .advance 1]

theorem cached_eq_readDuringWrite :
    ∃ cf key, validUtf8 key = true ∧ cacheKey cf key = cacheKey .default [0x61] ∧
      (readDuringWrite.foldl ConcurrentStorage.act
        (.start (newCache 1000 (by decide)))).storage.db.get? (keyWithCf cf key) = some [1] :=
  cached_eq_of_current (fun _ => rfl) (by decide +kernel) (by decide +kernel) readDuringWrite
    prefix_rfl (by decide +kernel) (cacheKey .default [0x61]) [1] (by decide +kernel)

def lateFill : List StorageEvent :=
  [.begin 1 (.write [.put [0x61] [1] .default]), .advance 1, .begin 2 (.get .default [0x61]),
    .advance 2, .advance 2, .advance 1, .begin 3 (.write [.put [0x61] [2] .default]), .advance 3,
    .advance 3, .advance 2]

theorem late_fill_is_stale :
    ∃ events : List StorageEvent, (∀ event ∈ events, event.Textual) ∧
      (events.foldl ConcurrentStorage.act (.start (newCache 1000 (by decide)))).calls = .empty ∧
      ∃ key value, validUtf8 key = true ∧
        Cache.peek (events.foldl ConcurrentStorage.act
          (.start (newCache 1000 (by decide)))).storage.cache (cacheKey .default key) =
            some value ∧
        (events.foldl ConcurrentStorage.act
          (.start (newCache 1000 (by decide)))).storage.db.get? (keyWithCf .default key) ≠
            some value :=
  ⟨lateFill, by decide +kernel, by decide +kernel, [0x61], [1], by decide +kernel,
    by decide +kernel, by decide +kernel⟩

end AegisDB.Storage

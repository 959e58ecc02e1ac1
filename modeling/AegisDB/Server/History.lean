import AegisDB.Foundation.Transition
import AegisDB.Mvcc.KeyHistory
import AegisDB.Server.Refinement

/-! # Histories of requests

What holds of a store after any sequence of requests, and which requests break it. -/

namespace AegisDB.Server

open Foundation Storage Mvcc

def after (requests : List Request) : FlatStore :=
  requests.foldl Request.step FlatStore.empty

@[simp] theorem after_append_singleton (requests : List Request) (request : Request) :
    after (requests ++ [request]) = request.step (after requests) := by
  simp [after]

/-! ## What a store holds about a key -/

def HoldsRecord (store : FlatStore) (key : Bytes) (ts : UInt64) (write : Write) : Prop :=
  (store .write).get? (encodeKey key ts) = some write.toBytes

instance (store : FlatStore) (key : Bytes) (ts : UInt64) (write : Write) :
    Decidable (HoldsRecord store key ts write) :=
  inferInstanceAs (Decidable (_ = _))

def HoldsCommit (store : FlatStore) (key : Bytes) (startTs commitTs : UInt64) : Prop :=
  ∃ kind, kind ≠ WriteKind.rollback ∧ HoldsRecord store key commitTs { startTs, kind }

def HoldsDecision (store : FlatStore) (key : Bytes) (startTs : UInt64) : Prop :=
  ∃ ts write, HoldsRecord store key ts write ∧ write.startTs = startTs

def HoldsLock (store : FlatStore) (key : Bytes) (startTs : UInt64) : Prop :=
  ∃ lock : Lock, (store .lock).get? key = some lock.toBytes ∧ lock.ts = startTs

section Represented

variable {store : FlatStore} {states : Bytes → KeyState} {key : Bytes}

variable (represents : Represents store states)

include represents

theorem holdsRecord_iff {ts : UInt64} {write : Write} :
    HoldsRecord store key ts write ↔ (states key).record ts = some write := by
  rw [HoldsRecord, represents.records]
  constructor
  · intro present
    rcases Option.map_eq_some_iff.mp present with ⟨other, recorded, equal⟩
    rw [recorded, Write.toBytes_injective equal]
  · intro recorded
    rw [recorded]
    rfl

variable {startTs : UInt64}

theorem holdsCommit_iff {commitTs : UInt64} :
    HoldsCommit store key startTs commitTs ↔ (states key).Committed startTs commitTs := by
  simp only [HoldsCommit, KeyState.Committed, holdsRecord_iff represents]

theorem holdsDecision_iff :
    HoldsDecision store key startTs ↔ (states key).Decided startTs := by
  simp only [HoldsDecision, KeyState.Decided, holdsRecord_iff represents]

theorem holdsLock_iff :
    HoldsLock store key startTs ↔ ∃ lock, (states key).lock = some lock ∧ lock.ts = startTs := by
  simp only [HoldsLock, represents.locks]
  constructor
  · rintro ⟨lock, present, own⟩
    rcases Option.map_eq_some_iff.mp present with ⟨other, locked, equal⟩
    exact ⟨lock, by rw [locked, Lock.toBytes_injective equal], own⟩
  · rintro ⟨lock, locked, own⟩
    exact ⟨lock, by rw [locked]; rfl, own⟩

end Represented

/-! ## Distinct timestamps -/

def Request.commitPair : Request → Option (UInt64 × UInt64)
  | .commit req => some (req.startVersion, req.commitVersion)
  | .resolveLock req =>
    if req.commitVersion > 0 then some (req.startVersion, req.commitVersion) else none
  | _ => none

structure UniqueTimestamps (requests : List Request) : Prop where
  ordered : ∀ request ∈ requests, ∀ pair ∈ request.commitPair, pair.1 < pair.2
  unique : ∀ left ∈ requests, ∀ right ∈ requests, ∀ pair ∈ left.commitPair,
    ∀ other ∈ right.commitPair, (pair.1 = other.1 ↔ pair.2 = other.2)
  separate : ∀ left ∈ requests, ∀ right ∈ requests, ∀ pair ∈ left.commitPair,
    pair.2 ≠ right.startVersion

def uniqueTimestamps (requests : List Request) : Bool :=
  let pairs := requests.filterMap Request.commitPair
  pairs.all (fun pair => pair.1 < pair.2) &&
    pairs.all (fun pair => pairs.all fun other =>
      decide (pair.1 = other.1) == decide (pair.2 = other.2)) &&
    pairs.all (fun pair => requests.all fun request => pair.2 ≠ request.startVersion)

variable {requests : List Request}

theorem uniqueTimestamps_of_check
    (checked : uniqueTimestamps requests = true) : UniqueTimestamps requests := by
  simp only [uniqueTimestamps, Bool.and_eq_true, List.all_eq_true, decide_eq_true_eq,
    beq_iff_eq, decide_eq_decide] at checked
  have listed {request : Request} {pair : UInt64 × UInt64} (member : request ∈ requests)
      (commits : pair ∈ request.commitPair) : pair ∈ requests.filterMap Request.commitPair :=
    List.mem_filterMap.mpr ⟨request, member, commits⟩
  exact
    { ordered := fun request member pair commits => checked.1.1 pair (listed member commits)
      unique := fun left leftMember right rightMember pair commits other otherCommits =>
        checked.1.2 pair (listed leftMember commits) other (listed rightMember otherCommits)
      separate := fun left leftMember right rightMember pair commits =>
        checked.2 pair (listed leftMember commits) right rightMember }

def UniqueTimestamps.timestamps {requests : List Request} (unique : UniqueTimestamps requests) :
    Timestamps where
  Start startTs := ∃ request ∈ requests, request.startVersion = startTs
  Commit startTs commitTs := ∃ request ∈ requests, request.commitPair = some (startTs, commitTs)
  ordered := by
    rintro startTs commitTs ⟨request, member, pair⟩
    exact unique.ordered request member _ pair
  unique := by
    rintro startTs commitTs otherStart otherCommit ⟨left, leftMember, pair⟩
      ⟨right, rightMember, other⟩
    exact unique.unique left leftMember right rightMember _ pair _ other
  separate := by
    rintro startTs commitTs ⟨left, leftMember, pair⟩ ⟨right, rightMember, starts⟩
    exact unique.separate left leftMember right rightMember _ pair starts.symm

variable {store : FlatStore} {key : Bytes}

theorem performs_stamps (unique : UniqueTimestamps requests) {request : Request}
    {action : KeyAction} (member : request ∈ requests)
    (performs : Performs store request key action) :
    unique.timestamps.Stamps action := by
  cases performs with
  | stage _ _ _ => exact ⟨_, member, rfl⟩
  | commit _ => exact ⟨_, member, rfl⟩
  | expire => exact ⟨_, member, rfl⟩
  | mark => exact ⟨_, member, rfl⟩
  | rollback _ _ => exact ⟨_, member, rfl⟩
  | resolveCommit commits => exact ⟨_, member, if_pos commits⟩
  | resolveRollback => exact ⟨_, member, rfl⟩
  | keep => trivial

/-! ## Invariants of every key along a history -/

theorem invariant_after {allowed : FlatStore → Request → Prop} (invariant : KeyState → Prop)
    (guarded : Guarded Request.step allowed FlatStore.empty requests)
    (initial : invariant KeyState.empty)
    (preserved : ∀ (store : FlatStore) (states : Bytes → KeyState) (request : Request) (key : Bytes)
      (action : KeyAction), Represents store states → request ∈ requests →
      allowed store request → Performs store request key action →
      (states key).Enabled action → invariant (states key) →
      invariant ((states key).apply action)) :
    ∃ states, Represents (after requests) states ∧ ∀ key, invariant (states key) := by
  refine guarded.induction
    (motive := fun past => ∃ states, Represents (after past) states ∧ ∀ key, invariant (states key))
    ⟨_, represents_empty, fun _ => initial⟩ ?_
  rintro past request isPrefix isAllowed ⟨states, represents, holds⟩
  rcases request.step_refines represents with ⟨states', represents', acts⟩
  refine ⟨states', by rwa [after_append_singleton], fun key => ?_⟩
  rcases acts key with ⟨action, performs, enabled, equal⟩
  rw [equal]
  exact preserved _ states request key action represents
    (isPrefix.subset (by simp)) isAllowed performs enabled (holds key)

theorem invariant_always (requests : List Request) (invariant : KeyState → Prop)
    (initial : invariant KeyState.empty)
    (preserved : ∀ (store : FlatStore) (state : KeyState) (request : Request) (key : Bytes)
      (action : KeyAction), request ∈ requests → Performs store request key action →
      state.Enabled action → invariant state → invariant (state.apply action)) :
    ∃ states, Represents (after requests) states ∧ ∀ key, invariant (states key) := by
  have guarded : Guarded Request.step (fun _ _ => True) FlatStore.empty requests :=
    guarded_of_forall fun _ _ => trivial
  exact invariant_after invariant guarded initial
    fun store states request key action _ member _ performs enabled holds =>
      preserved store (states key) request key action member performs enabled holds

theorem represents_after (requests : List Request) :
    ∃ states, Represents (after requests) states := by
  rcases invariant_always requests (fun _ => True) trivial
    fun _ _ _ _ _ _ _ _ _ => trivial with ⟨states, represents, _⟩
  exact ⟨states, represents⟩

theorem stamped_after (unique : UniqueTimestamps requests) :
    ∃ states, Represents (after requests) states ∧
      ∀ key, (states key).Stamped unique.timestamps :=
  invariant_always requests _ (KeyState.stamped_empty _)
    fun _ _ _ _ _ member performs enabled stamped =>
      stamped.apply enabled (performs_stamps unique member performs)

/-! ## Small requests for concrete histories -/

def putOne (key value : Bytes) (startVersion : UInt64) : Request :=
  .prewrite
    { mutations := [{ op := .put, key, value }], primaryLock := key, startVersion, lockTtl := 10 }

def commitOne (key : Bytes) (startVersion commitVersion : UInt64) : Request :=
  .commit { startVersion, keys := [key], commitVersion }

theorem eq_of_only_entry {onlyKey : Bytes} {ts onlyTs : UInt64} {write onlyWrite : Write}
    (only : (store .write).entries = [(encodeKey onlyKey onlyTs, onlyWrite.toBytes)])
    (holds : HoldsRecord store key ts write) :
    key = onlyKey ∧ ts = onlyTs ∧ write = onlyWrite := by
  have member := OrderedMap.get?_eq_some_iff.mp holds
  rw [only, List.mem_singleton] at member
  rcases Prod.mk.inj member with ⟨sameKey, sameWrite⟩
  rcases encodeKey_inj.mp sameKey with ⟨rfl, rfl⟩
  exact ⟨rfl, rfl, Write.toBytes_injective sameWrite⟩

end AegisDB.Server

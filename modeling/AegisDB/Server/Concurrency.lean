import AegisDB.Latches
import AegisDB.Server.Refinement

/-! # Concurrent handlers are serializable

Handlers read the live store, one question at a time, while other handlers write. All
they read and write belongs to the keys whose latches they hold. -/

namespace AegisDB.Server

open Foundation Storage Mvcc Reading FlatStore List

/-! ## Handlers as programs -/

def program : Reading (Verdict ρ) → Program FlatStore (Fallible ρ)
  | .done (.reply response) => .done id (.ok response)
  | .done (.write batch response) => .done (fun store => store.write batch) (.ok response)
  | .fail fault => .done id (.error fault)
  | .getCf cf key next => .observe fun store => program (next ((store cf).get? key))
  | .iterCf cf next => .observe fun store => program (next (store cf))

theorem finish_program (handler : Reading (Verdict ρ)) (store : FlatStore) :
    (((program handler).finish store).1 store, ((program handler).finish store).2) =
      serve store handler := by
  induction handler with
  | done verdict => cases verdict <;> rfl
  | fail fault => rfl
  | getCf cf key next induction => exact induction _
  | iterCf cf next induction => exact induction _

/-! ## What belongs to a key -/

def keyPart (store : FlatStore) (key : Bytes) :
    Option Bytes × OrderedMap Bytes Bytes × OrderedMap Bytes Bytes :=
  ((store .lock).get? key, (store .write).restrict (IsVersionOf key),
    (store .default).restrict (IsVersionOf key))

def BatchWithin (keys : List Bytes) (batch : List Modify) : Prop :=
  ∀ modify ∈ batch, ∃ key ∈ keys, EntryOf key modify.cf modify.key

theorem keyPart_write {keys : List Bytes} {batch : List Modify} (within : BatchWithin keys batch)
    (store : FlatStore) {key : Bytes} (other : key ∉ keys) :
    keyPart (store.write batch) key = keyPart store key := by
  have lockSame : (store.write batch .lock).get? key = (store .lock).get? key := by
    apply get?_write_of_untouched
    rintro modify member ⟨sameCf, sameKey⟩
    rcases within modify member with ⟨owner, ownerMember, entry⟩
    rw [sameCf, sameKey] at entry
    rcases entry.eq .lock with rfl
    exact other ownerMember
  have versionsSame (cf : Cf) (notLock : cf ≠ .lock) :
      (store.write batch cf).restrict (IsVersionOf key) =
        (store cf).restrict (IsVersionOf key) := by
    apply OrderedMap.restrict_eq_iff.mpr
    intro encodedKey version
    apply get?_write_of_untouched
    rintro modify member ⟨sameCf, sameKey⟩
    rcases within modify member with ⟨owner, ownerMember, entry⟩
    rw [sameCf, sameKey] at entry
    cases entry with
    | lock => exact notLock rfl
    | record ts => exact other (isVersionOf_encodeKey_iff.mp version ▸ ownerMember)
    | value ts => exact other (isVersionOf_encodeKey_iff.mp version ▸ ownerMember)
  simp only [keyPart, lockSame, versionsSame .write (by simp), versionsSame .default (by simp)]

/-! ## Readings that keep to their keys -/

/-- The computation asks only for the locks and the write records of the keys, and its value
is as described. -/
inductive ReadsWithin (keys : List Bytes) (post : α → Prop) : Reading α → Prop
  | done {value : α} (holds : post value) : ReadsWithin keys post (pure value)
  | getLock {key : Bytes} {next : Option Lock → Reading α} (member : key ∈ keys)
      (rest : ∀ held, ReadsWithin keys post (next held)) :
      ReadsWithin keys post (getLock key >>= next)
  | lookup {key : Bytes} {search : OrderedMap Bytes Bytes → Fallible (Option Write × UInt64)}
      {next : Option (Write × UInt64) → Reading α} (member : key ∈ keys)
      (sees : ∀ left right, left.restrict (IsVersionOf key) = right.restrict (IsVersionOf key) →
        found (search left) = found (search right))
      (rest : ∀ current, ReadsWithin keys post (next current)) :
      ReadsWithin keys post
        (ifFound (Reading.iter .write >>= fun iter => .lift (search iter)) >>= next)

section Within

variable {keys : List Bytes} {key : Bytes}

theorem ReadsWithin.bind {reading : Reading α} {continuation : α → Reading β} {post : α → Prop}
    {finalPost : β → Prop} (within : ReadsWithin keys post reading)
    (continued : ∀ value, post value → ReadsWithin keys finalPost (continuation value)) :
    ReadsWithin keys finalPost (reading >>= continuation) := by
  induction within with
  | done holds => exact continued _ holds
  | getLock member rest induction =>
    rw [bind_bind]
    exact .getLock member induction
  | lookup member sees rest induction =>
    rw [bind_bind]
    exact .lookup member sees induction

variable {post : α → Prop} {txn : MvccTxn} {next : Option (Write × UInt64) → Reading α}

theorem ReadsWithin.currentWrite (member : key ∈ keys)
    (rest : ∀ current, ReadsWithin keys post (next current)) :
    ReadsWithin keys post (ifFound (txn.currentWrite key) >>= next) := by
  refine .lookup member (fun left right same => ?_) rest
  rw [found_currentWriteIn_restrict, same, ← found_currentWriteIn_restrict]

theorem ReadsWithin.mostRecentWrite (member : key ∈ keys)
    (rest : ∀ recent, ReadsWithin keys post (next recent)) :
    ReadsWithin keys post (ifFound (txn.mostRecentWrite key) >>= next) := by
  refine .lookup member (fun left right same => ?_) rest
  rw [mostRecentWriteIn_eq, mostRecentWriteIn_eq, same]

theorem ifFound_iter (search : OrderedMap Bytes Bytes → Fallible (Option Write × UInt64)) :
    ifFound (Reading.iter .write >>= fun iter => .lift (search iter)) =
      .iterCf .write fun entries => Reading.lift (found (search entries)) := by
  change iterCf .write _ = _
  congr 1
  funext entries
  change (Reading.lift (search entries)).attempt.bind _ = _
  rcases search entries with (_ | _) | ⟨_ | _, _⟩ <;> rfl

theorem readsWithin_foldlM (post : α → Prop) {round : α → β → Reading α} {elements : List β}
    (kept : ∀ element ∈ elements, ∀ progress, post progress →
      ReadsWithin keys post (round progress element))
    {start : α} (holds : post start) : ReadsWithin keys post (elements.foldlM round start) := by
  induction elements generalizing start with
  | nil => exact .done holds
  | cons head rest induction =>
    rw [foldlM_cons]
    refine (kept head mem_cons_self start holds).bind fun progress progressHolds => ?_
    exact induction (fun element member => kept element (mem_cons_of_mem _ member))
      progressHolds

theorem confined_program {handler : Reading (Verdict ρ)}
    (within : ReadsWithin keys (fun verdict => ∀ batch response,
      verdict = .write batch response → BatchWithin keys batch) handler) :
    (program handler).Confined keyPart (· ∈ keys) := by
  induction within with
  | @done verdict holds =>
    cases verdict with
    | reply response => exact .done fun _ _ _ => rfl
    | write batch response =>
      exact .done fun store key other => keyPart_write (holds batch response rfl) store other
  | @getLock key next member rest induction =>
    refine .observe (fun left right agree => ?_) fun store => ?_
    · have same := congrArg Prod.fst (agree _ member)
      change (left .lock).get? _ = (right .lock).get? _ at same
      rw [same]
    · cases (store .lock).get? key with
      | none => exact induction none
      | some value =>
        change (program ((Reading.lift (parseStoredLock value) >>= _) >>= next)).Confined _ _
        cases parseStoredLock value with
        | error fault => exact .done fun _ _ _ => rfl
        | ok lock => exact induction (some lock)
  | @lookup key search next member sees rest induction =>
    rw [ifFound_iter]
    refine .observe (fun left right agree => ?_) fun store => ?_
    · have same := congrArg (fun part => part.2.1) (agree _ member)
      simp only [sees _ _ same]
    · change (program (Reading.lift (found (search (store .write))) >>= next)).Confined _ _
      cases found (search (store .write)) with
      | error fault => exact .done fun _ _ _ => rfl
      | ok current => exact induction current

end Within

/-! ## The handlers keep to their keys -/

section Handlers

variable {keys : List Bytes} {key : Bytes} {txn : MvccTxn}

theorem batchWithin_push (within : BatchWithin keys txn.writes) (member : key ∈ keys)
    {modify : Modify} (entry : EntryOf key modify.cf modify.key) :
    BatchWithin keys (txn.push modify).writes := by
  intro other otherMember
  rcases mem_append.mp otherMember with before | last
  · exact within other before
  · rcases mem_singleton.mp last with rfl
    exact ⟨key, member, entry⟩

theorem batchWithin_new (startTs : UInt64) : BatchWithin keys (MvccTxn.new startTs).writes := by
  simp [BatchWithin, MvccTxn.new]

theorem batchWithin_rollback (within : BatchWithin keys txn.writes) (member : key ∈ keys)
    (startTs : UInt64) :
    BatchWithin keys ((txn.putWrite key startTs (rollbackWrite startTs)).deleteValue key).writes :=
  batchWithin_push (batchWithin_push within member (.record _)) member (.value _)

def VerdictWithin (keys : List Bytes) (verdict : Verdict ρ) : Prop :=
  ∀ batch response, verdict = .write batch response → BatchWithin keys batch

theorem verdictWithin_reply (response : ρ) : VerdictWithin keys (.reply response) := by
  rintro batch other ⟨⟩

theorem verdictWithin_write {batch : List Modify} (within : BatchWithin keys batch)
    (response : ρ) : VerdictWithin keys (.write batch response) := by
  rintro _ _ ⟨⟩
  exact within

theorem prewriteMutation_within {req : PrewriteRequest} {mutation : Mutation}
    (member : mutation.key ∈ keys) (errors : List KeyError) (within : BatchWithin keys txn.writes) :
    ReadsWithin keys (fun progress => BatchWithin keys progress.1.writes)
      (prewriteMutation req (txn, errors) mutation) := by
  have staged : BatchWithin keys (stageMutation req txn errors mutation).1.writes := by
    rw [stageMutation]
    split
    · exact batchWithin_push (batchWithin_push within member (.value _)) member .lock
    · exact batchWithin_push (batchWithin_push within member (.value _)) member .lock
    · exact within
  have unlocked : ReadsWithin keys (fun progress => BatchWithin keys progress.1.writes)
      (prewriteUnlocked req txn errors mutation) := by
    refine .mostRecentWrite member fun current => ?_
    split
    · split
      · exact .done within
      · exact .done staged
    · exact .done staged
  refine .getLock member fun held => ?_
  split
  · split
    · exact .done within
    · exact unlocked
  · exact unlocked

theorem kvPrewrite_within (req : PrewriteRequest) :
    ReadsWithin (req.mutations.map Mutation.key) (VerdictWithin (req.mutations.map Mutation.key))
      (kvPrewrite req) := by
  refine (readsWithin_foldlM
    (fun progress => BatchWithin (req.mutations.map Mutation.key) progress.1.writes) ?_
    (batchWithin_new req.startVersion)).bind ?_
  · rintro mutation mutated ⟨txn, errors⟩ within
    exact prewriteMutation_within (mem_map_of_mem mutated) errors within
  · rintro ⟨txn, errors⟩ within
    dsimp only
    split
    · exact .done (verdictWithin_write within _)
    · exact .done (verdictWithin_reply _)

variable {listed : List Bytes}

theorem checkKeysLocked_within (req : CommitRequest) (subset : ∀ key ∈ listed, key ∈ keys) :
    ReadsWithin keys (fun _ => True) (checkKeysLocked req listed) := by
  induction listed with
  | nil => exact .done trivial
  | cons key rest induction =>
    have member := subset key mem_cons_self
    have checked : ReadsWithin keys (fun _ => True) (checkKeyLocked req key) := by
      refine .getLock member fun held => ?_
      split
      · split <;> exact .done trivial
      · refine .currentWrite member fun current => ?_
        split
        · split <;> exact .done trivial
        · exact .done trivial
    refine checked.bind fun error _ => ?_
    split
    · exact .done trivial
    · exact induction fun other otherMember => subset other (mem_cons_of_mem _ otherMember)

theorem kvCommit_within (req : CommitRequest) :
    ReadsWithin req.keys (VerdictWithin req.keys) (kvCommit req) := by
  refine (checkKeysLocked_within req fun _ member => member).bind fun error _ => ?_
  split
  · exact .done (verdictWithin_reply _)
  · refine (readsWithin_foldlM (fun txn => BatchWithin req.keys txn.writes) ?_
      (batchWithin_new req.startVersion)).bind fun txn within =>
        .done (verdictWithin_write within _)
    intro key member txn within
    refine .getLock member fun held => ?_
    split
    · split
      · exact .done (batchWithin_push (batchWithin_push within member (.record _)) member .lock)
      · exact .done within
    · exact .done within

theorem kvCheckTxnStatus_within (req : CheckTxnStatusRequest) :
    ReadsWithin [req.primaryKey] (VerdictWithin [req.primaryKey]) (kvCheckTxnStatus req) := by
  have member : req.primaryKey ∈ [req.primaryKey] := mem_singleton_self _
  have fresh : BatchWithin [req.primaryKey] (MvccTxn.new req.lockTs).writes := batchWithin_new _
  refine .getLock member fun held => ?_
  split
  · split
    · exact .done (verdictWithin_reply _)
    · split
      · exact .done (verdictWithin_write
          (batchWithin_rollback (batchWithin_push fresh member .lock) member req.lockTs) _)
      · exact .done (verdictWithin_reply _)
  · have marked : BatchWithin [req.primaryKey] ((MvccTxn.new req.lockTs).putWrite req.primaryKey
        req.lockTs (rollbackWrite req.lockTs)).writes :=
      batchWithin_push fresh member (.record _)
    refine .currentWrite member fun current => ?_
    split
    · split
      · exact .done (verdictWithin_reply _)
      · exact .done (verdictWithin_write marked _)
    · exact .done (verdictWithin_write marked _)

theorem rollbackKey_within (req : BatchRollbackRequest) (member : key ∈ keys)
    (within : BatchWithin keys txn.writes) :
    ReadsWithin keys (fun round => ∀ txn', round = .ok txn' → BatchWithin keys txn'.writes)
      (rollbackKey req txn key) := by
  have uncommitted {txn : MvccTxn} (within : BatchWithin keys txn.writes) :
      ReadsWithin keys (fun round => ∀ txn', round = .ok txn' → BatchWithin keys txn'.writes)
        (rollbackUncommitted req txn key) := by
    have rolledBack := batchWithin_rollback within member req.startVersion
    refine .currentWrite member fun current => ?_
    split
    · split
      · exact .done (by rintro _ ⟨⟩)
      · exact .done (by rintro _ ⟨⟩; exact rolledBack)
    · exact .done (by rintro _ ⟨⟩; exact rolledBack)
  refine .getLock member fun held => ?_
  split
  · split
    · exact .done (by rintro _ ⟨⟩)
    · exact uncommitted (batchWithin_push within member .lock)
  · exact uncommitted within

theorem rollbackKeys_within (req : BatchRollbackRequest)
    (subset : ∀ key ∈ listed, key ∈ keys) (within : BatchWithin keys txn.writes) :
    ReadsWithin keys (fun round => ∀ txn', round = .ok txn' → BatchWithin keys txn'.writes)
      (rollbackKeys req listed txn) := by
  induction listed generalizing txn with
  | nil => exact .done (by rintro _ ⟨⟩; exact within)
  | cons key rest induction =>
    rw [rollbackKeys]
    refine (rollbackKey_within req (subset key mem_cons_self) within).bind
      fun round holds => ?_
    split
    · exact .done (by rintro _ ⟨⟩)
    · exact induction (fun other member => subset other (mem_cons_of_mem _ member))
        (holds _ rfl)

theorem kvBatchRollback_within (req : BatchRollbackRequest) :
    ReadsWithin req.keys (VerdictWithin req.keys) (kvBatchRollback req) := by
  refine (rollbackKeys_within req (fun _ member => member)
    (batchWithin_new req.startVersion)).bind fun round holds => ?_
  split
  · exact .done (verdictWithin_reply _)
  · exact .done (verdictWithin_write (holds _ rfl) _)

end Handlers

/-! ## Concurrent requests -/

inductive LatchedRequest where
  | prewrite (req : PrewriteRequest)
  | commit (req : CommitRequest)
  | checkTxnStatus (req : CheckTxnStatusRequest)
  | batchRollback (req : BatchRollbackRequest)

namespace LatchedRequest

def request : LatchedRequest → Request
  | .prewrite req => .prewrite req
  | .commit req => .commit req
  | .checkTxnStatus req => .checkTxnStatus req
  | .batchRollback req => .batchRollback req

def latchKeys : LatchedRequest → List Bytes
  | .prewrite req => req.mutations.map Mutation.key
  | .commit req => req.keys
  | .checkTxnStatus req => [req.primaryKey]
  | .batchRollback req => req.keys

theorem handler_within (latched : LatchedRequest) :
    ReadsWithin latched.latchKeys (VerdictWithin latched.latchKeys) latched.request.handler := by
  have mapped {ρ : Type} {handler : Reading (Verdict ρ)} {keys : List Bytes}
      {function : ρ → Response} (within : ReadsWithin keys (VerdictWithin keys) handler) :
      ReadsWithin keys (VerdictWithin keys) (do return (← handler).map function) := by
    refine within.bind fun verdict holds => .done ?_
    intro batch response isWrite
    rcases map_eq_write isWrite with ⟨inner, rfl, _⟩
    exact holds batch inner rfl
  cases latched with
  | prewrite req => exact mapped (kvPrewrite_within req)
  | commit req => exact mapped (kvCommit_within req)
  | checkTxnStatus req => exact mapped (kvCheckTxnStatus_within req)
  | batchRollback req => exact mapped (kvBatchRollback_within req)

end LatchedRequest

def workload (requests : Fin n → LatchedRequest) :
    Workload FlatStore (Latches (Fin n)) Bytes
      (Option Bytes × OrderedMap Bytes Bytes × OrderedMap Bytes Bytes) (Fallible Response)
      (Fin n) where
  latches := Latches.table
  part := keyPart
  keys handler := (requests handler).latchKeys
  program handler := program (requests handler).request.handler
  releases outcome := outcome.isOk
  confined handler := confined_program (requests handler).handler_within

def arrived (store : FlatStore) :
    Configuration FlatStore (Latches (Fin n)) (Fallible Response) (Fin n) :=
  { store, table := Latches.new, phase := fun _ => .waiting }

def servedInOrder (requests : Fin n → LatchedRequest) (store : FlatStore) (order : List (Fin n)) :
    FlatStore :=
  order.foldl (fun store handler => (requests handler).request.step store) store

theorem serially_workload (requests : Fin n → LatchedRequest) (store : FlatStore)
    (order : List (Fin n)) :
    (workload requests).serially store order = servedInOrder requests store order := by
  have single :
      (fun store handler => (((workload requests).program handler).finish store).1 store) =
      fun store handler => (requests handler).request.step store := by
    funext store handler
    exact congrArg Prod.fst (finish_program _ store)
  rw [Workload.serially, single, servedInOrder]

/-- Every interleaving of concurrent handlers that runs all of them to their end leaves
the store and gives the responses of some order of the requests. -/
theorem requests_serializable {n : Nat} (requests : Fin n → LatchedRequest) (store : FlatStore)
    (schedule : List (Fin n)) (completed : ∀ handler, ∃ outcome,
      (schedule.foldl (workload requests).step (arrived store)).phase handler = .finished outcome) :
    ∃ order : List (Fin n), order.Nodup ∧ (∀ handler, handler ∈ order) ∧
      (schedule.foldl (workload requests).step (arrived store)).store =
        servedInOrder requests store order ∧
      ∀ before handler after, order = before ++ handler :: after →
        (schedule.foldl (workload requests).step (arrived store)).phase handler =
          .finished (serve (servedInOrder requests store before)
            (requests handler).request.handler).2 := by
  rcases (workload requests).serializable store Latches.new schedule completed with
    ⟨order, nodup, complete, sameStore, outcomes⟩
  refine ⟨order, nodup, complete, ?_, ?_⟩
  · rw [← serially_workload]
    exact sameStore
  · intro before handler after split
    have ended := outcomes before handler after split
    rw [serially_workload] at ended
    rw [← finish_program]
    exact ended

def prewriteOne (key : Bytes) (startVersion : UInt64) : LatchedRequest :=
  .prewrite
    { mutations := [{ op := .put, key, value := [7] }], primaryLock := key, startVersion,
      lockTtl := 10 }

def threePrewrites : Fin 3 → LatchedRequest
  | 0 => prewriteOne [1] 1
  | 1 => prewriteOne [2] 2
  | 2 => prewriteOne [1] 3

/-- The three prewrites step by step in turn: the last waits for the latch of the first
and then finds its lock. -/
theorem threePrewrites_serializable :
    ∃ order : List (Fin 3), order.Nodup ∧ (∀ handler, handler ∈ order) ∧
      ((List.replicate 9 [0, 1, 2]).flatten.foldl (workload threePrewrites).step
          (arrived FlatStore.empty)).store =
        servedInOrder threePrewrites FlatStore.empty order ∧
      ∀ before handler after, order = before ++ handler :: after →
        ((List.replicate 9 [0, 1, 2]).flatten.foldl (workload threePrewrites).step
            (arrived FlatStore.empty)).phase handler =
          .finished (serve (servedInOrder threePrewrites FlatStore.empty before)
            (threePrewrites handler).request.handler).2 := by
  apply requests_serializable
  have ended : ∀ handler, (((List.replicate 9 [0, 1, 2]).flatten.foldl
      (workload threePrewrites).step (arrived FlatStore.empty)).phase handler).isFinished =
        true := by
    decide +kernel
  exact fun handler => Phase.isFinished_iff.mp (ended handler)

end AegisDB.Server

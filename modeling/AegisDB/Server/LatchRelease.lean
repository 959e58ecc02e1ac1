import AegisDB.Server.Concurrency
import AegisDB.Server.LatchedHandlers
import AegisDB.Server.Resolution

/-! # When latches are given back

A handler that returns gives its latches back unless it leaves by `?`. That takes a call of
the storage that fails, or a lock in the store that cannot be read. -/

namespace AegisDB.Server

open Foundation Storage Mvcc Handling Reading Request List

/-! ## Calls of the storage -/

/-- None of the next calls of the storage fails. -/
def Calm (faults : List (Option String)) (calls : Nat) : Prop :=
  ∀ fault ∈ faults.take calls, fault = none

theorem calm_add {faults : List (Option String)} {first second : Nat} :
    Calm faults (first + second) ↔ Calm faults first ∧ Calm (faults.drop first) second := by
  simp only [Calm, take_add, mem_append]
  constructor
  · intro all
    exact ⟨fun fault member => all fault (.inl member), fun fault member => all fault (.inr member)⟩
  · intro both fault member
    exact member.elim (both.1 fault) (both.2 fault)

section Spending

variable {ν : Type} {handling : Handling ν α} {next : α → Handling ν β} {world : World ν}
  {first second : Nat}

theorem Handling.act_bind_of_ok {between : World ν} {value : α}
    (done : handling.act world = some (.ok value, between)) :
    (handling >>= next).act world = (next value).act between := by
  rw [act, ExceptT.run_bind, StateT.run_bind]
  change (handling.act world >>= _) = _
  rw [done]
  rfl

theorem Handling.act_bind_of_error {between : World ν} {fault : Fault}
    (failed : handling.act world = some (.error fault, between)) :
    (handling >>= next).act world = some (.error fault, between) := by
  rw [act, ExceptT.run_bind, StateT.run_bind]
  change (handling.act world >>= _) = _
  rw [failed]
  rfl

/-- The computation makes so many calls of the storage. It ends as described, unless one of
them fails, and leaves the store and the latches alone. -/
inductive Spends (handling : Handling ν α) (world : World ν) (calls : Nat)
    (outcome : Fallible α) : Prop
  | ended (calm : Calm world.faults calls) (acts : handling.act world =
      some (outcome, { world with faults := world.faults.drop calls }))
  | stopped (disturbed : ¬ Calm world.faults calls) (message : String) (after : World ν)
      (acts : handling.act world = some (.error (.error message), after))
      (kept : after.latches = world.latches)

namespace Spends

variable {value : α} {fault : Fault} {outcome : Fallible β}

theorem bind_ok (done : Spends handling world first (.ok value))
    (rest : Spends (next value) { world with faults := world.faults.drop first } second outcome) :
    Spends (handling >>= next) world (first + second) outcome := by
  cases done with
  | stopped disturbed message after acts kept =>
    exact .stopped (fun calm => disturbed (calm_add.mp calm).1) message after
      (act_bind_of_error acts) kept
  | ended calm acts =>
    cases rest with
    | stopped disturbed message after continued kept =>
      exact .stopped (fun calm => disturbed (calm_add.mp calm).2) message after
        ((act_bind_of_ok acts).trans continued) kept
    | ended calm' continued =>
      refine .ended (calm_add.mpr ⟨calm, calm'⟩) ?_
      rw [act_bind_of_ok acts, continued, drop_drop]

theorem storageCall : Spends storageCall world 1 (.ok ()) := by
  rcases world with ⟨store, latches, _ | ⟨_ | message, rest⟩⟩
  · exact .ended (by simp [Calm]) rfl
  · exact .ended (by simp [Calm]) rfl
  · exact .stopped (by simp [Calm]) message _ rfl rfl

end Spends

/-- The keys that a computation asks the reader for. -/
def asked (store : FlatStore) : Reading α → List Bytes
  | .done _ => []
  | .fail _ => []
  | .getCf cf key next => key :: asked store (next ((store cf).get? key))
  | .iterCf cf next => asked store (next (store cf))

theorem Spends.perform (reading : Reading α) :
    Spends (perform reading) world (asked world.store reading).length
      (reading.run world.store) := by
  have column (world : World ν) (cf : Cf) : Spends (column cf) world 0 (.ok (world.store cf)) :=
    .ended (by simp [Calm]) rfl
  induction reading generalizing world with
  | done value => exact .ended (by simp [Calm, asked]) rfl
  | fail fault => exact .ended (by simp [Calm, asked]) rfl
  | getCf cf key next induction =>
    rw [asked, length_cons, Nat.add_comm]
    refine Spends.storageCall.bind_ok ?_
    rw [← Nat.zero_add (List.length _)]
    exact (column _ cf).bind_ok (induction _)
  | iterCf cf next induction =>
    rw [asked, ← Nat.zero_add (List.length _)]
    exact (column _ cf).bind_ok (induction _)

end Spending

/-! ## Locks that cannot be read -/

/-- The lock on the key, if there is one, can be read. -/
def Legible (store : FlatStore) (key : Bytes) : Prop := ∃ held, lockOn store key = .ok held

/-- Unless it panics, the computation fails exactly if it asks for a lock that cannot be
read. -/
structure Honest (store : FlatStore) (reading : Reading α) : Prop where
  answers : ∀ value, reading.run store = .ok value → ∀ key ∈ asked store reading, Legible store key
  fails : ∀ message, reading.run store = .error (.error message) →
    ∃ key ∈ asked store reading, ¬ Legible store key

section Asking

variable {store : FlatStore} {reading : Reading α} {next : α → Reading β}

theorem asked_bind_of_ok {value : α} (ran : reading.run store = .ok value) :
    asked store (reading >>= next) = asked store reading ++ asked store (next value) := by
  change asked store (reading.bind next) = _
  induction reading with
  | done value =>
    cases ran
    rfl
  | fail fault => cases ran
  | getCf cf key rest induction => exact congrArg (key :: ·) (induction _ ran)
  | iterCf cf rest induction => exact induction _ ran

theorem asked_bind_of_error {fault : Fault} (ran : reading.run store = .error fault) :
    asked store (reading >>= next) = asked store reading := by
  change asked store (reading.bind next) = _
  induction reading with
  | done value => cases ran
  | fail fault => rfl
  | getCf cf key rest induction => exact congrArg (key :: ·) (induction _ ran)
  | iterCf cf rest induction => exact induction _ ran

theorem honest_of_asked_nil (nothing : asked store reading = [])
    (never : ∀ message, reading.run store ≠ .error (.error message)) : Honest store reading where
  answers _ _ key member := by
    rw [nothing] at member
    cases member
  fails message failed := absurd failed (never message)

theorem Honest.bind (first : Honest store reading) (rest : ∀ value, Honest store (next value)) :
    Honest store (reading >>= next) := by
  cases ran : reading.run store with
  | error fault =>
    have stops : (reading >>= next).run store = .error fault := by
      rw [run_bind, ran]
      rfl
    refine ⟨by simp [stops], ?_⟩
    intro message failed
    cases stops.symm.trans failed
    rw [asked_bind_of_error ran]
    exact first.fails message ran
  | ok value =>
    have goesOn : (reading >>= next).run store = (next value).run store := by
      rw [run_bind, ran]
      rfl
    constructor
    · intro result returned key member
      rw [asked_bind_of_ok ran, mem_append] at member
      exact member.elim (first.answers value ran key)
        ((rest value).answers result (goesOn.symm.trans returned) key)
    · intro message failed
      rcases (rest value).fails message (goesOn.symm.trans failed) with ⟨key, member, illegible⟩
      rw [asked_bind_of_ok ran]
      exact ⟨key, mem_append_right _ member, illegible⟩

theorem honest_getLock (key : Bytes) : Honest store (getLock key) := by
  have asks : asked store (getLock key) = [key] := by
    rw [getLock, asked_bind_of_ok (run_get .lock key)]
    cases (store .lock).get? key with
    | none => rfl
    | some value =>
      change key :: asked store (Reading.lift _ >>= _) = _
      cases parsed : parseStoredLock value <;> rfl
  constructor
  · intro held ran other member
    rw [asks, mem_singleton] at member
    rw [run_getLock] at ran
    rw [member]
    exact ⟨held, ran⟩
  · intro message ran
    rw [run_getLock] at ran
    refine ⟨key, by simp [asks], ?_⟩
    intro legible
    rcases legible with ⟨held, read⟩
    cases read.symm.trans ran

theorem honest_lookup (search : OrderedMap Bytes Bytes → Fallible (Option Write × UInt64)) :
    Honest store (ifFound (Reading.iter .write >>= fun iter => .lift (search iter))) := by
  rw [ifFound_iter]
  apply honest_of_asked_nil
  · change asked store (Reading.lift (found (search (store .write)))) = []
    cases found (search (store .write)) <;> rfl
  · intro message
    change (Reading.lift (found (search (store .write)))).run store ≠ _
    rw [run_lift]
    rcases search (store .write) with (_ | _) | ⟨_ | _, _⟩ <;> nofun

theorem ReadsWithin.honest {keys : List Bytes} {post : α → Prop}
    (within : ReadsWithin keys post reading) : Honest store reading := by
  induction within with
  | done holds => exact honest_of_asked_nil rfl nofun
  | getLock member rest induction => exact (honest_getLock _).bind induction
  | lookup member sees rest induction => exact (honest_lookup _).bind induction

end Asking

/-! ## Requests -/

def Verdict.calls : Verdict ρ → Nat
  | .reply _ => 0
  | .write _ _ => 1

/-- The calls of the storage that a handler makes on the store: one for every lock it asks
for, and one for its batch. -/
def calls (store : FlatStore) (handler : Reading (Verdict ρ)) : Nat :=
  (asked store handler).length + match handler.run store with
    | .ok verdict => verdict.calls
    | .error _ => 0

/-- Every lock that the handler asks for can be read, and no call of the storage fails: not
those that open its readers, nor one of its own. -/
def Spared (store : FlatStore) (faults : List (Option String)) (readers : Nat)
    (handler : Reading (Verdict ρ)) : Prop :=
  Calm faults (readers + calls store handler) ∧ ∀ key ∈ asked store handler, Legible store key

section Sparing

variable {store : FlatStore} {faults : List (Option String)} {readers : Nat}
  {handler : Reading (Verdict ρ)}

theorem spared_two (opens : Calm faults 1) :
    Spared store faults 2 handler ↔ Spared store (faults.drop 1) 1 handler := by
  have oneFirst : 2 + calls store handler = 1 + (1 + calls store handler) := by omega
  rw [Spared, Spared, oneFirst, calm_add, and_iff_right opens]

theorem spared_bind {reading : Reading α} {next : α → Reading (Verdict ρ)} {value : α}
    (nothing : asked store reading = []) (ran : reading.run store = .ok value) :
    Spared store faults readers (reading >>= next) ↔ Spared store faults readers (next value) := by
  have goesOn : (reading >>= next).run store = (next value).run store := by
    rw [run_bind, ran]
    rfl
  rw [Spared, Spared, calls, calls, goesOn, asked_bind_of_ok ran, nothing, nil_append]

end Sparing

/-- The keys that the request latches. -/
def Request.latchKeys (store : FlatStore) : Request → List Bytes
  | .prewrite req => req.mutations.map Mutation.key
  | .commit req => req.keys
  | .checkTxnStatus req => [req.primaryKey]
  | .batchRollback req => req.keys
  | .resolveLock req => lockedBy req.startVersion (store .lock).entries

/-- The readers that the request opens. `kv_resolve_lock` opens one for its search. -/
def Request.readers : Request → Nat
  | .resolveLock _ => 2
  | _ => 1

/-- The request names no keys, or it is a `kv_resolve_lock` whose search fails or finds none. -/
def Request.TakesNone (store : FlatStore) (faults : List (Option String)) (request : Request) :
    Prop :=
  request.latchKeys store = [] ∨ request.readers = 2 ∧ ¬ Calm faults 1

section Restoring

variable {ν : Type} {notify : ν} {keys : List Bytes} {world after : World ν}

theorem tryLatches_of_act {next : Handling ν α} {outcome : Fallible α × World ν}
    (ran : (waitForLatches notify keys >>= fun _ => next).act world = some outcome) :
    ∃ taken, world.latches.tryLatches notify keys = some taken ∧
      next.act { world with latches := taken } = some outcome := by
  rw [act, ExceptT.run_bind, StateT.run_bind] at ran
  change (Option.map _ (Option.map _ (world.latches.tryLatches notify keys)) >>= _) = _ at ran
  cases acquired : world.latches.tryLatches notify keys with
  | some taken =>
    rw [acquired] at ran
    exact ⟨taken, rfl, ran⟩
  | none =>
    rw [acquired] at ran
    cases ran

theorem latches_settle {verdict : Verdict ρ} {result : Fallible ρ}
    (ran : (settle keys verdict).act world = some (result, after)) :
    Calm world.faults verdict.calls ∧ after.latches = (world.latches.releaseLatches keys).2 ∨
      ¬ Calm world.faults verdict.calls ∧ after.latches = world.latches := by
  cases verdict with
  | reply response =>
    cases ran
    exact .inl ⟨by simp [Calm, Verdict.calls], rfl⟩
  | write batch response =>
    rw [settle, write, bind_assoc] at ran
    have call : Spends storageCall world 1 (.ok ()) := .storageCall
    cases call with
    | ended calm acts =>
      rw [act_bind_of_ok acts] at ran
      cases ran
      exact .inl ⟨calm, rfl⟩
    | stopped disturbed message final acts kept =>
      cases (act_bind_of_error acts).symm.trans ran
      exact .inr ⟨disturbed, kept⟩

theorem latches_underLatches {handler : Reading (Verdict ρ)} {result : Fallible ρ}
    (honest : Honest world.store handler)
    (ran : (underLatches notify keys handler).act world = some (result, after))
    (returned : ∀ message, result ≠ .error (.panic message)) :
    after.latches = world.latches ↔ keys = [] ∨ Spared world.store world.faults 1 handler := by
  rcases tryLatches_of_act ran with ⟨taken, acquired, held⟩
  rw [← bind_assoc] at held
  have leaves (kept : after.latches = taken)
      (spoiled : ¬ Spared world.store world.faults 1 handler) :
      after.latches = world.latches ↔ keys = [] ∨ Spared world.store world.faults 1 handler := by
    rw [kept, Latches.eq_iff_of_tryLatches acquired, or_iff_left spoiled]
  have reads : Spends (openReader >>= fun _ => perform handler) { world with latches := taken }
      (1 + (asked world.store handler).length) (handler.run world.store) :=
    Spends.storageCall.bind_ok (.perform handler)
  cases reads with
  | stopped disturbed message final acts kept =>
    cases (act_bind_of_error acts).symm.trans held
    refine leaves kept fun spared => disturbed ?_
    rw [Spared, calls, ← Nat.add_assoc, calm_add] at spared
    exact spared.1.1
  | ended calm acts =>
    cases outcome : handler.run world.store with
    | error fault =>
      rw [outcome] at acts
      cases (act_bind_of_error acts).symm.trans held
      cases fault with
      | panic message => exact absurd rfl (returned message)
      | error message =>
        rcases honest.fails message outcome with ⟨key, member, illegible⟩
        exact leaves rfl fun spared => illegible (spared.2 key member)
    | ok verdict =>
      rw [outcome] at acts
      rw [act_bind_of_ok acts] at held
      have spared : Spared world.store world.faults 1 handler ↔
          Calm (world.faults.drop (1 + (asked world.store handler).length)) verdict.calls := by
        rw [Spared, calls, outcome, ← Nat.add_assoc, calm_add,
          and_iff_left (honest.answers verdict outcome), and_iff_right (by exact calm)]
      rcases latches_settle held with ⟨settled, released⟩ | ⟨disturbed, kept⟩
      · rw [released, Latches.releaseLatches_of_tryLatches acquired]
        exact iff_of_true rfl (.inr (spared.mpr settled))
      · exact leaves kept fun given => disturbed (spared.mp given)

theorem underLatches_map (handler : Reading (Verdict ρ)) (function : ρ → ρ') :
    (do return function (← underLatches notify keys handler)) =
      underLatches notify keys (do return (← handler).map function) := by
  have settled (verdict : Verdict ρ) : settle keys (verdict.map function) =
      (do return function (← settle keys verdict) : Handling ν ρ') := by
    cases verdict <;> simp [settle, Verdict.map]
  simp only [underLatches, perform_bind, perform_pure, bind_assoc, pure_bind, settled]

theorem latched_eq {request : Request} (one : request.readers = 1) (store : FlatStore) :
    request.latched notify =
      underLatches notify (request.latchKeys store) request.handler := by
  cases request with
  | prewrite req =>
    rw [latched, kvPrewriteLatched_eq, underLatches_map]
    rfl
  | commit req =>
    rw [latched, kvCommitLatched_eq, underLatches_map]
    rfl
  | checkTxnStatus req =>
    rw [latched, kvCheckTxnStatusLatched_eq, underLatches_map]
    rfl
  | batchRollback req =>
    rw [latched, kvBatchRollbackLatched_eq, underLatches_map]
    rfl
  | resolveLock req => cases one

theorem honest_handler {store : FlatStore} {request : Request} (one : request.readers = 1) :
    Honest store request.handler := by
  cases request with
  | prewrite req => exact (LatchedRequest.prewrite req).handler_within.honest
  | commit req => exact (LatchedRequest.commit req).handler_within.honest
  | checkTxnStatus req => exact (LatchedRequest.checkTxnStatus req).handler_within.honest
  | batchRollback req => exact (LatchedRequest.batchRollback req).handler_within.honest
  | resolveLock req => cases one

theorem resolveKeys_within (req : ResolveLockRequest) (keys : List Bytes) :
    ReadsWithin keys (fun _ => True) (resolveKeys req keys) := by
  rw [resolveKeys]
  split
  · exact .done trivial
  · refine (readsWithin_foldlM (fun _ => True) ?_ trivial).bind fun _ _ => .done trivial
    intro key member txn _
    split
    · refine .getLock member fun held => ?_
      split
      · split <;> exact .done trivial
      · exact .done trivial
    · refine .getLock member fun held => ?_
      split
      · split <;> exact .done trivial
      · exact .done trivial

theorem latches_resolveLock {req : ResolveLockRequest} {result : Fallible Response}
    (ran : ((resolveLock req).latched notify).act world = some (result, after))
    (returned : ∀ message, result ≠ .error (.panic message)) :
    after.latches = world.latches ↔
      (resolveLock req).TakesNone world.store world.faults ∨
        Spared world.store world.faults 2 (resolveLock req).handler := by
  rw [latched, kvResolveLockLatched_eq, bind_assoc] at ran
  have scans : (scanLocks req).run world.store = _ := run_scanLocks req
  have asksNone : asked world.store (scanLocks req) = [] := by
    change asked world.store (Reading.lift (keysLockedBy req.startVersion _)) = []
    cases keysLockedBy req.startVersion _ <;> rfl
  have search : Spends (findLocks req) world 1
      (keysLockedBy req.startVersion (world.store .lock).entries) := by
    rw [← scans, ← Nat.add_zero 1, ← length_nil, ← asksNone]
    exact Spends.storageCall.bind_ok (.perform (scanLocks req))
  cases search with
  | stopped disturbed message final acts kept =>
    cases (act_bind_of_error acts).symm.trans ran
    exact iff_of_true kept (.inl (.inr ⟨rfl, disturbed⟩))
  | ended opens acts =>
    rcases keysLockedBy_cases req.startVersion (world.store .lock).entries with
      keys | ⟨_, _, message, _, panics⟩
    · rw [keys] at acts scans
      rw [act_bind_of_ok acts] at ran
      split_ifs at ran with isEmpty
      · cases ran
        exact iff_of_true rfl (.inl (.inl (isEmpty_iff.mp isEmpty)))
      · have some : lockedBy req.startVersion (world.store .lock).entries ≠ [] :=
          fun none => isEmpty (isEmpty_iff.mpr none)
        have takesSome : ¬ (resolveLock req).TakesNone world.store world.faults :=
          fun takesNone => takesNone.elim some fun both => both.2 opens
        rw [underLatches_map] at ran
        have within (keys : List Bytes) : ReadsWithin keys (fun _ => True)
            (do return (← resolveKeys req keys).map Response.resolveLock) :=
          (resolveKeys_within req keys).bind fun _ _ => .done trivial
        rw [latches_underLatches (within _).honest ran returned, or_iff_right some,
          or_iff_right takesSome, handler, kvResolveLock, bind_bind,
          spared_bind asksNone scans, spared_two opens]
    · rw [panics] at acts
      cases (act_bind_of_error acts).symm.trans ran
      exact absurd rfl (returned message)

/-- Once a handler has returned, its latches are given back exactly if it had taken none, or
no call of the storage failed and every lock it asked for could be read. -/
theorem latches_restored_iff {request : Request} {result : Fallible Response}
    (ran : (request.latched notify).act world = some (result, after))
    (returned : ∀ message, result ≠ .error (.panic message)) :
    after.latches = world.latches ↔
      request.TakesNone world.store world.faults ∨
        Spared world.store world.faults request.readers request.handler := by
  by_cases one : request.readers = 1
  · rw [latched_eq one world.store] at ran
    rw [latches_underLatches (honest_handler one) ran returned, TakesNone, one]
    simp
  · cases request with
    | resolveLock req => exact latches_resolveLock ran returned
    | _ => exact absurd rfl one

end Restoring

def calmWorld (store : FlatStore) : World Unit where
  store := store
  latches := Latches.new
  faults := []

theorem latches_restored_of_prewrite :
    ∃ response after, ((prewrite (putUnder [1])).latched ()).act
        (calmWorld FlatStore.empty) = some (.ok response, after) ∧
      after.latches = (calmWorld FlatStore.empty).latches := by
  have ran : ∃ response after, ((prewrite (putUnder [1])).latched ()).act
      (calmWorld FlatStore.empty) = some (.ok response, after) :=
    ⟨_, _, rfl⟩
  rcases ran with ⟨response, after, ran⟩
  refine ⟨response, after, ran, (latches_restored_iff ran nofun).mpr
    (.inr ⟨by simp [Calm, calmWorld], ?_⟩)⟩
  intro key _
  exact ⟨none, rfl⟩

/-- The lock of a prewrite without a primary key cannot be read: a commit of its key
fails and keeps the latch. -/
theorem latch_kept_by_commit :
    ∃ world request message after,
      (latched () request).act world = some (.error (.error message), after) ∧
      after.latches ≠ world.latches := by
  refine ⟨calmWorld (after [.prewrite (putUnder [])]), commitOne [1] 1 2, _, _, rfl, ?_⟩
  intro same
  have holders := congrArg (fun latches => (latches.latchMap.get? [1]).isSome) same
  exact absurd holders (by decide +kernel)

end AegisDB.Server

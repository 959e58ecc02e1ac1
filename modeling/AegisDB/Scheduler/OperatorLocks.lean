import AegisDB.Foundation.Locking
import AegisDB.Scheduler.ControllerRuns

/-! # The lock of the operators

The calls of `scheduler/operator_controller.rs` once more, with each place where the lock of the
operators is taken and where it is given back. The locks of the counts and of the records are
only ever held for one access. Each call is what it is without locks, as long as it does not
take the lock a second time, and two of them can. -/

namespace AegisDB.Scheduler

open Foundation Locking Proto

structure ControllerState where
  controller : OperatorController
  sent : List RegionHeartbeatResponse

namespace ControllerState

def new : ControllerState where
  controller := .new
  sent := []

def update (change : OperatorController → OperatorController) (state : ControllerState) :
    ControllerState :=
  { state with controller := change state.controller }

def send (response : RegionHeartbeatResponse) (state : ControllerState) : ControllerState :=
  { state with sent := state.sent ++ [response] }

theorem foldl_update (change : Operator → OperatorController → OperatorController)
    (operators : List Operator) (state : ControllerState) :
    operators.foldl (fun state operator => state.update (change operator)) state =
      state.update fun controller =>
        operators.foldl (fun controller operator => change operator controller) controller := by
  induction operators generalizing state with
  | nil => rfl
  | cons first rest induction => exact induction _

end ControllerState

namespace WithLock

abbrev Call (α : Type) := Locking ControllerState α

/-! ## Queries -/

def runningLen : Call Nat := underLock (·.controller.runningLen)

def pendingLen : Call Nat := return 0

def finishedLen : Call Nat := view (·.controller.finishedLen)

def getOperator (regionId : UInt64) : Call (Option Operator) :=
  underLock (·.controller.getOperator regionId)

def getOperators : Call (List Operator) := underLock (·.controller.getOperators)

def operatorCount (mask : OpKind) : Call Nat := view (·.controller.operatorCount mask)

def getOperatorStatus (regionId : UInt64) : Call (Option OperatorWithStatus) := do
  match ← underLock (·.controller.operators.get? regionId) with
  | some operator => return some { operator, status := .running }
  | none => view (·.controller.opRecords.get? regionId)

/-! ## Changes -/

def updateCounts : Call Unit := do
  acquire
  change (.update (·.updateCounts))
  release

def putOpRecord (operator : Operator) (status : OperatorStatus) : Call Unit :=
  change (.update (·.putOpRecord operator status))

def sendScheduleCommand (region : RegionInfo) (step : OpStep) : Call Unit :=
  change (.send (step.command region))

def sendCurrentStep (regionId : UInt64) (region : RegionInfo) : Call Unit := do
  match ← getOperator regionId with
  | none => return
  | some operator =>
    match operator.check region with
    | none => return
    | some step => sendScheduleCommand region step

def finish (regionId : UInt64) (operator : Operator) (status : OperatorStatus) : Call Unit := do
  change (.update fun controller =>
    { controller with operators := controller.operators.erase regionId })
  release
  updateCounts
  putOpRecord operator status

def insertOperator (regionId : UInt64) (operator : Operator) : Call Unit :=
  change (.update fun controller =>
    { controller with operators := controller.operators.insert regionId operator })

def dispatch (region : RegionInfo) (source : String) (now : Nat) : Call Unit := do
  acquire
  match ← view (·.controller.getOperator region.id) with
  | none => release
  | some operator =>
    let timeout := operator.isTimeout now
    let operator := operator.advance region
    insertOperator region.id operator
    if operator.currentStep ≥ operator.steps.length then
      finish region.id operator .success
    else if timeout then
      finish region.id operator .timeout
    else
      match operator.check region with
      | none => release
      | some step =>
        if source = "heartbeat" ∧ OperatorController.isStale operator region step then
          finish region.id operator .cancel
        else
          release
          sendCurrentStep region.id region

def addOperatorLocked (cluster : BasicCluster) (now : Nat) (operator : Operator) : Call Unit := do
  match ← view (·.controller.getOperator operator.regionId) with
  | some oldOperator =>
    change (.update fun controller =>
      { controller with operators := controller.operators.erase operator.regionId })
    putOpRecord oldOperator .replace
    acquire
    insertOperator operator.regionId (operator.start now)
    release
    updateCounts
    match cluster.getRegion operator.regionId with
    | none => return
    | some region => sendCurrentStep operator.regionId region
  | none => insertOperator operator.regionId (operator.start now)

def addOperator (cluster : BasicCluster) (operators : List Operator) (now : Nat) :
    Call Bool := do
  acquire
  if ← view (·.controller.checkAddOperator cluster operators) then
    forM operators (addOperatorLocked cluster now)
    release
    return true
  else
    forM operators fun operator => putOpRecord operator .cancel
    release
    return false

def removeOperator (operator : Operator) : Call Bool := do
  acquire
  match ← view (·.controller.getOperator operator.regionId) with
  | some current =>
    if current.regionId = operator.regionId ∧ current.createTime = operator.createTime then
      change (.update fun controller =>
        { controller with operators := controller.operators.erase operator.regionId })
      updateCounts
      release
      return true
    else
      release
      return false
  | none =>
    release
    return false

/-! ## What the calls do -/

section Calls

variable {state : ControllerState}

theorem getOperatorStatus_run (regionId : UInt64) :
    (getOperatorStatus regionId).run (.free state) =
      some (state.controller.getOperatorStatus regionId, .free state) := by
  rw [getOperatorStatus, StateT.run_bind, underLock_run_free, OperatorController.getOperatorStatus,
    OperatorController.getOperator]
  cases state.controller.operators.get? regionId with
  | none => rfl
  | some operator => rfl

@[simp] theorem updateCounts_run_taken : updateCounts.run (.taken state) = none := rfl

@[simp] theorem finish_run (regionId : UInt64) (operator : Operator) (status : OperatorStatus) :
    (finish regionId operator status).run (.taken state) =
      some ((), .free (state.update (·.finish regionId operator status))) := rfl

@[simp] theorem insertOperator_run (regionId : UInt64) (operator : Operator) :
    (insertOperator regionId operator).run (.taken state) =
      some ((), .taken (state.update fun controller =>
        { controller with operators := controller.operators.insert regionId operator })) := rfl

theorem sendCurrentStep_run (regionId : UInt64) (region : RegionInfo) :
    (sendCurrentStep regionId region).run (.free state) =
      some ((), .free { state with
        sent := state.sent ++ ((state.controller.getOperator regionId).bind fun operator =>
          (operator.check region).map (OpStep.command region)).toList }) := by
  rw [sendCurrentStep, StateT.run_bind, getOperator, underLock_run_free]
  cases state.controller.getOperator regionId with
  | none => simp
  | some operator =>
    cases check : operator.check region with
    | none => simp [check]
    | some step => simp [check, sendScheduleCommand, ControllerState.send]

theorem dispatch_run (region : RegionInfo) (source : String) (now : Nat) :
    (dispatch region source now).run (.free state) =
      some ((), .free
        { controller := (state.controller.dispatch region source now).1
          sent := state.sent ++ (state.controller.dispatch region source now).2.toList }) := by
  cases found : state.controller.getOperator region.id with
  | none =>
    rw [OperatorController.dispatch_of_none found]
    simp [dispatch, found]
  | some operator =>
    simp only [dispatch, OperatorController.dispatch, found, StateT.run_bind, acquire_run_free,
      Option.bind_eq_bind, Option.bind_some, view_run, value_taken, insertOperator_run]
    split
    · simp [ControllerState.update]
    · split
      · simp [ControllerState.update]
      · cases (operator.advance region).check region with
        | none => simp [ControllerState.update]
        | some step =>
          dsimp only
          split
          · simp [ControllerState.update]
          · simp [sendCurrentStep_run, ControllerState.update]

theorem addOperatorLocked_run (cluster : BasicCluster) (now : Nat) (operator : Operator) :
    (addOperatorLocked cluster now operator).run (.taken state) =
      (state.controller.addOperatorLocked now operator).map fun after =>
        ((), .taken { state with controller := after }) := by
  rw [addOperatorLocked, StateT.run_bind, view_run, OperatorController.addOperatorLocked,
    value_taken]
  cases state.controller.getOperator operator.regionId with
  | none => rfl
  | some oldOperator =>
    -- The lock is asked for while the caller holds it.
    simp [putOpRecord]

theorem forM_addOperatorLocked_run (cluster : BasicCluster) (now : Nat)
    (operators : List Operator) :
    (forM operators (addOperatorLocked cluster now)).run (.taken state) =
      (operators.foldlM (fun controller => OperatorController.addOperatorLocked controller now)
        state.controller).map fun after => ((), .taken { state with controller := after }) := by
  induction operators generalizing state with
  | nil => rfl
  | cons first rest induction =>
    rw [List.forM_cons, StateT.run_bind, addOperatorLocked_run, List.foldlM_cons]
    cases state.controller.addOperatorLocked now first with
    | none => rfl
    | some middle => exact induction

theorem addOperator_run (cluster : BasicCluster) (operators : List Operator) (now : Nat) :
    (addOperator cluster operators now).run (.free state) =
      (state.controller.addOperator cluster operators now).map fun result =>
        (result.2, .free { state with controller := result.1 }) := by
  cases accepted : state.controller.checkAddOperator cluster operators with
  | true =>
    simp only [addOperator, OperatorController.addOperator, StateT.run_bind, acquire_run_free,
      Option.bind_eq_bind, Option.bind_some, view_run, value_taken, accepted, if_true,
      forM_addOperatorLocked_run]
    cases operators.foldlM (fun controller =>
        OperatorController.addOperatorLocked controller now) state.controller with
    | none => rfl
    | some after => rfl
  | false =>
    simp only [addOperator, OperatorController.addOperator, StateT.run_bind, acquire_run_free,
      Option.bind_eq_bind, Option.bind_some, view_run, value_taken, accepted, Bool.false_eq_true,
      if_false, putOpRecord, forM_change_run, ControllerState.foldl_update]
    rfl

theorem removeOperator_run (operator : Operator) :
    (removeOperator operator).run (.free state) =
      (state.controller.removeOperator operator).map fun result =>
        (result.2, .free { state with controller := result.1 }) := by
  simp only [removeOperator, OperatorController.removeOperator, StateT.run_bind, acquire_run_free,
    Option.bind_eq_bind, Option.bind_some, view_run, value_taken]
  cases state.controller.getOperator operator.regionId with
  | none => rfl
  | some current =>
    dsimp only
    split
    · simp
    · rfl

end Calls

end WithLock

/-! ## When the calls return -/

inductive ControllerQuery where
  | runningLen
  | pendingLen
  | finishedLen
  | getOperator (regionId : UInt64)
  | getOperators
  | operatorCount (mask : OpKind)
  | getOperatorStatus (regionId : UInt64)

inductive ControllerRequest where
  | call (call : ControllerCall)
  | query (query : ControllerQuery)

namespace OperatorController

def serve (controller : OperatorController) : ControllerRequest → OperatorController
  | .call call => controller.step call
  | .query _ => controller

def Unblocked (controller : OperatorController) : ControllerRequest → Prop
  | .call (.addOperator cluster operators _) =>
    controller.checkAddOperator cluster operators = true → (operators.map (·.regionId)).Nodup
  | .call (.removeOperator operator) =>
    ∀ current, controller.getOperator operator.regionId = some current →
      ¬ (current.regionId = operator.regionId ∧ current.createTime = operator.createTime)
  | .call (.dispatch _ _ _) => True
  | .query _ => True

variable {controller : OperatorController}

theorem isSome_addOperator_iff {cluster : BasicCluster} {operators : List Operator} {now : Nat} :
    (controller.addOperator cluster operators now).isSome = true ↔
      (controller.checkAddOperator cluster operators = true →
        (operators.map (·.regionId)).Nodup) := by
  rw [addOperator]
  cases accepted : controller.checkAddOperator cluster operators with
  | false => simp
  | true =>
    have free : ∀ operator ∈ operators, controller.getOperator operator.regionId = none :=
      fun _ => getOperator_of_checkAddOperator accepted
    rw [if_pos rfl, Option.isSome_map, isSome_foldlM_addOperatorLocked_iff]
    exact ⟨fun both _ => both.2, fun distinct => ⟨free, distinct rfl⟩⟩

theorem isSome_removeOperator_iff {operator : Operator} :
    (controller.removeOperator operator).isSome = true ↔
      ∀ current, controller.getOperator operator.regionId = some current →
        ¬ (current.regionId = operator.regionId ∧ current.createTime = operator.createTime) := by
  rw [removeOperator]
  cases controller.getOperator operator.regionId with
  | none => simp
  | some current =>
    dsimp only
    split_ifs with same
    · simp [same]
    · refine iff_of_true rfl ?_
      intro other isOther
      cases isOther
      exact same

theorem returns_iff_unblocked {call : ControllerCall} :
    controller.Returns call ↔ controller.Unblocked (.call call) := by
  cases call with
  | addOperator cluster operators now =>
    rw [Returns, OperatorController.call, Option.isSome_map]
    exact isSome_addOperator_iff
  | removeOperator operator =>
    rw [Returns, OperatorController.call, Option.isSome_map]
    exact isSome_removeOperator_iff
  | dispatch region source now => exact iff_of_true rfl trivial

end OperatorController

namespace WithLock

open OperatorController (Unblocked serve)

def ask : ControllerQuery → Call Unit
  | .runningLen => discard runningLen
  | .pendingLen => discard pendingLen
  | .finishedLen => discard finishedLen
  | .getOperator regionId => discard (getOperator regionId)
  | .getOperators => discard getOperators
  | .operatorCount mask => discard (operatorCount mask)
  | .getOperatorStatus regionId => discard (getOperatorStatus regionId)

def perform : ControllerRequest → Call Unit
  | .call (.addOperator cluster operators now) => discard (addOperator cluster operators now)
  | .call (.removeOperator operator) => discard (removeOperator operator)
  | .call (.dispatch region source now) => dispatch region source now
  | .query query => ask query

def performAll (requests : List ControllerRequest) : Call Unit := forM requests perform

variable {state : ControllerState} {request : ControllerRequest}

theorem ask_run (query : ControllerQuery) :
    (ask query).run (.free state) = some ((), .free state) := by
  cases query with
  | getOperatorStatus regionId =>
    rw [ask, discard_run, getOperatorStatus_run]
    rfl
  | _ => rfl

theorem perform_run_of_unblocked (unblocked : state.controller.Unblocked request) :
    ∃ sent, (perform request).run (.free state) =
      some ((), .free { controller := state.controller.serve request, sent }) := by
  cases request with
  | query query => exact ⟨state.sent, ask_run query⟩
  | call call =>
    have returned := OperatorController.call_eq_some
      (OperatorController.returns_iff_unblocked.mpr unblocked)
    cases call with
    | addOperator cluster operators now =>
      rcases OperatorController.of_map_fst returned with ⟨flag, result⟩
      refine ⟨state.sent, ?_⟩
      rw [perform, discard_run, addOperator_run, result]
      rfl
    | removeOperator operator =>
      rcases OperatorController.of_map_fst returned with ⟨flag, result⟩
      refine ⟨state.sent, ?_⟩
      rw [perform, discard_run, removeOperator_run, result]
      rfl
    | dispatch region source now => exact ⟨_, dispatch_run region source now⟩

theorem perform_run_of_blocked (blocked : ¬ state.controller.Unblocked request) :
    (perform request).run (.free state) = none := by
  cases request with
  | query query => exact absurd trivial blocked
  | call call =>
    rw [← OperatorController.returns_iff_unblocked, OperatorController.Returns,
      Bool.not_eq_true, Option.isSome_eq_false_iff, Option.isNone_iff_eq_none] at blocked
    cases call with
    | addOperator cluster operators now =>
      rw [perform, discard_run, addOperator_run, Option.map_eq_none_iff.mp blocked]
      rfl
    | removeOperator operator =>
      rw [perform, discard_run, removeOperator_run, Option.map_eq_none_iff.mp blocked]
      rfl
    | dispatch region source now => cases blocked

theorem performAll_returns_iff (requests : List ControllerRequest) :
    (∃ after, (performAll requests).run (.free state) = some ((), .free after)) ↔
      Guarded serve Unblocked state.controller requests := by
  induction requests generalizing state with
  | nil => exact iff_of_true ⟨state, rfl⟩ trivial
  | cons first rest induction =>
    rw [performAll, List.forM_cons, StateT.run_bind, Guarded]
    by_cases unblocked : state.controller.Unblocked first
    · rcases perform_run_of_unblocked unblocked with ⟨sent, returned⟩
      rw [returned, and_iff_right unblocked]
      exact induction
    · rw [perform_run_of_blocked unblocked]
      apply iff_of_false
      · intro returns
        rcases returns with ⟨after, returned⟩
        cases returned
      · intro guarded
        exact unblocked guarded.1

/-- Requests to a new controller all return, and leave its lock free, exactly if none of them
adds two operators for one region or removes an operator that runs. -/
theorem never_blocks_iff (requests : List ControllerRequest) :
    (∃ after, (performAll requests).run (.free .new) = some ((), .free after)) ↔
      Guarded serve Unblocked .new requests :=
  performAll_returns_iff requests

open OperatorController (transfer addTransfer ledBy) in
/-- An operator has been added, and to remove it never ends; nor does a call that adds it
twice. -/
theorem removal_waits_for_itself :
    ((performAll [.call addTransfer]).run (.free .new)).isSome = true ∧
      ((performAll [.call addTransfer, .call (.removeOperator transfer)]).run
        (.free .new)).isSome = false ∧
      ((performAll [.call (.addOperator (BasicCluster.new.putRegion (ledBy ⟨1, 1⟩))
        [transfer, transfer] 0)]).run (.free .new)).isSome = false := by
  decide

end WithLock

end AegisDB.Scheduler

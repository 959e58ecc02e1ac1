import AegisDB.Scheduler.Operator

/-! # The operator controller

`scheduler/operator_controller.rs`: the operators that run, one for a region, and what has
become of the others. The result `none` of a call says that it does not return, because it
waits for a lock that it holds itself. -/

namespace AegisDB.Scheduler

open Foundation Proto OrderedMap List

inductive OperatorStatus where
  | running
  | success
  | timeout
  | cancel
  | replace
deriving DecidableEq, Repr

structure OperatorWithStatus where
  operator : Operator
  status : OperatorStatus
deriving DecidableEq, Repr

structure OperatorController where
  operators : OrderedMap UInt64 Operator
  counts : OpKind → Nat
  opRecords : OrderedMap UInt64 OperatorWithStatus

def saturatingSub (left right : UInt64) : UInt64 := if right ≤ left then left - right else 0

namespace OperatorController

def new : OperatorController where
  operators := .empty
  counts := fun _ => 0
  opRecords := .empty

def runningLen (controller : OperatorController) : Nat := controller.operators.size

def pendingLen (_ : OperatorController) : Nat := 0

def finishedLen (controller : OperatorController) : Nat := controller.opRecords.size

def getOperator (controller : OperatorController) (regionId : UInt64) : Option Operator :=
  controller.operators.get? regionId

def getOperators (controller : OperatorController) : List Operator := controller.operators.values

def updateCounts (controller : OperatorController) : OperatorController :=
  { controller with counts := fun kind => controller.getOperators.countP (·.kind == kind) }

def operatorCount (controller : OperatorController) (mask : OpKind) : Nat := controller.counts mask

def putOpRecord (controller : OperatorController) (operator : Operator) (status : OperatorStatus) :
    OperatorController :=
  { controller with
    opRecords := controller.opRecords.insert operator.regionId { operator, status } }

def getOperatorStatus (controller : OperatorController) (regionId : UInt64) :
    Option OperatorWithStatus :=
  match controller.getOperator regionId with
  | some operator => some { operator, status := .running }
  | none => controller.opRecords.get? regionId

/-! ## Dispatching -/

def finish (controller : OperatorController) (regionId : UInt64) (operator : Operator)
    (status : OperatorStatus) : OperatorController :=
  let controller := { controller with operators := controller.operators.erase regionId }
  controller.updateCounts.putOpRecord operator status

def isStale (operator : Operator) (region : RegionInfo) (step : OpStep) : Bool :=
  saturatingSub region.epoch.confVer operator.regionEpoch.confVer >
    if step.confVerChanged region then 1 else 0

def dispatch (controller : OperatorController) (region : RegionInfo) (source : String)
    (now : Nat) : OperatorController × Option RegionHeartbeatResponse :=
  match controller.getOperator region.id with
  | none => (controller, none)
  | some operator =>
    let timeout := operator.isTimeout now
    let operator := operator.advance region
    let controller :=
      { controller with operators := controller.operators.insert region.id operator }
    if operator.currentStep ≥ operator.steps.length then
      (controller.finish region.id operator .success, none)
    else if timeout then
      (controller.finish region.id operator .timeout, none)
    else
      match operator.check region with
      | none => (controller, none)
      | some step =>
        if source = "heartbeat" ∧ isStale operator region step then
          (controller.finish region.id operator .cancel, none)
        else
          -- The operator is looked up again once the lock is released.
          (controller, (controller.getOperator region.id).bind fun operator =>
            (operator.check region).map (OpStep.command region))

/-! ## Adding and removing -/

def checkAddOperator (controller : OperatorController) (cluster : BasicCluster)
    (operators : List Operator) : Bool :=
  operators.all fun operator =>
    match cluster.getRegion operator.regionId with
    | none => false
    | some region =>
      if region.epoch.version ≠ operator.regionEpoch.version ∨
          region.epoch.confVer ≠ operator.regionEpoch.confVer then
        false
      else
        (controller.getOperator operator.regionId).isNone

def addOperatorLocked (controller : OperatorController) (now : Nat) (operator : Operator) :
    Option OperatorController :=
  match controller.getOperator operator.regionId with
  | some _ => none
  | none => some { controller with
      operators := controller.operators.insert operator.regionId (operator.start now) }

def addOperator (controller : OperatorController) (cluster : BasicCluster)
    (operators : List Operator) (now : Nat) : Option (OperatorController × Bool) :=
  if controller.checkAddOperator cluster operators then
    (operators.foldlM (fun controller => addOperatorLocked controller now) controller).map
      fun controller => (controller, true)
  else
    some (operators.foldl (fun controller operator => controller.putOpRecord operator .cancel)
      controller, false)

def removeOperator (controller : OperatorController) (operator : Operator) :
    Option (OperatorController × Bool) :=
  match controller.getOperator operator.regionId with
  | some current =>
    if current.regionId = operator.regionId ∧ current.createTime = operator.createTime then
      none
    else
      some (controller, false)
  | none => some (controller, false)

/-! ## What a dispatch does -/

section Dispatch

variable {controller : OperatorController} {region : RegionInfo} {operator : Operator}
  {source : String} {now : Nat}

theorem dispatch_of_none (none : controller.getOperator region.id = none) :
    controller.dispatch region source now = (controller, .none) := by
  rw [dispatch, none]

theorem dispatch_of_done (source : String) (now : Nat)
    (found : controller.getOperator region.id = some operator)
    (done : (operator.advance region).steps.length ≤ (operator.advance region).currentStep) :
    controller.dispatch region source now =
      ({ controller with
        operators := controller.operators.insert region.id (operator.advance region) }.finish
          region.id (operator.advance region) .success, none) := by
  simp only [dispatch, found, ge_iff_le, if_pos done]

theorem dispatch_of_check {step : OpStep} (source : String)
    (found : controller.getOperator region.id = some operator)
    (timely : operator.isTimeout now = false)
    (check : (operator.advance region).check region = some step) :
    controller.dispatch region source now =
      if source = "heartbeat" ∧ isStale (operator.advance region) region step then
        ({ controller with
          operators := controller.operators.insert region.id (operator.advance region) }.finish
            region.id (operator.advance region) .cancel, none)
      else
        ({ controller with
          operators := controller.operators.insert region.id (operator.advance region) },
          some (OpStep.command region step)) := by
  have more : ¬ (operator.advance region).currentStep ≥ (operator.advance region).steps.length := by
    intro past
    rw [Operator.check, getElem?_eq_none past] at check
    cases check
  rw [getOperator] at found
  simp only [dispatch, found, if_neg more, timely, check, Bool.false_eq_true, if_false,
    getOperator, get?_insert_same, Option.bind_some, Option.map_some]

theorem dispatch_cases (controller : OperatorController) (region : RegionInfo) (source : String)
    (now : Nat) :
    controller.getOperator region.id = none ∧
        (controller.dispatch region source now).1 = controller ∨
      ∃ operator, controller.getOperator region.id = some operator ∧
        ((controller.dispatch region source now).1 = { controller with
            operators := controller.operators.insert region.id (operator.advance region) } ∨
          ∃ status, (controller.dispatch region source now).1 = { controller with
              operators := controller.operators.insert region.id (operator.advance region) }.finish
                region.id (operator.advance region) status ∧
            (status = .success →
              (operator.advance region).steps.length ≤ (operator.advance region).currentStep)) := by
  cases found : controller.getOperator region.id with
  | none =>
    left
    rw [dispatch_of_none found]
    exact ⟨rfl, rfl⟩
  | some operator =>
    right
    refine ⟨operator, rfl, ?_⟩
    rw [dispatch, found]
    dsimp only
    split
    · rename_i done
      exact .inr ⟨.success, rfl, fun _ => done⟩
    · split
      · exact .inr ⟨.timeout, rfl, fun isSuccess => by cases isSuccess⟩
      · split
        · exact .inl rfl
        · split
          · exact .inr ⟨.cancel, rfl, fun isSuccess => by cases isSuccess⟩
          · exact .inl rfl

theorem getOperatorStatus_finish (status : OperatorStatus)
    (sameRegion : operator.regionId = region.id) :
    (controller.finish region.id operator status).getOperatorStatus region.id =
      some { operator, status } := by
  simp [getOperatorStatus, finish, updateCounts, putOpRecord, getOperator, sameRegion]

theorem getOperator_finish (status : OperatorStatus) :
    (controller.finish region.id operator status).getOperator region.id = none := by
  simp [finish, updateCounts, putOpRecord, getOperator]

theorem getOperator_finish_other (status : OperatorStatus) {regionId : UInt64}
    (different : regionId ≠ region.id) :
    ({ controller with
      operators := controller.operators.insert region.id operator }.finish region.id operator
        status).getOperator regionId = controller.getOperator regionId := by
  simp [finish, updateCounts, putOpRecord, getOperator, get?_erase,
    get?_insert, different]

end Dispatch

/-! ## What adding and removing do -/

section Adding

variable {controller after : OperatorController} {cluster : BasicCluster}
  {operators : List Operator} {operator : Operator} {now : Nat}

theorem of_addOperatorLocked (added : controller.addOperatorLocked now operator = some after) :
    controller.getOperator operator.regionId = none ∧
      after = { controller with
        operators := controller.operators.insert operator.regionId (operator.start now) } := by
  rw [addOperatorLocked] at added
  split at added
  · cases added
  · rename_i free
    exact ⟨free, (Option.some.inj added).symm⟩

variable {result : Bool}

theorem addOperator_cases
    (returned : controller.addOperator cluster operators now = some (after, result)) :
    controller.checkAddOperator cluster operators = true ∧
        operators.foldlM (fun controller => addOperatorLocked controller now) controller =
          some after ∨
      controller.checkAddOperator cluster operators = false ∧
        after = operators.foldl (fun controller operator =>
          controller.putOpRecord operator .cancel) controller := by
  rw [addOperator] at returned
  cases accepted : controller.checkAddOperator cluster operators with
  | true =>
    rw [accepted, if_pos rfl] at returned
    rcases Option.map_eq_some_iff.mp returned with ⟨other, folded, same⟩
    rw [(Prod.mk.inj same).1] at folded
    exact .inl ⟨rfl, folded⟩
  | false =>
    rw [accepted, if_neg (by decide)] at returned
    exact .inr ⟨rfl, (Prod.mk.inj (Option.some.inj returned)).1.symm⟩

theorem removeOperator_cases
    (returned : controller.removeOperator operator = some (after, result)) :
    after = controller := by
  rw [removeOperator] at returned
  split at returned
  · split at returned
    · cases returned
    · exact (Prod.mk.inj (Option.some.inj returned)).1.symm
  · exact (Prod.mk.inj (Option.some.inj returned)).1.symm

theorem foldlM_addOperatorLocked_frame
    (added : operators.foldlM (fun controller => addOperatorLocked controller now) controller =
      some after) :
    after.counts = controller.counts ∧ after.opRecords = controller.opRecords := by
  induction operators generalizing controller with
  | nil =>
    cases added
    exact ⟨rfl, rfl⟩
  | cons first rest induction =>
    rw [foldlM_cons] at added
    rcases Option.bind_eq_some_iff.mp added with ⟨middle, firstAdded, restAdded⟩
    have frame := induction restAdded
    rw [(of_addOperatorLocked firstAdded).2] at frame
    exact frame

variable {regionId : UInt64}

theorem of_getOperator_foldlM
    (added : operators.foldlM (fun controller => addOperatorLocked controller now) controller =
      some after) (found : after.getOperator regionId = some operator) :
    controller.getOperator regionId = some operator ∨
      ∃ original ∈ operators, original.regionId = regionId ∧ operator = original.start now := by
  induction operators generalizing controller with
  | nil =>
    cases added
    exact .inl found
  | cons first rest induction =>
    rw [foldlM_cons] at added
    rcases Option.bind_eq_some_iff.mp added with ⟨middle, firstAdded, restAdded⟩
    rcases induction restAdded with before | ⟨original, member, sameRegion, started⟩
    · rw [(of_addOperatorLocked firstAdded).2, getOperator, get?_insert] at before
      split_ifs at before with sameRegion
      · exact .inr ⟨first, mem_cons_self, sameRegion.symm, (Option.some.inj before).symm⟩
      · exact .inl before
    · exact .inr ⟨original, mem_cons_of_mem first member, sameRegion, started⟩

theorem getOperator_of_checkAddOperator
    (accepted : controller.checkAddOperator cluster operators = true)
    (member : operator ∈ operators) : controller.getOperator operator.regionId = none := by
  have passed := all_eq_true.mp accepted operator member
  split at passed
  · cases passed
  · split at passed
    · cases passed
    · exact Option.isNone_iff_eq_none.mp passed

theorem getOperator_eq_none_of_addOperatorLocked_iff
    (added : controller.addOperatorLocked now operator = some after) :
    after.getOperator regionId = none ↔
      regionId ≠ operator.regionId ∧ controller.getOperator regionId = none := by
  rw [(of_addOperatorLocked added).2, getOperator, get?_insert]
  by_cases same : regionId = operator.regionId
  · simp [same]
  · simp [same, getOperator]

theorem isSome_foldlM_addOperatorLocked_iff :
    (operators.foldlM (fun controller => addOperatorLocked controller now) controller).isSome =
        true ↔
      (∀ operator ∈ operators, controller.getOperator operator.regionId = none) ∧
        (operators.map (·.regionId)).Nodup := by
  induction operators generalizing controller with
  | nil => simp
  | cons first rest induction =>
    rw [foldlM_cons]
    cases found : controller.getOperator first.regionId with
    | some running => simp [addOperatorLocked, found]
    | none =>
      have added : controller.addOperatorLocked now first = some { controller with
          operators := controller.operators.insert first.regionId (first.start now) } := by
        rw [addOperatorLocked, found]
      rw [added, Option.bind_eq_bind, Option.bind_some, induction]
      simp only [getOperator_eq_none_of_addOperatorLocked_iff added, mem_cons,
        forall_eq_or_imp, found, true_and, map_cons, nodup_cons, mem_map,
        not_exists, not_and, imp_and, forall_and]
      rw [and_assoc, and_left_comm]

theorem counts_foldl_putOpRecord (status : OperatorStatus) :
    (operators.foldl (fun controller operator => controller.putOpRecord operator status)
      controller).counts = controller.counts := by
  induction operators generalizing controller with
  | nil => rfl
  | cons first rest induction => exact induction

theorem operators_foldl_putOpRecord (status : OperatorStatus) :
    (operators.foldl (fun controller operator => controller.putOpRecord operator status)
      controller).operators = controller.operators := by
  induction operators generalizing controller with
  | nil => rfl
  | cons first rest induction => exact induction

theorem of_opRecords_foldl {status other : OperatorStatus} (different : status ≠ other)
    (found : (operators.foldl (fun controller operator => controller.putOpRecord operator status)
      controller).opRecords.get? regionId = some { operator, status := other }) :
    controller.opRecords.get? regionId = some { operator, status := other } := by
  induction operators generalizing controller with
  | nil => exact found
  | cons first rest induction =>
    have before : (controller.putOpRecord first status).opRecords.get? regionId =
        some { operator, status := other } := induction found
    rw [putOpRecord, get?_insert] at before
    split at before
    · rw [Option.some.injEq, OperatorWithStatus.mk.injEq] at before
      exact absurd before.2 different
    · exact before

end Adding

end OperatorController

end AegisDB.Scheduler

import AegisDB.Foundation.Transition
import AegisDB.Scheduler.OperatorController

/-! # Runs of the operator controller

Calls that return, one after another, and all that one of them can do to the operators of a
region and to the record of a success. -/

namespace AegisDB.Scheduler

open Foundation Proto

inductive ControllerCall where
  | addOperator (cluster : BasicCluster) (operators : List Operator) (now : Nat)
  | removeOperator (operator : Operator)
  | dispatch (region : RegionInfo) (source : String) (now : Nat)

namespace OperatorController

def call (controller : OperatorController) : ControllerCall → Option OperatorController
  | .addOperator cluster operators now =>
    (controller.addOperator cluster operators now).map Prod.fst
  | .removeOperator operator => (controller.removeOperator operator).map Prod.fst
  | .dispatch region source now => some (controller.dispatch region source now).1

def Returns (controller : OperatorController) (call : ControllerCall) : Prop :=
  (controller.call call).isSome = true

instance (controller : OperatorController) (call : ControllerCall) :
    Decidable (controller.Returns call) :=
  inferInstanceAs (Decidable (_ = _))

def step (controller : OperatorController) (call : ControllerCall) : OperatorController :=
  (controller.call call).getD controller

def run (calls : List ControllerCall) : OperatorController := calls.foldl step new

variable {controller : OperatorController} {call : ControllerCall} {regionId : UInt64}
  {operator : Operator}

theorem run_append_singleton (calls : List ControllerCall) (call : ControllerCall) :
    run (calls ++ [call]) = (run calls).step call := by
  rw [run, List.foldl_append]
  rfl

theorem call_eq_some (returns : controller.Returns call) :
    controller.call call = some (controller.step call) := by
  rcases Option.isSome_iff_exists.mp returns with ⟨after, returned⟩
  rw [step, returned]
  rfl

theorem of_map_fst {result : Option (OperatorController × Bool)} {after : OperatorController}
    (returned : result.map Prod.fst = some after) : ∃ flag, result = some (after, flag) := by
  rcases Option.map_eq_some_iff.mp returned with ⟨⟨other, flag⟩, isResult, same⟩
  exact ⟨flag, isResult.trans (by rw [← same])⟩

inductive LeadsTo (controller : OperatorController) (regionId : UInt64) :
    ControllerCall → Operator → Prop
  | kept (call : ControllerCall) (operator : Operator)
      (found : controller.getOperator regionId = some operator) :
      LeadsTo controller regionId call operator
  | added (cluster : BasicCluster) (operators : List Operator) (now : Nat) (original : Operator)
      (accepted : controller.checkAddOperator cluster operators = true)
      (member : original ∈ operators) (sameRegion : original.regionId = regionId) :
      LeadsTo controller regionId (.addOperator cluster operators now) (original.start now)
  | dispatched (region : RegionInfo) (source : String) (now : Nat) (operator : Operator)
      (sameRegion : region.id = regionId)
      (found : controller.getOperator regionId = some operator) :
      LeadsTo controller regionId (.dispatch region source now) (operator.advance region)

theorem leadsTo_of_getOperator (returns : controller.Returns call)
    (found : (controller.step call).getOperator regionId = some operator) :
    LeadsTo controller regionId call operator := by
  have returned := call_eq_some returns
  cases call with
  | addOperator cluster operators now =>
    rcases of_map_fst returned with ⟨flag, result⟩
    rcases addOperator_cases result with ⟨accepted, folded⟩ | ⟨_, recorded⟩
    · rcases of_getOperator_foldlM folded found with
        before | ⟨original, member, sameRegion, started⟩
      · exact .kept _ _ before
      · rw [started]
        exact .added cluster operators now original accepted member sameRegion
    · rw [recorded, getOperator, operators_foldl_putOpRecord] at found
      exact .kept _ _ found
  | removeOperator removed =>
    rcases of_map_fst returned with ⟨flag, result⟩
    rw [removeOperator_cases result] at found
    exact .kept _ _ found
  | dispatch region source now =>
    change (controller.dispatch region source now).1.getOperator regionId = some operator at found
    rcases dispatch_cases controller region source now with
      ⟨_, same⟩ | ⟨running, isRunning, goesOn | ⟨status, ends, _⟩⟩
    · rw [same] at found
      exact .kept _ _ found
    · rw [goesOn, getOperator, OrderedMap.get?_insert] at found
      split_ifs at found with sameRegion
      · rw [← Option.some.inj found]
        rw [← sameRegion] at isRunning
        exact .dispatched region source now running sameRegion.symm isRunning
      · exact .kept _ _ found
    · by_cases sameRegion : regionId = region.id
      · rw [ends, sameRegion, getOperator_finish] at found
        cases found
      · rw [ends, getOperator_finish_other _ sameRegion] at found
        exact .kept _ _ found

inductive RecordsSuccess (controller : OperatorController) (regionId : UInt64) :
    ControllerCall → Operator → Prop
  | kept (call : ControllerCall) (operator : Operator)
      (found : controller.opRecords.get? regionId = some { operator, status := .success }) :
      RecordsSuccess controller regionId call operator
  | dispatched (region : RegionInfo) (source : String) (now : Nat) (operator : Operator)
      (found : controller.getOperator region.id = some operator)
      (sameRegion : operator.regionId = regionId)
      (done : (operator.advance region).steps.length ≤ (operator.advance region).currentStep) :
      RecordsSuccess controller regionId (.dispatch region source now) (operator.advance region)

theorem recordsSuccess_of_opRecords (returns : controller.Returns call)
    (found : (controller.step call).opRecords.get? regionId =
      some { operator, status := .success }) :
    RecordsSuccess controller regionId call operator := by
  have returned := call_eq_some returns
  cases call with
  | addOperator cluster operators now =>
    rcases of_map_fst returned with ⟨flag, result⟩
    rcases addOperator_cases result with ⟨_, folded⟩ | ⟨_, recorded⟩
    · rw [(foldlM_addOperatorLocked_frame folded).2] at found
      exact .kept _ _ found
    · rw [recorded] at found
      exact .kept _ _ (of_opRecords_foldl (by decide) found)
  | removeOperator removed =>
    rcases of_map_fst returned with ⟨flag, result⟩
    rw [removeOperator_cases result] at found
    exact .kept _ _ found
  | dispatch region source now =>
    change (controller.dispatch region source now).1.opRecords.get? regionId = _ at found
    rcases dispatch_cases controller region source now with
      ⟨_, same⟩ | ⟨running, isRunning, goesOn | ⟨status, ends, done⟩⟩
    · rw [same] at found
      exact .kept _ _ found
    · rw [goesOn] at found
      exact .kept _ _ found
    · rw [ends] at found
      change (controller.opRecords.insert (running.advance region).regionId _).get? regionId = _
        at found
      rw [OrderedMap.get?_insert] at found
      split_ifs at found with sameRegion
      · rw [Option.some.injEq, OperatorWithStatus.mk.injEq] at found
        rw [← found.1]
        rw [Operator.regionId_advance] at sameRegion
        exact .dispatched region source now running isRunning sameRegion.symm (done found.2)
      · exact .kept _ _ found

/-! ## A transfer of the leader -/

def ledBy (leader : Peer) : RegionInfo :=
  .new
    { id := 1
      startKey := []
      endKey := []
      regionEpoch := some { confVer := 1, version := 1 }
      peers := [⟨1, 1⟩, ⟨2, 2⟩] }
    (some leader)

def transfer : Operator := .createTransferLeaderOperator (ledBy ⟨1, 1⟩) 1 2 0

def addTransfer : ControllerCall :=
  .addOperator (BasicCluster.new.putRegion (ledBy ⟨1, 1⟩)) [transfer] 0

end OperatorController

end AegisDB.Scheduler

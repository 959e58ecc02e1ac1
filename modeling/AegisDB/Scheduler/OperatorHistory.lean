import AegisDB.Scheduler.ControllerRuns

/-! # What an operator has seen

An operator goes on to its next step when a dispatch for its region shows the current one to be
finished. So what runs, and what is recorded as a success, has seen its steps finished in the
dispatches since it was added, one after another. -/

namespace AegisDB.Scheduler

open Foundation Proto Operator List

/-! ## Steps that are seen in order -/

def FinishedInOrder (steps : List OpStep) (regions : List RegionInfo) : Prop :=
  ∃ chosen : List RegionInfo, chosen.Sublist regions ∧
    List.Forall₂ (fun step region => step.isFinish region = true) steps chosen

theorem FinishedInOrder.of_isPrefix {steps : List OpStep} {regions longer : List RegionInfo}
    (finished : FinishedInOrder steps regions) (isPrefix : regions <+: longer) :
    FinishedInOrder steps longer := by
  rcases finished with ⟨chosen, sublist, each⟩
  exact ⟨chosen, sublist.trans isPrefix.sublist, each⟩

theorem FinishedInOrder.append {steps : List OpStep} {regions : List RegionInfo} {step : OpStep}
    {region : RegionInfo} (finished : FinishedInOrder steps regions)
    (isFinish : step.isFinish region = true) :
    FinishedInOrder (steps ++ [step]) (regions ++ [region]) := by
  rcases finished with ⟨chosen, sublist, each⟩
  refine ⟨chosen ++ [region], sublist.append_right [region], ?_⟩
  exact rel_append each (.cons isFinish .nil)

def dispatched (regionId : UInt64) (calls : List ControllerCall) : List RegionInfo :=
  calls.filterMap fun
    | .dispatch region _ _ => if region.id = regionId then some region else none
    | _ => none

theorem dispatched_append (regionId : UInt64) (first second : List ControllerCall) :
    dispatched regionId (first ++ second) =
      dispatched regionId first ++ dispatched regionId second :=
  filterMap_append

/-! ## Progress of an operator -/

namespace OperatorController

/-- The operator comes from one that a call of the run has added. -/
structure AddedBefore (calls later : List ControllerCall) (original operator : Operator) :
    Prop where
  call : ∃ before cluster operators now,
    calls = before ++ .addOperator cluster operators now :: later ∧
    (run before).checkAddOperator cluster operators = true ∧ original ∈ operators ∧
    operator = { original.start now with currentStep := operator.currentStep }

def Progressed (calls : List ControllerCall) (operator : Operator) : Prop :=
  ∃ later original, AddedBefore calls later original operator ∧
    (original.currentStep = 0 →
      FinishedInOrder (operator.steps.take operator.currentStep)
        (dispatched operator.regionId later))

variable {calls later : List ControllerCall} {original operator : Operator} {call : ControllerCall}

theorem AddedBefore.append (added : AddedBefore calls later original operator)
    (call : ControllerCall) :
    AddedBefore (calls ++ [call]) (later ++ [call]) original operator := by
  rcases added.call with ⟨before, cluster, operators, now, isCalls, rest⟩
  refine ⟨before, cluster, operators, now, ?_, rest⟩
  rw [isCalls, append_assoc, cons_append]

theorem AddedBefore.advance (added : AddedBefore calls later original operator)
    (region : RegionInfo) : AddedBefore calls later original (operator.advance region) := by
  rcases added.call with ⟨before, cluster, operators, now, isCalls, accepted, member, same⟩
  refine ⟨before, cluster, operators, now, isCalls, accepted, member, ?_⟩
  rw [advance_eq, same]

theorem Progressed.append (progressed : Progressed calls operator) (call : ControllerCall) :
    Progressed (calls ++ [call]) operator := by
  rcases progressed with ⟨later, original, added, finished⟩
  refine ⟨later ++ [call], original, added.append call, fun atFirst => ?_⟩
  rw [dispatched_append]
  exact (finished atFirst).of_isPrefix (prefix_append _ _)

theorem Progressed.advance (progressed : Progressed calls operator) {region : RegionInfo}
    (sameRegion : region.id = operator.regionId) (source : String) (now : Nat) :
    Progressed (calls ++ [.dispatch region source now]) (operator.advance region) := by
  rcases advance_cases operator region with same | ⟨step, current, isFinish, next⟩
  · rw [same]
    exact progressed.append _
  · rcases progressed with ⟨later, original, added, finished⟩
    refine ⟨later ++ [.dispatch region source now], original,
      (added.append _).advance region, fun atFirst => ?_⟩
    have here : dispatched operator.regionId [.dispatch region source now] = [region] := by
      simp [dispatched, sameRegion]
    rw [next, take_add_one, current, dispatched_append]
    change FinishedInOrder _ (_ ++ dispatched operator.regionId [.dispatch region source now])
    rw [here]
    exact (finished atFirst).append isFinish

theorem progressed_of_added {before : List ControllerCall} {cluster : BasicCluster}
    {operators : List Operator} (now : Nat)
    (accepted : (run before).checkAddOperator cluster operators = true)
    (member : original ∈ operators) :
    Progressed (before ++ [.addOperator cluster operators now]) (original.start now) := by
  refine ⟨[], original, ⟨before, cluster, operators, now, rfl, accepted, member, rfl⟩, ?_⟩
  intro atFirst
  have nothing : (original.start now).steps.take (original.start now).currentStep = [] := by
    change original.steps.take original.currentStep = []
    rw [atFirst, take_zero]
  rw [nothing]
  exact ⟨[], nil_sublist _, .nil⟩

structure Recorded (calls : List ControllerCall) : Prop where
  running : ∀ regionId operator, (run calls).getOperator regionId = some operator →
    operator.regionId = regionId ∧ Progressed calls operator
  succeeded : ∀ regionId operator,
    (run calls).opRecords.get? regionId = some { operator, status := .success } →
      operator.regionId = regionId ∧ operator.steps.length ≤ operator.currentStep ∧
        Progressed calls operator

theorem recorded_nil : Recorded [] where
  running := by
    intro regionId operator found
    cases found
  succeeded := by
    intro regionId operator found
    cases found

theorem Recorded.append (recorded : Recorded calls) (returns : (run calls).Returns call) :
    Recorded (calls ++ [call]) where
  running := by
    intro regionId operator found
    rw [run_append_singleton] at found
    cases leadsTo_of_getOperator returns found with
    | kept _ _ before =>
      rcases recorded.running regionId operator before with ⟨sameRegion, progressed⟩
      exact ⟨sameRegion, progressed.append call⟩
    | added cluster operators now original accepted member sameRegion =>
      exact ⟨sameRegion, progressed_of_added now accepted member⟩
    | dispatched region source now running isRegion before =>
      rcases recorded.running regionId running before with ⟨sameRegion, progressed⟩
      rw [regionId_advance]
      exact ⟨sameRegion, progressed.advance (isRegion.trans sameRegion.symm) source now⟩
  succeeded := by
    intro regionId operator found
    rw [run_append_singleton] at found
    cases recordsSuccess_of_opRecords returns found with
    | kept _ _ before =>
      rcases recorded.succeeded regionId operator before with ⟨sameRegion, done, progressed⟩
      exact ⟨sameRegion, done, progressed.append call⟩
    | dispatched region source now running before sameRegion done =>
      rcases recorded.running region.id running before with ⟨isRegion, progressed⟩
      rw [regionId_advance]
      exact ⟨sameRegion, done, progressed.advance isRegion.symm source now⟩

theorem recorded_of_guarded (returned : Guarded step Returns new calls) : Recorded calls := by
  apply returned.induction recorded_nil
  intro past call _ returns recorded
  exact recorded.append returns

theorem getOperator_step_monotone {controller : OperatorController} {regionId : UInt64}
    {next : Operator} (returns : controller.Returns call)
    (found : controller.getOperator regionId = some operator)
    (foundNext : (controller.step call).getOperator regionId = some next) :
    next = { operator with currentStep := next.currentStep } ∧
      operator.currentStep ≤ next.currentStep := by
  cases leadsTo_of_getOperator returns foundNext with
  | kept _ _ before =>
    rw [found] at before
    cases before
    exact ⟨rfl, le_rfl⟩
  | added cluster operators now original accepted member sameRegion =>
    -- An operator is not added where another one runs.
    have free := getOperator_of_checkAddOperator accepted member
    rw [sameRegion, found] at free
    cases free
  | dispatched region source now running isRegion before =>
    rw [found] at before
    cases before
    exact ⟨advance_eq operator region, currentStep_le_advance⟩

/-- In every run of calls that return, an operator is recorded as a success only after dispatches
for its region that show its steps to be finished, in order and since it was added, if it was
added with its first step; and no operator that runs goes back. -/
theorem succeeds_step_by_step (calls : List ControllerCall)
    (returned : Guarded step Returns new calls) :
    (∀ regionId operator,
      (run calls).opRecords.get? regionId = some { operator, status := .success } →
      operator.regionId = regionId ∧
      ∃ later original, AddedBefore calls later original operator ∧
        (original.currentStep = 0 →
          FinishedInOrder original.steps (dispatched regionId later))) ∧
    ∀ past call, past ++ [call] <+: calls → ∀ regionId operator next,
      (run past).getOperator regionId = some operator →
      (run (past ++ [call])).getOperator regionId = some next →
      next = { operator with currentStep := next.currentStep } ∧
        operator.currentStep ≤ next.currentStep := by
  constructor
  · intro regionId operator found
    rcases (recorded_of_guarded returned).succeeded regionId operator found with
      ⟨sameRegion, done, later, original, added, finished⟩
    refine ⟨sameRegion, later, original, added, fun atFirst => ?_⟩
    have sameSteps : operator.steps = original.steps := by
      rcases added.call with ⟨_, _, _, _, _, _, _, same⟩
      rw [same]
      rfl
    have finishedAll := finished atFirst
    rw [take_of_length_le done, sameSteps, sameRegion] at finishedAll
    exact finishedAll
  · intro past call isPrefix regionId operator next found foundNext
    rw [run_append_singleton] at foundNext
    exact getOperator_step_monotone (returned.holds isPrefix) found foundNext

theorem succeeds_step_by_step_transfer :
    Guarded step Returns new [addTransfer, .dispatch (ledBy ⟨2, 2⟩) "heartbeat" 1] ∧
    ∃ operator, (run [addTransfer, .dispatch (ledBy ⟨2, 2⟩) "heartbeat" 1]).opRecords.get? 1 =
        some { operator, status := .success } ∧
      ∃ later original, AddedBefore [addTransfer, .dispatch (ledBy ⟨2, 2⟩) "heartbeat" 1] later
        original operator ∧
        (original.currentStep = 0 → FinishedInOrder original.steps (dispatched 1 later)) := by
  have returned : Guarded step Returns new
      [addTransfer, .dispatch (ledBy ⟨2, 2⟩) "heartbeat" 1] := by decide
  have recorded : (run [addTransfer, .dispatch (ledBy ⟨2, 2⟩) "heartbeat" 1]).opRecords.get? 1 =
      some { operator := { transfer.start 0 with currentStep := 1 }, status := .success } := by
    decide
  exact ⟨returned, _, recorded, ((succeeds_step_by_step _ returned).1 1 _ recorded).2⟩

end OperatorController

end AegisDB.Scheduler

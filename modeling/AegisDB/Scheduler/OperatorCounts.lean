import AegisDB.Scheduler.ControllerRuns

/-! # Counting the operators

The counts are computed anew when an operator is done with. Adding one does not do that, so
the counts do not tell of it until another one is done with. -/

namespace AegisDB.Scheduler

open Foundation Proto List

namespace OperatorController

def runningOf (controller : OperatorController) (kind : OpKind) : Nat :=
  controller.getOperators.countP (·.kind == kind)

def CountsMatch (controller : OperatorController) : Prop :=
  ∀ kind, controller.operatorCount kind = controller.runningOf kind

def AddsNothing (controller : OperatorController) : ControllerCall → Prop
  | .addOperator cluster operators _ =>
    operators = [] ∨ controller.checkAddOperator cluster operators = false
  | .removeOperator _ => True
  | .dispatch _ _ _ => True

instance (controller : OperatorController) (call : ControllerCall) :
    Decidable (controller.AddsNothing call) := by
  cases call <;> unfold AddsNothing <;> infer_instance

variable {controller after : OperatorController} {operators : List Operator} {now : Nat}

/-! ## What calls do to the number of operators -/

theorem runningOf_insert {regionId : UInt64} (operator : Operator) (kind : OpKind) :
    { controller with operators := controller.operators.insert regionId operator }.runningOf kind =
      { controller with operators := controller.operators.erase regionId }.runningOf kind +
        if operator.kind = kind then 1 else 0 := by
  have listed := (controller.operators.entries_insert_perm regionId operator).map Prod.snd
  have counted := listed.countP_eq (·.kind == kind)
  rw [map_cons, countP_cons] at counted
  simpa [runningOf, getOperators, OrderedMap.values] using counted

theorem runningOf_addOperatorLocked {operator : Operator}
    (added : controller.addOperatorLocked now operator = some after) (kind : OpKind) :
    after.runningOf kind = controller.runningOf kind + if operator.kind = kind then 1 else 0 := by
  rcases of_addOperatorLocked added with ⟨free, isAfter⟩
  rw [isAfter, runningOf_insert, OrderedMap.erase_of_fresh free]
  rfl

theorem runningOf_foldlM
    (added : operators.foldlM (fun controller => addOperatorLocked controller now) controller =
      some after) (kind : OpKind) :
    after.runningOf kind = controller.runningOf kind + operators.countP (·.kind == kind) := by
  induction operators generalizing controller with
  | nil =>
    cases added
    rfl
  | cons first rest induction =>
    rw [foldlM_cons] at added
    rcases Option.bind_eq_some_iff.mp added with ⟨middle, firstAdded, restAdded⟩
    rw [induction restAdded, runningOf_addOperatorLocked firstAdded, countP_cons]
    simp only [beq_iff_eq]
    omega

theorem runningOf_advance {region : RegionInfo} {operator : Operator}
    (found : controller.getOperator region.id = some operator) (kind : OpKind) :
    { controller with
      operators := controller.operators.insert region.id (operator.advance region) }.runningOf
        kind = controller.runningOf kind := by
  have same : controller =
      { controller with operators := controller.operators.insert region.id operator } := by
    rw [OrderedMap.insert_of_present found]
  rw [runningOf_insert, Operator.kind_advance, ← runningOf_insert, ← same]

/-! ## When the counts match -/

theorem countsMatch_finish (regionId : UInt64) (operator : Operator) (status : OperatorStatus) :
    (controller.finish regionId operator status).CountsMatch :=
  fun _ => rfl

theorem CountsMatch.dispatch (countsMatch : controller.CountsMatch) (region : RegionInfo)
    (source : String) (now : Nat) :
    (controller.dispatch region source now).1.CountsMatch := by
  rcases dispatch_cases controller region source now with
    ⟨_, same⟩ | ⟨running, found, goesOn | ⟨status, ends, _⟩⟩
  · rw [same]
    exact countsMatch
  · intro kind
    rw [goesOn, runningOf_advance found]
    exact countsMatch kind
  · rw [ends]
    exact countsMatch_finish _ _ _

theorem countsMatch_addOperator_iff {cluster : BasicCluster} {result : Bool}
    (countsMatch : controller.CountsMatch)
    (returned : controller.addOperator cluster operators now = some (after, result)) :
    after.CountsMatch ↔
      operators = [] ∨ controller.checkAddOperator cluster operators = false := by
  rcases addOperator_cases returned with ⟨accepted, folded⟩ | ⟨refused, recorded⟩
  · rw [accepted]
    cases operators with
    | nil =>
      cases folded
      exact iff_of_true countsMatch (.inl rfl)
    | cons first rest =>
      refine iff_of_false ?_ (by simp)
      intro matchAfter
      have here := matchAfter first.kind
      rw [operatorCount, (foldlM_addOperatorLocked_frame folded).1, runningOf_foldlM folded,
        countP_cons] at here
      have before := countsMatch first.kind
      rw [operatorCount] at before
      simp at here
      omega
  · refine iff_of_true ?_ (.inr refused)
    intro kind
    rw [recorded, operatorCount, counts_foldl_putOpRecord, runningOf, getOperators,
      operators_foldl_putOpRecord]
    exact countsMatch kind

theorem countsMatch_step_iff {call : ControllerCall} (countsMatch : controller.CountsMatch)
    (returns : controller.Returns call) :
    (controller.step call).CountsMatch ↔ controller.AddsNothing call := by
  have returned := call_eq_some returns
  cases call with
  | addOperator cluster operators now =>
    rcases of_map_fst returned with ⟨flag, result⟩
    exact countsMatch_addOperator_iff countsMatch result
  | removeOperator removed =>
    rcases of_map_fst returned with ⟨flag, result⟩
    rw [removeOperator_cases result]
    exact iff_of_true countsMatch trivial
  | dispatch region source now =>
    exact iff_of_true (countsMatch.dispatch region source now) trivial

theorem countsMatch_new : new.CountsMatch := fun _ => rfl

/-- The counts match all along a run exactly if no call of it adds an operator. -/
theorem counts_match_iff (calls : List ControllerCall) (returned : Guarded step Returns new calls) :
    (∀ past, past <+: calls → (run past).CountsMatch) ↔ Guarded step AddsNothing new calls := by
  have each : ∀ past call, past ++ [call] <+: calls → (run past).CountsMatch →
      ((run (past ++ [call])).CountsMatch ↔ (run past).AddsNothing call) := by
    intro past call isPrefix countsMatch
    rw [run_append_singleton]
    exact countsMatch_step_iff countsMatch (returned.holds isPrefix)
  constructor
  · intro always
    apply guarded_of_holds
    intro past call isPrefix
    have before := always past ((prefix_append past [call]).trans isPrefix)
    exact (each past call isPrefix before).mp (always _ isPrefix)
  · intro addsNothing past isPrefix
    apply (addsNothing.of_isPrefix isPrefix).induction (motive := fun past =>
      (run past).CountsMatch) countsMatch_new
    intro earlier call isNext allowed countsMatch
    exact (each earlier call (isNext.trans isPrefix) countsMatch).mpr allowed

theorem added_operator_not_counted :
    Guarded step Returns new [addTransfer] ∧
      (run [addTransfer]).operatorCount .leader = 0 ∧
      (run [addTransfer]).runningOf .leader = 1 ∧ ¬ (run [addTransfer]).CountsMatch := by
  refine ⟨by decide, rfl, by decide, ?_⟩
  intro countsMatch
  exact absurd (countsMatch .leader) (by decide)

theorem counts_match_unknown_region :
    Guarded step Returns new [.addOperator .new [transfer] 0] ∧
      (run [.addOperator .new [transfer] 0]).CountsMatch := by
  have returned : Guarded step Returns new [.addOperator .new [transfer] 0] := by decide
  have addsNothing : Guarded step AddsNothing new [.addOperator .new [transfer] 0] := by decide
  exact ⟨returned, (counts_match_iff _ returned).mpr addsNothing _ prefix_rfl⟩

end OperatorController

end AegisDB.Scheduler

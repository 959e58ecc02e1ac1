import AegisDB.Raftstore.FailureDetector
import Mathlib.Data.List.TakeWhile

/-! # Switching away from a failed leader

`LeaderSwitchManager` of `raftstore/failure_detector.rs`. `check_and_switch_leader` reads the
leader of a region, then its status, and if it has failed it removes the leader, whoever that
is by then. -/

namespace AegisDB.Raftstore

open Foundation List

structure LeaderSwitchManager where
  failureDetector : FailureDetector
  regionLeaders : OrderedMap UInt64 UInt64

namespace LeaderSwitchManager

def new (failureDetector : FailureDetector) : LeaderSwitchManager where
  failureDetector
  regionLeaders := .empty

def setLeader (manager : LeaderSwitchManager) (regionId leaderId : UInt64) : LeaderSwitchManager :=
  { manager with regionLeaders := manager.regionLeaders.insert regionId leaderId }

def getLeader (manager : LeaderSwitchManager) (regionId : UInt64) : Option UInt64 :=
  manager.regionLeaders.get? regionId

def removeLeader (manager : LeaderSwitchManager) (regionId : UInt64) : LeaderSwitchManager :=
  { manager with regionLeaders := manager.regionLeaders.erase regionId }

def HasFailed (manager : LeaderSwitchManager) (nodeId : UInt64) : Prop :=
  manager.failureDetector.getStatus nodeId = some .failed

instance (manager : LeaderSwitchManager) (nodeId : UInt64) : Decidable (manager.HasFailed nodeId) :=
  inferInstanceAs (Decidable (_ = _))

def checkAndSwitchLeader (manager : LeaderSwitchManager) (regionId : UInt64) :
    LeaderSwitchManager × Option UInt64 :=
  match manager.getLeader regionId with
  | some leaderId =>
    if manager.HasFailed leaderId then (manager.removeLeader regionId, none)
    else (manager, manager.getLeader regionId)
  | none => (manager, manager.getLeader regionId)

end LeaderSwitchManager

/-! ## A check section by section -/

inductive SwitchPhase where
  | called
  | found (leaderId : UInt64)
  | removing
  | rereading
  | finished (result : Option UInt64)
deriving DecidableEq, Repr

inductive Switcher where
  | check
  | set
deriving DecidableEq, Repr

structure Switching where
  manager : LeaderSwitchManager
  phase : SwitchPhase
  isSet : Bool

namespace Switching

def start (manager : LeaderSwitchManager) : Switching where
  manager
  phase := .called
  isSet := false

def advance (manager : LeaderSwitchManager) (regionId : UInt64) :
    SwitchPhase → LeaderSwitchManager × SwitchPhase
  | .called =>
    match manager.getLeader regionId with
    | some leaderId => (manager, .found leaderId)
    | none => (manager, .rereading)
  | .found leaderId =>
    if manager.HasFailed leaderId then (manager, .removing) else (manager, .rereading)
  | .removing => (manager.removeLeader regionId, .finished none)
  | .rereading => (manager, .finished (manager.getLeader regionId))
  | .finished result => (manager, .finished result)

def step (regionId newLeader : UInt64) (state : Switching) : Switcher → Switching
  | .check =>
    { state with
      manager := (advance state.manager regionId state.phase).1
      phase := (advance state.manager regionId state.phase).2 }
  | .set =>
    if state.isSet then state
    else { state with manager := state.manager.setLeader regionId newLeader, isSet := true }

def run (regionId newLeader : UInt64) (manager : LeaderSwitchManager) (schedule : List Switcher) :
    Switching :=
  schedule.foldl (step regionId newLeader) (start manager)

def Finished (state : Switching) : Prop :=
  state.isSet = true ∧ ∃ result, state.phase = .finished result

def Removes (state : Switching) : Prop :=
  state.phase = .removing ∨
    ∃ leaderId, state.phase = .found leaderId ∧ state.manager.HasFailed leaderId

variable {regionId newLeader : UInt64} {manager : LeaderSwitchManager} {state : Switching}

theorem run_check_alone :
    ∃ count, (run regionId newLeader manager (List.replicate count .check)).manager =
        (manager.checkAndSwitchLeader regionId).1 ∧
      (run regionId newLeader manager (List.replicate count .check)).phase =
        .finished (manager.checkAndSwitchLeader regionId).2 := by
  refine ⟨3, ?_⟩
  rw [LeaderSwitchManager.checkAndSwitchLeader]
  cases found : manager.getLeader regionId with
  | none => simp [run, start, step, advance, List.replicate, found]
  | some leaderId =>
    by_cases failed : manager.HasFailed leaderId
    · simp [run, start, step, advance, List.replicate, found, failed]
    · simp [run, start, step, advance, List.replicate, found, failed]

/-! ## After the leader has been set -/

theorem step_of_finished (finished : state.Finished) (switcher : Switcher) :
    state.step regionId newLeader switcher = state := by
  rcases finished with ⟨isSet, result, phase⟩
  cases switcher with
  | check =>
    rcases state with ⟨manager, _, _⟩
    simp only at phase
    subst phase
    rfl
  | set => rw [step, if_pos isSet]

theorem foldl_step_of_finished (finished : state.Finished) (schedule : List Switcher) :
    schedule.foldl (step regionId newLeader) state = state := by
  induction schedule with
  | nil => rfl
  | cons switcher rest induction => rw [foldl_cons, step_of_finished finished, induction]

theorem step_check_of_not_removing (set : state.manager.getLeader regionId = some newLeader)
    (notFailed : ¬state.manager.HasFailed newLeader) (notRemoving : state.phase ≠ .removing) :
    (state.step regionId newLeader .check).manager = state.manager ∧
      ((state.step regionId newLeader .check).Removes ↔ state.Removes) := by
  rcases state with ⟨manager, phase, isSet⟩
  cases phase with
  | called => simp_all [step, advance, Removes]
  | found leaderId =>
    by_cases failed : manager.HasFailed leaderId
    · simp [step, advance, Removes, failed]
    · simp [step, advance, Removes, failed]
  | removing => exact absurd rfl notRemoving
  | rereading => simp [step, advance, Removes]
  | finished result => simp [step, advance, Removes]

theorem getLeader_foldl_iff (isSet : state.isSet = true)
    (set : state.manager.getLeader regionId = some newLeader)
    (notFailed : ¬state.manager.HasFailed newLeader) (schedule : List Switcher)
    (finished : (schedule.foldl (step regionId newLeader) state).Finished) :
    (schedule.foldl (step regionId newLeader) state).manager.getLeader regionId = some newLeader ↔
      ¬state.Removes := by
  induction schedule generalizing state with
  | nil =>
    rcases finished with ⟨_, result, phase⟩
    apply iff_of_true set
    simp [Removes, show state.phase = .finished result from phase]
  | cons switcher rest induction =>
    rw [foldl_cons] at finished ⊢
    cases switcher with
    | set =>
      have same : state.step regionId newLeader .set = state := by rw [step, if_pos isSet]
      rw [same] at finished ⊢
      exact induction isSet set notFailed finished
    | check =>
      by_cases removing : state.phase = .removing
      · have removed : (state.step regionId newLeader .check).manager =
              state.manager.removeLeader regionId ∧
            (state.step regionId newLeader .check).Finished := by
          rw [step, removing]
          exact ⟨rfl, isSet, none, rfl⟩
        rw [foldl_step_of_finished removed.2, removed.1, LeaderSwitchManager.getLeader,
          LeaderSwitchManager.removeLeader, OrderedMap.get?_erase_same]
        exact iff_of_false (by simp) (not_not_intro (.inl removing))
      · rcases step_check_of_not_removing set notFailed removing with ⟨manager, removes⟩
        rw [← removes]
        exact induction isSet (manager ▸ set) (manager ▸ notFailed) finished

/-! ## When the leader is set -/

def sectionsBefore : List Switcher → Nat
  | .check :: rest => sectionsBefore rest + 1
  | _ => 0

variable {schedule : List Switcher}

theorem split_at_set (set : .set ∈ schedule) :
    ∃ rest, schedule = List.replicate (sectionsBefore schedule) .check ++ .set :: rest := by
  induction schedule with
  | nil => cases set
  | cons switcher rest induction =>
    cases switcher with
    | set => exact ⟨rest, rfl⟩
    | check =>
      rcases mem_cons.mp set with isHead | inRest
      · cases isHead
      · rcases induction inRest with ⟨later, split⟩
        exact ⟨later, congrArg (List.cons .check) split⟩

theorem isSet_foldl_iff :
    (schedule.foldl (step regionId newLeader) state).isSet = true ↔
      state.isSet = true ∨ .set ∈ schedule := by
  induction schedule generalizing state with
  | nil => simp
  | cons switcher rest induction =>
    rw [foldl_cons, induction]
    cases switcher with
    | check => simp [step]
    | set =>
      have isSet : (state.step regionId newLeader .set).isSet = true := by
        rw [step]
        split
        · assumption
        · rfl
      simp [isSet]

def checked (regionId newLeader : UInt64) (manager : LeaderSwitchManager) (count : Nat) :
    Switching :=
  run regionId newLeader manager (List.replicate count .check)

theorem checked_succ (count : Nat) :
    checked regionId newLeader manager (count + 1) =
      (checked regionId newLeader manager count).step regionId newLeader .check := by
  rw [checked, checked, run, run, replicate_succ', foldl_concat]

variable {count : Nat}

theorem finished_checked (enough : 3 ≤ count) :
    ∃ result, (checked regionId newLeader manager count).phase = .finished result := by
  induction count, enough using Nat.le_induction with
  | base =>
    cases found : manager.getLeader regionId with
    | none => simp [checked, run, start, step, advance, List.replicate, found]
    | some leaderId =>
      by_cases failed : manager.HasFailed leaderId
      · simp [checked, run, start, step, advance, List.replicate, found, failed]
      · simp [checked, run, start, step, advance, List.replicate, found, failed]
  | succ count _ induction =>
    rcases induction with ⟨result, phase⟩
    refine ⟨result, ?_⟩
    rw [checked_succ, step, phase]
    rfl

theorem removes_checked_iff :
    (checked regionId newLeader manager count).Removes ↔
      (∃ leaderId, manager.getLeader regionId = some leaderId ∧ manager.HasFailed leaderId) ∧
        (count = 1 ∨ count = 2) := by
  by_cases enough : 3 ≤ count
  · have finished : ∃ result, (checked regionId newLeader manager count).phase = .finished result :=
      finished_checked enough
    rcases finished with ⟨result, phase⟩
    apply iff_of_false
    · simp [Removes, phase]
    · omega
  · have few : count = 0 ∨ count = 1 ∨ count = 2 := by omega
    cases found : manager.getLeader regionId with
    | none =>
      rcases few with rfl | rfl | rfl <;>
        simp [checked, run, start, step, advance, List.replicate, found, Removes]
    | some leaderId =>
      by_cases failed : manager.HasFailed leaderId
      · rcases few with rfl | rfl | rfl <;>
          simp [checked, run, start, step, advance, List.replicate, found, failed, Removes]
      · rcases few with rfl | rfl | rfl <;>
          simp [checked, run, start, step, advance, List.replicate, found, failed, Removes]

theorem failureDetector_checked (count : Nat) :
    (checked regionId newLeader manager count).manager.failureDetector =
      manager.failureDetector := by
  induction count with
  | zero => rfl
  | succ count induction =>
    rw [checked_succ, ← induction, step]
    cases (checked regionId newLeader manager count).phase with
    | called =>
      rw [advance]
      split <;> rfl
    | found leaderId =>
      rw [advance]
      split <;> rfl
    | _ => rfl

theorem isSet_checked (count : Nat) : (checked regionId newLeader manager count).isSet = false := by
  rw [← Bool.not_eq_true]
  intro isSet
  rcases isSet_foldl_iff.mp isSet with atStart | among
  · cases atStart
  · cases eq_of_mem_replicate among

def justSet (regionId newLeader : UInt64) (manager : LeaderSwitchManager) (count : Nat) :
    Switching where
  manager := (checked regionId newLeader manager count).manager.setLeader regionId newLeader
  phase := (checked regionId newLeader manager count).phase
  isSet := true

theorem run_eq_of_set (regionId newLeader : UInt64) (manager : LeaderSwitchManager)
    (set : .set ∈ schedule) :
    ∃ rest : List Switcher, run regionId newLeader manager schedule =
      rest.foldl (step regionId newLeader)
        (justSet regionId newLeader manager (sectionsBefore schedule)) := by
  rcases split_at_set set with ⟨rest, split⟩
  refine ⟨rest, ?_⟩
  conv_lhs => rw [split]
  rw [run, foldl_append, foldl_cons]
  have setting : (checked regionId newLeader manager (sectionsBefore schedule)).step regionId
      newLeader .set = justSet regionId newLeader manager (sectionsBefore schedule) := by
    rw [step, isSet_checked]
    rfl
  exact congrArg (rest.foldl (step regionId newLeader)) setting

theorem hasFailed_justSet_iff {nodeId : UInt64} :
    (justSet regionId newLeader manager count).manager.HasFailed nodeId ↔
      manager.HasFailed nodeId := by
  have detector : (justSet regionId newLeader manager count).manager.failureDetector =
      manager.failureDetector := failureDetector_checked count
  rw [LeaderSwitchManager.HasFailed, LeaderSwitchManager.HasFailed, detector]

theorem removes_justSet_iff :
    (justSet regionId newLeader manager count).Removes ↔
      (checked regionId newLeader manager count).Removes :=
  Iff.rfl

/-- The new leader stays exactly if it is not set between the first section of the check, in
which a failed leader is read, and the third, in which it is removed. -/
theorem new_leader_stays_iff {schedule : List Switcher}
    (healthy : manager.failureDetector.getStatus newLeader = some .healthy)
    (finished : (run regionId newLeader manager schedule).Finished) :
    (run regionId newLeader manager schedule).manager.getLeader regionId = some newLeader ↔
      ¬((∃ leaderId, manager.getLeader regionId = some leaderId ∧
          manager.failureDetector.getStatus leaderId = some .failed) ∧
        (sectionsBefore schedule = 1 ∨ sectionsBefore schedule = 2)) := by
  have member : .set ∈ schedule := by
    rcases isSet_foldl_iff.mp finished.1 with atStart | among
    · cases atStart
    · exact among
  rcases run_eq_of_set regionId newLeader manager member with ⟨rest, whole⟩
  rw [whole] at finished ⊢
  have set : (justSet regionId newLeader manager (sectionsBefore schedule)).manager.getLeader
      regionId = some newLeader := OrderedMap.get?_insert_same ..
  have notFailed :
      ¬(justSet regionId newLeader manager (sectionsBefore schedule)).manager.HasFailed
        newLeader := by
    rw [hasFailed_justSet_iff, LeaderSwitchManager.HasFailed, healthy]
    decide
  rw [getLeader_foldl_iff rfl set notFailed rest finished, removes_justSet_iff,
    removes_checked_iff]
  rfl

/-! ## A leader that is set in between -/

def failing : FailureDetector :=
  (FailureDetector.new 5 0).after [.registerNode 1, .checkAllNodes fun _ => 0, .registerNode 2]

def failingLeader : LeaderSwitchManager :=
  (LeaderSwitchManager.new failing).setLeader 7 1

/-- The check reads the failed leader, the new one is set, and the check removes it. -/
theorem new_leader_is_erased :
    failing.getStatus 2 = some .healthy ∧
    (run 7 2 failingLeader [.check, .set, .check, .check]).Finished ∧
    (run 7 2 failingLeader [.check, .set, .check, .check]).manager.getLeader 7 = none := by
  refine ⟨by decide, ⟨by decide, none, by decide⟩, by decide⟩

theorem new_leader_stays_after_check :
    (run 7 2 failingLeader [.check, .check, .check, .set]).manager.getLeader 7 = some 2 ∧
      ¬(sectionsBefore [.check, .check, .check, .set] = 1) := by
  have healthy : failingLeader.failureDetector.getStatus 2 = some .healthy := by decide
  have finished : (run 7 2 failingLeader [.check, .check, .check, .set]).Finished :=
    ⟨by decide, none, by decide⟩
  refine ⟨(new_leader_stays_iff healthy finished).mpr ?_, by decide⟩
  intro erased
  exact absurd erased.2 (by decide)

end Switching

end AegisDB.Raftstore

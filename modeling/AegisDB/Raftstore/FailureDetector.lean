import AegisDB.Foundation.BigEndian
import AegisDB.Foundation.OrderedMap
import Mathlib.Data.List.Induction

/-! # The failure detector

`FailureDetector` of `raftstore/failure_detector.rs`: a node whose heartbeat is too old becomes
suspect, and failed once enough failures have been recorded for it. Times are nanoseconds, and
the clock is read by the event that needs it. -/

namespace AegisDB.Raftstore

open Foundation OrderedMap List

inductive NodeStatus where
  | healthy
  | suspect
  | failed
deriving DecidableEq, Repr

structure NodeHealth where
  status : NodeStatus
  lastHeartbeat : Option Nat
  consecutiveFailures : UInt32
deriving DecidableEq, Repr

namespace NodeHealth

def new : NodeHealth where
  status := .healthy
  lastHeartbeat := none
  consecutiveFailures := 0

def updateHeartbeat (health : NodeHealth) (now : Nat) : NodeHealth :=
  { health with status := .healthy, lastHeartbeat := some now, consecutiveFailures := 0 }

def recordFailure (health : NodeHealth) : NodeHealth :=
  { health with consecutiveFailures := health.consecutiveFailures + 1 }

def timeSinceHeartbeat (health : NodeHealth) (now : Nat) : Nat :=
  match health.lastHeartbeat with
  | some time => now - time
  | none => 3600 * 1000000000

def checkHealth (health : NodeHealth) (heartbeatTimeout : Nat) (failureThreshold : UInt32)
    (now : Nat) : NodeHealth × Bool :=
  if health.timeSinceHeartbeat now > heartbeatTimeout then
    let health := if health.status = .healthy then { health with status := .suspect } else health
    if health.consecutiveFailures ≥ failureThreshold then
      if health.status ≠ .failed then ({ health with status := .failed }, true) else (health, false)
    else
      (health, false)
  else
    (health, false)

variable {health : NodeHealth} {heartbeatTimeout now : Nat} {failureThreshold : UInt32}

theorem checkHealth_frame :
    (health.checkHealth heartbeatTimeout failureThreshold now).1.lastHeartbeat =
        health.lastHeartbeat ∧
      (health.checkHealth heartbeatTimeout failureThreshold now).1.consecutiveFailures =
        health.consecutiveFailures := by
  rw [checkHealth]
  by_cases silent : health.timeSinceHeartbeat now > heartbeatTimeout
  · rw [if_pos silent]
    dsimp only
    split <;> split <;> (try split) <;> exact ⟨rfl, rfl⟩
  · rw [if_neg silent]
    exact ⟨rfl, rfl⟩

theorem checkHealth_status :
    (health.checkHealth heartbeatTimeout failureThreshold now).1.status =
        (if health.timeSinceHeartbeat now > heartbeatTimeout then
          if failureThreshold ≤ health.consecutiveFailures ∨ health.status = .failed then .failed
          else .suspect
        else health.status) ∧
      (health.checkHealth heartbeatTimeout failureThreshold now).2 =
        decide (health.timeSinceHeartbeat now > heartbeatTimeout ∧
          failureThreshold ≤ health.consecutiveFailures ∧ health.status ≠ .failed) := by
  rw [checkHealth]
  by_cases silent : health.timeSinceHeartbeat now > heartbeatTimeout
  · by_cases enough : failureThreshold ≤ health.consecutiveFailures
    · cases status : health.status <;> simp [silent, enough, status]
    · cases status : health.status <;> simp [silent, enough, status]
  · simp [silent]

theorem checkHealth_failed_iff :
    (health.checkHealth heartbeatTimeout failureThreshold now).1.status = .failed ↔
      health.status = .failed ∨
        heartbeatTimeout < health.timeSinceHeartbeat now ∧
          failureThreshold ≤ health.consecutiveFailures := by
  rw [checkHealth_status.1]
  split
  · split <;> grind
  · grind

theorem checkHealth_reports (reports :
    (health.checkHealth heartbeatTimeout failureThreshold now).2 = true) :
    health.status ≠ .failed ∧
      (health.checkHealth heartbeatTimeout failureThreshold now).1.status = .failed := by
  rw [checkHealth_status.2, decide_eq_true_eq] at reports
  rcases reports with ⟨silent, enough, notFailed⟩
  exact ⟨notFailed, checkHealth_failed_iff.mpr (.inr ⟨silent, enough⟩)⟩

end NodeHealth

/-! ## The detector -/

structure FailureDetector where
  nodes : OrderedMap UInt64 NodeHealth
  heartbeatTimeout : Nat
  failureThreshold : UInt32

namespace FailureDetector

def new (heartbeatTimeout : Nat) (failureThreshold : UInt32) : FailureDetector where
  nodes := .empty
  heartbeatTimeout
  failureThreshold

def registerNode (detector : FailureDetector) (nodeId : UInt64) : FailureDetector :=
  { detector with nodes := detector.nodes.insert nodeId .new }

def updateHeartbeat (detector : FailureDetector) (nodeId : UInt64) (now : Nat) :
    FailureDetector :=
  match detector.nodes.get? nodeId with
  | some health =>
    { detector with nodes := detector.nodes.insert nodeId (health.updateHeartbeat now) }
  | none =>
    { detector with nodes := detector.nodes.insert nodeId (NodeHealth.new.updateHeartbeat now) }

def recordFailure (detector : FailureDetector) (nodeId : UInt64) : FailureDetector :=
  match detector.nodes.get? nodeId with
  | some health => { detector with nodes := detector.nodes.insert nodeId health.recordFailure }
  | none => detector

def getStatus (detector : FailureDetector) (nodeId : UInt64) : Option NodeStatus :=
  (detector.nodes.get? nodeId).map NodeHealth.status

def check (detector : FailureDetector) (clock : UInt64 → Nat) (nodeId : UInt64)
    (health : NodeHealth) : NodeHealth × Bool :=
  health.checkHealth detector.heartbeatTimeout detector.failureThreshold (clock nodeId)

def checkAllNodes (detector : FailureDetector) (clock : UInt64 → Nat) :
    FailureDetector × List UInt64 :=
  ({ detector with
      nodes := detector.nodes.mapEntries fun nodeId health =>
        (detector.check clock nodeId health).1 },
    (detector.nodes.entries.filter fun entry => (detector.check clock entry.1 entry.2).2).map
      Prod.fst)

def removeNode (detector : FailureDetector) (nodeId : UInt64) : FailureDetector :=
  { detector with nodes := detector.nodes.erase nodeId }

end FailureDetector

/-! ## Sequences of events -/

inductive DetectorEvent where
  | registerNode (nodeId : UInt64)
  | updateHeartbeat (nodeId : UInt64) (now : Nat)
  | recordFailure (nodeId : UInt64)
  | checkAllNodes (clock : UInt64 → Nat)
  | removeNode (nodeId : UInt64)

namespace DetectorEvent

def Renews (nodeId : UInt64) : DetectorEvent → Prop
  | .registerNode other => other = nodeId
  | .updateHeartbeat other _ => other = nodeId
  | _ => False

def recordsFailure (nodeId : UInt64) : DetectorEvent → Bool
  | .recordFailure other => other == nodeId
  | _ => false

def heartbeat : DetectorEvent → Option Nat
  | .updateHeartbeat _ now => some now
  | _ => none

end DetectorEvent

namespace FailureDetector

def step (detector : FailureDetector) : DetectorEvent → FailureDetector × List UInt64
  | .registerNode nodeId => (detector.registerNode nodeId, [])
  | .updateHeartbeat nodeId now => (detector.updateHeartbeat nodeId now, [])
  | .recordFailure nodeId => (detector.recordFailure nodeId, [])
  | .checkAllNodes clock => detector.checkAllNodes clock
  | .removeNode nodeId => (detector.removeNode nodeId, [])

def after (detector : FailureDetector) (events : List DetectorEvent) : FailureDetector :=
  events.foldl (fun detector event => (detector.step event).1) detector

def reports : FailureDetector → List DetectorEvent → List UInt64
  | _, [] => []
  | detector, event :: rest => (detector.step event).2 ++ reports (detector.step event).1 rest

/-! ### What an event does to one node -/

variable {detector : FailureDetector} {event : DetectorEvent} {nodeId : UInt64}

theorem after_append (events : List DetectorEvent) (event : DetectorEvent) :
    detector.after (events ++ [event]) = ((detector.after events).step event).1 :=
  foldl_concat ..

theorem config_step :
    (detector.step event).1.heartbeatTimeout = detector.heartbeatTimeout ∧
      (detector.step event).1.failureThreshold = detector.failureThreshold := by
  cases event with
  | updateHeartbeat nodeId now =>
    rw [step, updateHeartbeat]
    split <;> exact ⟨rfl, rfl⟩
  | recordFailure nodeId =>
    rw [step, recordFailure]
    split <;> exact ⟨rfl, rfl⟩
  | _ => exact ⟨rfl, rfl⟩

theorem config_after (events : List DetectorEvent) :
    (detector.after events).heartbeatTimeout = detector.heartbeatTimeout ∧
      (detector.after events).failureThreshold = detector.failureThreshold := by
  induction events using List.reverseRecOn with
  | nil => exact ⟨rfl, rfl⟩
  | append_singleton events event induction =>
    rw [after_append]
    exact ⟨config_step.1.trans induction.1, config_step.2.trans induction.2⟩

theorem get?_step_of_renews (renews : event.Renews nodeId) :
    ∃ health, (detector.step event).1.nodes.get? nodeId = some health ∧
      health.status = .healthy ∧ health.lastHeartbeat = event.heartbeat ∧
      health.consecutiveFailures = 0 := by
  cases event with
  | registerNode other =>
    rw [← show other = nodeId from renews]
    exact ⟨.new, get?_insert_same .., rfl, rfl, rfl⟩
  | updateHeartbeat other now =>
    rw [← show other = nodeId from renews, step, updateHeartbeat]
    cases detector.nodes.get? other with
    | none => exact ⟨_, get?_insert_same .., rfl, rfl, rfl⟩
    | some health => exact ⟨_, get?_insert_same .., rfl, rfl, rfl⟩
  | _ => cases renews

theorem get?_step_of_not_renews (notRenews : ¬event.Renews nodeId) :
    (detector.step event).1.nodes.get? nodeId =
      match event with
      | .recordFailure other =>
        if nodeId = other then (detector.nodes.get? nodeId).map NodeHealth.recordFailure
        else detector.nodes.get? nodeId
      | .checkAllNodes clock =>
        (detector.nodes.get? nodeId).map fun health => (detector.check clock nodeId health).1
      | .removeNode other => if nodeId = other then none else detector.nodes.get? nodeId
      | _ => detector.nodes.get? nodeId := by
  cases event with
  | registerNode other => exact get?_insert_other _ _ (Ne.symm notRenews)
  | updateHeartbeat other now =>
    rw [step, updateHeartbeat]
    cases detector.nodes.get? other with
    | none => exact get?_insert_other _ _ (Ne.symm notRenews)
    | some health => exact get?_insert_other _ _ (Ne.symm notRenews)
  | recordFailure other =>
    rw [step, recordFailure]
    by_cases same : nodeId = other
    · subst same
      cases found : detector.nodes.get? nodeId with
      | none => simp [found]
      | some health => simp
    · cases detector.nodes.get? other with
      | none => simp [same]
      | some health => simp [get?_insert_other _ _ same, same]
  | checkAllNodes clock => exact get?_mapEntries ..
  | removeNode other => exact get?_erase ..

/-! ### The history of a node -/

def Evidence (detector : FailureDetector) (nodeId : UInt64) (renewal : DetectorEvent)
    (since : List DetectorEvent) : Prop :=
  ∃ before clock rest, since = before ++ .checkAllNodes clock :: rest ∧
    detector.failureThreshold.toNat ≤ before.countP (·.recordsFailure nodeId) ∧
    ∀ heartbeat, renewal.heartbeat = some heartbeat →
      detector.heartbeatTimeout < clock nodeId - heartbeat

structure History (detector : FailureDetector) (nodeId : UInt64) (renewal : DetectorEvent)
    (since : List DetectorEvent) (health : NodeHealth) : Prop where
  renews : renewal.Renews nodeId
  notSince : ∀ event ∈ since, ¬event.Renews nodeId
  heartbeat : health.lastHeartbeat = renewal.heartbeat
  counted : health.consecutiveFailures.toNat ≤ since.countP (·.recordsFailure nodeId)
  justified : health.status = .failed → detector.Evidence nodeId renewal since

variable {renewal : DetectorEvent} {since : List DetectorEvent} {health : NodeHealth}

theorem Evidence.append (evidence : detector.Evidence nodeId renewal since)
    (event : DetectorEvent) : detector.Evidence nodeId renewal (since ++ [event]) := by
  rcases evidence with ⟨before, clock, rest, split, enough, old⟩
  refine ⟨before, clock, rest ++ [event], ?_, enough, old⟩
  rw [split, append_assoc, cons_append]

variable {next : NodeHealth}

theorem History.extend (history : detector.History nodeId renewal since health)
    (notRenews : ¬event.Renews nodeId) (heartbeat : next.lastHeartbeat = health.lastHeartbeat)
    (counted : next.consecutiveFailures.toNat ≤
      health.consecutiveFailures.toNat + [event].countP (·.recordsFailure nodeId))
    (justified : next.status = .failed → health.status = .failed ∨
      detector.Evidence nodeId renewal (since ++ [event])) :
    detector.History nodeId renewal (since ++ [event]) next where
  renews := history.renews
  notSince other member := by
    rcases mem_append.mp member with earlier | here
    · exact history.notSince other earlier
    · rw [mem_singleton.mp here]
      exact notRenews
  heartbeat := heartbeat.trans history.heartbeat
  counted := by
    rw [countP_append]
    exact counted.trans (Nat.add_le_add_right history.counted _)
  justified failed := by
    rcases justified failed with before | evidence
    · exact (history.justified before).append event
    · exact evidence

theorem History.step (history : detector.History nodeId renewal since health)
    {current : FailureDetector} (timeout : current.heartbeatTimeout = detector.heartbeatTimeout)
    (threshold : current.failureThreshold = detector.failureThreshold)
    (found : current.nodes.get? nodeId = some health) (notRenews : ¬event.Renews nodeId)
    (foundNext : (current.step event).1.nodes.get? nodeId = some next) :
    detector.History nodeId renewal (since ++ [event]) next := by
  rw [get?_step_of_not_renews notRenews, found] at foundNext
  have unchanged (same : next = health) :
      detector.History nodeId renewal (since ++ [event]) next := by
    rw [same]
    exact history.extend notRenews rfl (Nat.le_add_right _ _) .inl
  cases event with
  | registerNode other => exact unchanged (Option.some.inj foundNext).symm
  | updateHeartbeat other now => exact unchanged (Option.some.inj foundNext).symm
  | recordFailure other =>
    dsimp only at foundNext
    split_ifs at foundNext with same
    · have one : [DetectorEvent.recordFailure other].countP (·.recordsFailure nodeId) = 1 := by
        simp [DetectorEvent.recordsFailure, same]
      rw [← Option.some.inj foundNext]
      refine history.extend notRenews (by rfl) ?_ .inl
      rw [one, NodeHealth.recordFailure, UInt32.toNat_add]
      exact Nat.mod_le _ _
    · exact unchanged (Option.some.inj foundNext).symm
  | checkAllNodes clock =>
    rw [← Option.some.inj foundNext]
    apply history.extend notRenews NodeHealth.checkHealth_frame.1
    · exact (congrArg UInt32.toNat NodeHealth.checkHealth_frame.2).le.trans
        (Nat.le_add_right _ _)
    · intro failed
      rcases NodeHealth.checkHealth_failed_iff.mp failed with before | ⟨silent, enough⟩
      · exact .inl before
      · right
        refine ⟨since, clock, [], rfl, ?_, ?_⟩
        · rw [← threshold]
          exact (UInt32.le_iff_toNat_le.mp enough).trans history.counted
        · intro heartbeat known
          rw [NodeHealth.timeSinceHeartbeat, history.heartbeat, known, timeout] at silent
          exact silent
  | removeNode other =>
    dsimp only at foundNext
    split at foundNext
    · cases foundNext
    · exact unchanged (Option.some.inj foundNext).symm

theorem exists_history (timeout : Nat) (threshold : UInt32) (events : List DetectorEvent)
    (found : ((new timeout threshold).after events).nodes.get? nodeId = some health) :
    ∃ past renewal since, events = past ++ renewal :: since ∧
      (new timeout threshold).History nodeId renewal since health := by
  induction events using List.reverseRecOn generalizing health with
  | nil => cases found
  | append_singleton events event induction =>
    rw [after_append] at found
    by_cases renews : event.Renews nodeId
    · rcases get?_step_of_renews renews with ⟨fresh, foundFresh, healthy, heartbeat, none⟩
      rw [Option.some.inj (found.symm.trans foundFresh)]
      refine ⟨events, event, [], rfl, renews, ?_, heartbeat, ?_, ?_⟩
      · intro other member
        cases member
      · rw [none]
        exact Nat.zero_le _
      · rw [healthy]
        intro failed
        cases failed
    · cases before : ((new timeout threshold).after events).nodes.get? nodeId with
      | none =>
        rw [get?_step_of_not_renews renews, before] at found
        cases event <;> simp at found
      | some old =>
        rcases induction before with ⟨past, renewal, since, split, history⟩
        refine ⟨past, renewal, since ++ [event], ?_, ?_⟩
        · rw [split, append_assoc, cons_append]
        · exact history.step (config_after events).1 (config_after events).2 before renews found

/-! ### How often a node is reported -/

theorem mem_checkAllNodes {clock : UInt64 → Nat} :
    nodeId ∈ (detector.checkAllNodes clock).2 ↔
      ∃ health, detector.nodes.get? nodeId = some health ∧
        (detector.check clock nodeId health).2 = true := by
  simp [checkAllNodes, get?_eq_some_iff]

theorem nodup_checkAllNodes (clock : UInt64 → Nat) : (detector.checkAllNodes clock).2.Nodup :=
  detector.nodes.keys_nodup.sublist (filter_sublist.map Prod.fst)

def reportsLeft (detector : FailureDetector) (nodeId : UInt64) : Nat :=
  match detector.getStatus nodeId with
  | some .failed => 0
  | some _ => 1
  | none => 0

theorem reportsLeft_le_one : detector.reportsLeft nodeId ≤ 1 := by
  rw [reportsLeft]
  split <;> decide

theorem reportsLeft_of_none (unknown : detector.nodes.get? nodeId = none) :
    detector.reportsLeft nodeId = 0 := by
  rw [reportsLeft, getStatus, unknown]
  rfl

theorem reportsLeft_of_some (found : detector.nodes.get? nodeId = some health) :
    detector.reportsLeft nodeId = if health.status = .failed then 0 else 1 := by
  rw [reportsLeft, getStatus, found, Option.map_some]
  cases health.status <;> rfl

theorem getStatus_step (notRenews : ¬event.Renews nodeId)
    (notCheck : ∀ clock, event ≠ .checkAllNodes clock) :
    (detector.step event).1.getStatus nodeId = detector.getStatus nodeId ∨
      (detector.step event).1.getStatus nodeId = none := by
  rw [getStatus, getStatus, get?_step_of_not_renews notRenews]
  cases event with
  | registerNode other => exact .inl rfl
  | updateHeartbeat other now => exact .inl rfl
  | recordFailure other =>
    left
    dsimp only
    split
    · rw [Option.map_map]
      rfl
    · rfl
  | checkAllNodes clock => exact absurd rfl (notCheck clock)
  | removeNode other =>
    dsimp only
    split
    · exact .inr rfl
    · exact .inl rfl

theorem reportsLeft_step_le (notRenews : ¬event.Renews nodeId)
    (notCheck : ∀ clock, event ≠ .checkAllNodes clock) :
    (detector.step event).1.reportsLeft nodeId ≤ detector.reportsLeft nodeId := by
  rw [reportsLeft, reportsLeft]
  rcases getStatus_step notRenews notCheck with same | gone
  · rw [same]
  · rw [gone]
    exact Nat.zero_le _

theorem count_checkAllNodes_add_reportsLeft_le (clock : UInt64 → Nat) :
    (detector.checkAllNodes clock).2.count nodeId +
        (detector.checkAllNodes clock).1.reportsLeft nodeId ≤ detector.reportsLeft nodeId := by
  have once := nodup_iff_count_le_one.mp (detector.nodup_checkAllNodes clock) nodeId
  have next := detector.nodes.get?_mapEntries
    (fun nodeId health => (detector.check clock nodeId health).1) nodeId
  cases found : detector.nodes.get? nodeId with
  | none =>
    have absent : nodeId ∉ (detector.checkAllNodes clock).2 := by
      rw [mem_checkAllNodes, found]
      simp
    rw [found] at next
    rw [count_eq_zero.mpr absent, reportsLeft_of_none next]
    exact Nat.zero_le _
  | some health =>
    rw [found] at next
    have before := reportsLeft_of_some found
    have after : (detector.checkAllNodes clock).1.reportsLeft nodeId =
        if (detector.check clock nodeId health).1.status = .failed then 0 else 1 :=
      reportsLeft_of_some next
    by_cases reported : (detector.check clock nodeId health).2 = true
    · have fails := NodeHealth.checkHealth_reports reported
      rw [if_neg fails.1] at before
      rw [check, if_pos fails.2] at after
      omega
    · have absent : nodeId ∉ (detector.checkAllNodes clock).2 := by
        rw [mem_checkAllNodes, found]
        simpa using reported
      rw [count_eq_zero.mpr absent, Nat.zero_add, before]
      by_cases failed : health.status = .failed
      · have still : (detector.check clock nodeId health).1.status = .failed :=
          NodeHealth.checkHealth_failed_iff.mpr (.inl failed)
        rw [after, if_pos still, if_pos failed]
      · rw [if_neg failed]
        exact reportsLeft_le_one

theorem count_step_add_reportsLeft_le (notRenews : ¬event.Renews nodeId) :
    (detector.step event).2.count nodeId + (detector.step event).1.reportsLeft nodeId ≤
      detector.reportsLeft nodeId := by
  cases event with
  | checkAllNodes clock => exact count_checkAllNodes_add_reportsLeft_le clock
  | _ =>
    rw [show (detector.step _).2 = [] from rfl, count_nil, Nat.zero_add]
    exact reportsLeft_step_le notRenews (fun clock same => by cases same)

theorem count_reports_le (notRenews : ∀ event ∈ since, ¬event.Renews nodeId) :
    (detector.reports since).count nodeId ≤ detector.reportsLeft nodeId := by
  induction since generalizing detector with
  | nil => exact Nat.zero_le _
  | cons event rest induction =>
    rw [reports, count_append]
    have here : (detector.step event).2.count nodeId +
        (detector.step event).1.reportsLeft nodeId ≤ detector.reportsLeft nodeId :=
      count_step_add_reportsLeft_le (notRenews event mem_cons_self)
    have later : ((detector.step event).1.reports rest).count nodeId ≤
        (detector.step event).1.reportsLeft nodeId :=
      induction fun other member => notRenews other (mem_cons_of_mem event member)
    omega

/-- A node has failed only if, since its last heartbeat or registration, a check has found
enough failures recorded and its heartbeat too old or missing. As long as it is not renewed
the checks return it at most once. -/
theorem failure_needs_evidence (heartbeatTimeout : Nat) (failureThreshold : UInt32)
    (nodeId : UInt64) :
    (∀ events, ((new heartbeatTimeout failureThreshold).after events).getStatus nodeId =
        some .failed →
      ∃ past renewal since, events = past ++ renewal :: since ∧ renewal.Renews nodeId ∧
        (∀ event ∈ since, ¬event.Renews nodeId) ∧
        ∃ before clock rest, since = before ++ .checkAllNodes clock :: rest ∧
          failureThreshold.toNat ≤ before.countP (·.recordsFailure nodeId) ∧
          ∀ heartbeat, renewal.heartbeat = some heartbeat →
            heartbeatTimeout < clock nodeId - heartbeat) ∧
    ∀ past since, (∀ event ∈ since, ¬event.Renews nodeId) →
      (((new heartbeatTimeout failureThreshold).after past).reports since).count nodeId ≤ 1 := by
  constructor
  · intro events failed
    rcases Option.map_eq_some_iff.mp failed with ⟨health, found, isFailed⟩
    rcases exists_history heartbeatTimeout failureThreshold events found with
      ⟨past, renewal, since, split, history⟩
    exact ⟨past, renewal, since, split, history.renews, history.notSince,
      history.justified isFailed⟩
  · intro past since notRenews
    exact (count_reports_le notRenews).trans reportsLeft_le_one

example :
    (new 5 2).reports
      [.updateHeartbeat 1 0, .recordFailure 1, .checkAllNodes fun _ => 10, .recordFailure 1,
        .checkAllNodes fun _ => 20, .checkAllNodes fun _ => 30] = [1] := by
  decide

end FailureDetector

end AegisDB.Raftstore

import AegisDB.Pd.State

/-! # The streams of region heartbeats

`PdService::region_heartbeat`: a task for each stream binds its sender to the store that the
first header names, and unbinds the store when it notices the end of the stream, whoever is
bound by then. -/

namespace AegisDB.Pd

open Foundation Proto Scheduler OrderedMap

/-! ## The tasks -/

structure StreamTask where
  isOpen : Bool
  hasEnded : Bool
  boundStore : Option UInt64
deriving DecidableEq, Repr

structure PdService where
  state : PdState
  tasks : OrderedMap Sender StreamTask

inductive StreamEvent where
  | opened (stream : Sender)
  | message (stream : Sender) (request : RegionHeartbeatRequest) (now : Nat)
  | closed (stream : Sender)
  | ended (stream : Sender)

namespace PdService

def new : PdService where
  state := .new
  tasks := .empty

def receive (service : PdService) (stream : Sender) (task : StreamTask)
    (request : RegionHeartbeatRequest) (now : Nat) : PdService :=
  match task.boundStore, request.header with
  | some _, _ => { service with state := (service.state.handleRegionHeartbeat request now).1 }
  | none, some header =>
    let state := service.state.bindRegionStream header.senderId stream
    let task := { task with boundStore := some header.senderId }
    { state := (state.handleRegionHeartbeat request now).1
      tasks := service.tasks.insert stream task }
  | none, none => service

def setTask (service : PdService) (stream : Sender) (task : StreamTask) : PdService :=
  { service with tasks := service.tasks.insert stream task }

def step (service : PdService) : StreamEvent → PdService
  | .opened stream =>
    match service.tasks.get? stream with
    | some _ => service
    | none => service.setTask stream { isOpen := true, hasEnded := false, boundStore := none }
  | .message stream request now =>
    match service.tasks.get? stream with
    | some task => if task.hasEnded then service else service.receive stream task request now
    | none => service
  | .closed stream =>
    match service.tasks.get? stream with
    | some task => service.setTask stream { task with isOpen := false }
    | none => service
  | .ended stream =>
    match service.tasks.get? stream with
    | some task =>
      if task.isOpen || task.hasEnded then
        service
      else
        let service := match task.boundStore with
          | some storeId =>
            { service with state := service.state.unbindRegionStream storeId }
          | none => service
        service.setTask stream { task with hasEnded := true }
    | none => service

def after (start : PdService) (events : List StreamEvent) : PdService := events.foldl step start

/-! ## Who is bound -/

def bound (service : PdService) (storeId : UInt64) : Option Sender :=
  service.state.heartbeatStreams.streams.get? storeId

def Connected (service : PdService) (stream : Sender) (storeId : UInt64) : Prop :=
  ∃ task, service.tasks.get? stream = some task ∧ task.isOpen = true ∧
    task.boundStore = some storeId

def IsOpen (service : PdService) (stream : Sender) : Prop :=
  ∃ task, service.tasks.get? stream = some task ∧ task.isOpen = true

def Reachable (service : PdService) : Prop :=
  ∀ stream storeId, service.Connected stream storeId →
    ∃ sender, service.bound storeId = some sender ∧ service.IsOpen sender

structure Binds (service : PdService) (stream : Sender) (request : RegionHeartbeatRequest)
    (task : StreamTask) (storeId : UInt64) : Prop where
  found : service.tasks.get? stream = some task
  notEnded : task.hasEnded = false
  unbound : task.boundStore = none
  header : request.header = some ⟨storeId⟩

structure Unbinds (service : PdService) (stream : Sender) (task : StreamTask)
    (storeId : UInt64) : Prop where
  found : service.tasks.get? stream = some task
  isClosed : task.isOpen = false
  notEnded : task.hasEnded = false
  isBound : task.boundStore = some storeId

/-- No closed stream is bound, and none is closed or unbound, while the store has another one. -/
def Harmless (service : PdService) : StreamEvent → Prop
  | .opened _ => True
  | .message stream request _ => ∀ task storeId, service.Binds stream request task storeId →
      task.isOpen = false → ∀ other, ¬ service.Connected other storeId
  | .closed stream => ∀ storeId, service.bound storeId = some stream →
      ∀ other, other ≠ stream → ¬ service.Connected other storeId
  | .ended stream => ∀ task storeId, service.Unbinds stream task storeId →
      ∀ other, ¬ service.Connected other storeId

/-! ## What each event does -/

theorem streams_handleRegionHeartbeat (state : PdState) (request : RegionHeartbeatRequest)
    (now : Nat) :
    (state.handleRegionHeartbeat request now).1.heartbeatStreams.streams =
      state.heartbeatStreams.streams := by
  have dispatched : ∀ (state : PdState) (region : RegionInfo),
      (state.dispatch region "heartbeat" now).heartbeatStreams.streams =
        state.heartbeatStreams.streams := by
    intro state region
    rw [PdState.dispatch]
    dsimp only
    split
    · exact SimpleHeartbeatStreams.streams_sendMsg _ _ _
    · rfl
  rw [PdState.handleRegionHeartbeat]
  split
  · rfl
  · split
    · rfl
    · split
      · rfl
      · dsimp only
        split <;> exact dispatched _ _

variable {service : PdService} {stream other : Sender} {storeId : UInt64} {task : StreamTask}

theorem connected_of_found (found : service.tasks.get? stream = some task) :
    service.Connected stream storeId ↔ task.isOpen = true ∧ task.boundStore = some storeId := by
  simp [Connected, found]

theorem isOpen_of_found (found : service.tasks.get? stream = some task) :
    service.IsOpen stream ↔ task.isOpen = true := by
  simp [IsOpen, found]

variable {state : PdState} {changed : StreamTask}

theorem connected_insert :
    Connected { state, tasks := service.tasks.insert stream changed } other storeId ↔
      if other = stream then changed.isOpen = true ∧ changed.boundStore = some storeId
      else service.Connected other storeId := by
  rw [Connected]
  by_cases same : other = stream
  · simp [same]
  · simp [same, get?_insert_other _ _ same, Connected]

theorem isOpen_insert :
    IsOpen { state, tasks := service.tasks.insert stream changed } other ↔
      if other = stream then changed.isOpen = true else service.IsOpen other := by
  rw [IsOpen]
  by_cases same : other = stream
  · simp [same]
  · simp [same, get?_insert_other _ _ same, IsOpen]

theorem Reachable.congr {changed : PdService} (reachable : service.Reachable)
    (bound : ∀ storeId, changed.bound storeId = service.bound storeId)
    (connected : ∀ {stream storeId}, changed.Connected stream storeId →
      service.Connected stream storeId)
    (isOpen : ∀ {stream}, service.IsOpen stream → changed.IsOpen stream) : changed.Reachable := by
  intro stream storeId isConnected
  rcases reachable stream storeId (connected isConnected) with ⟨sender, isBound, senderOpen⟩
  exact ⟨sender, (bound storeId).trans isBound, isOpen senderOpen⟩

theorem Reachable.opened (reachable : service.Reachable) (stream : Sender) :
    (service.step (.opened stream)).Reachable := by
  rw [step]
  split
  · exact reachable
  · rename_i fresh
    refine reachable.congr (fun _ => rfl) ?_ ?_
    · intro other storeId connected
      rw [setTask, connected_insert] at connected
      split at connected
      · exact absurd connected.2 (by simp)
      · exact connected
    · intro other isOpen
      rw [setTask, isOpen_insert]
      split
      · rfl
      · exact isOpen

section Messages

variable {request : RegionHeartbeatRequest} {now : Nat}

variable (binds : service.Binds stream request task storeId)

include binds

theorem bound_message_of_binds (otherStore : UInt64) :
    (service.step (.message stream request now)).bound otherStore =
      if otherStore = storeId then some stream else service.bound otherStore := by
  simp only [bound, step, binds.found, binds.notEnded, receive, binds.unbound, binds.header,
    Bool.false_eq_true, if_false, streams_handleRegionHeartbeat]
  exact get?_insert _ _ _ _

theorem connected_message_of_binds {otherStore : UInt64} :
    (service.step (.message stream request now)).Connected other otherStore ↔
      if other = stream then task.isOpen = true ∧ storeId = otherStore
      else service.Connected other otherStore := by
  simp only [step, binds.found, binds.notEnded, receive, binds.unbound, binds.header,
    Bool.false_eq_true, if_false, connected_insert, Option.some.injEq]

theorem isOpen_message_of_binds :
    (service.step (.message stream request now)).IsOpen other ↔ service.IsOpen other := by
  simp only [step, binds.found, binds.notEnded, receive, binds.unbound, binds.header,
    Bool.false_eq_true, if_false, isOpen_insert]
  split_ifs with same
  · rw [same, isOpen_of_found binds.found]
  · rfl

omit binds

theorem message_of_not_binds (now : Nat)
    (none : ∀ task storeId, ¬ service.Binds stream request task storeId) :
    (service.step (.message stream request now)).tasks = service.tasks ∧
      ∀ storeId, (service.step (.message stream request now)).bound storeId =
        service.bound storeId := by
  rw [step]
  split
  · rename_i task found
    split
    · exact ⟨rfl, fun _ => rfl⟩
    · rename_i notEnded
      rw [receive]
      split
      · exact ⟨rfl, fun storeId => by rw [bound, bound, streams_handleRegionHeartbeat]⟩
      · rename_i header unbound isHeader
        exact absurd ⟨found, by simpa using notEnded, unbound, isHeader⟩ (none task header.senderId)
      · exact ⟨rfl, fun _ => rfl⟩
  · exact ⟨rfl, fun _ => rfl⟩

theorem Reachable.message (reachable : service.Reachable)
    (harmless : service.Harmless (.message stream request now)) :
    (service.step (.message stream request now)).Reachable := by
  by_cases binding : ∃ task storeId, service.Binds stream request task storeId
  · rcases binding with ⟨task, storeId, binds⟩
    intro other otherStore connected
    rw [connected_message_of_binds binds] at connected
    rw [bound_message_of_binds binds]
    by_cases sameStore : otherStore = storeId
    · subst sameStore
      refine ⟨stream, if_pos rfl, (isOpen_message_of_binds binds).mpr ⟨task, binds.found, ?_⟩⟩
      by_contra closed
      have none := harmless task otherStore binds (by simpa using closed) other
      split at connected
      · exact closed connected.1
      · exact none connected
    · have before : service.Connected other otherStore := by
        split at connected
        · exact absurd connected.2.symm sameStore
        · exact connected
      rcases reachable other otherStore before with ⟨sender, isBound, isOpen⟩
      exact ⟨sender, by rw [if_neg sameStore, isBound], (isOpen_message_of_binds binds).mpr isOpen⟩
  · have same := message_of_not_binds now fun task storeId binds =>
      binding ⟨task, storeId, binds⟩
    refine reachable.congr same.2 ?_ ?_
    · intro other storeId connected
      rw [Connected, same.1] at connected
      exact connected
    · intro other isOpen
      rw [IsOpen, same.1]
      exact isOpen

theorem harmless_message_of_reachable
    (reachable : (service.step (.message stream request now)).Reachable) :
    service.Harmless (.message stream request now) := by
  intro task storeId binds closed other connected
  have different : other ≠ stream := by
    intro same
    rw [same, connected_of_found binds.found, closed] at connected
    exact absurd connected.1 (by simp)
  have still : (service.step (.message stream request now)).Connected other storeId := by
    rw [connected_message_of_binds binds, if_neg different]
    exact connected
  rcases reachable other storeId still with ⟨sender, isBound, isOpen⟩
  rw [bound_message_of_binds binds, if_pos rfl] at isBound
  rw [isOpen_message_of_binds binds, ← Option.some.inj isBound, isOpen_of_found binds.found,
    closed] at isOpen
  exact absurd isOpen (by simp)

end Messages

theorem Reachable.closed (reachable : service.Reachable)
    (harmless : service.Harmless (.closed stream)) :
    (service.step (.closed stream)).Reachable := by
  rw [step]
  split
  · rename_i task found
    intro other storeId connected
    rw [setTask, connected_insert] at connected
    split at connected
    · exact absurd connected.1 (by simp)
    · rename_i different
      rcases reachable other storeId connected with ⟨sender, isBound, isOpen⟩
      refine ⟨sender, isBound, ?_⟩
      rw [setTask, isOpen_insert, if_neg]
      · exact isOpen
      · intro same
        rw [same] at isBound
        exact harmless storeId isBound other different connected
  · exact reachable

theorem harmless_closed_of_reachable (before : service.Reachable)
    (reachable : (service.step (.closed stream)).Reachable) :
    service.Harmless (.closed stream) := by
  intro storeId isBound other different connected
  -- The stream that is bound is open, so that closing it has an effect.
  rcases before other storeId connected with ⟨sender, senderBound, ⟨task, found, _⟩⟩
  rw [isBound] at senderBound
  cases senderBound
  have closed : service.step (.closed stream) =
      service.setTask stream { task with isOpen := false } := by
    rw [step, found]
  rw [closed] at reachable
  have still : (service.setTask stream { task with isOpen := false }).Connected other storeId := by
    rw [setTask, connected_insert, if_neg different]
    exact connected
  rcases reachable other storeId still with ⟨sender, senderBound, isOpen⟩
  have same : sender = stream := Option.some.inj (senderBound.symm.trans isBound)
  rw [setTask, isOpen_insert, if_pos same] at isOpen
  exact absurd isOpen (by simp)

section Ends

theorem bound_ended_of_unbinds (unbinds : service.Unbinds stream task storeId)
    (otherStore : UInt64) :
    (service.step (.ended stream)).bound otherStore =
      if otherStore = storeId then none else service.bound otherStore := by
  simp only [bound, step, unbinds.found, unbinds.isClosed, unbinds.notEnded, unbinds.isBound,
    Bool.or_self, Bool.false_eq_true, if_false]
  exact get?_erase _ _ _

theorem ended_of_not_unbinds (none : ∀ task storeId, ¬ service.Unbinds stream task storeId)
    (storeId : UInt64) : (service.step (.ended stream)).bound storeId = service.bound storeId := by
  rw [step]
  split
  · rename_i task found
    split
    · rfl
    · rename_i running
      rw [Bool.not_eq_true, Bool.or_eq_false_iff] at running
      cases isBound : task.boundStore with
      | none => rfl
      | some boundStore =>
        exact absurd ⟨found, running.1, running.2, isBound⟩ (none task boundStore)
  · rfl

theorem tasks_ended (stream other : Sender) :
    ((service.step (.ended stream)).tasks.get? other).map
        (fun task => (task.isOpen, task.boundStore)) =
      (service.tasks.get? other).map fun task => (task.isOpen, task.boundStore) := by
  rw [step]
  split
  · rename_i task found
    split
    · rfl
    · have changed : ((service.tasks.insert stream { task with hasEnded := true }).get? other).map
          (fun task => (task.isOpen, task.boundStore)) =
            (service.tasks.get? other).map fun task => (task.isOpen, task.boundStore) := by
        by_cases same : other = stream
        · simp [same, found]
        · rw [get?_insert_other _ _ same]
      dsimp only
      split
      · exact changed
      · exact changed
  · rfl

theorem connected_iff : service.Connected stream storeId ↔
    (service.tasks.get? stream).map (fun task => (task.isOpen, task.boundStore)) =
      some (true, some storeId) := by
  simp [Connected]

theorem isOpen_iff : service.IsOpen stream ↔ ∃ boundStore,
    (service.tasks.get? stream).map (fun task => (task.isOpen, task.boundStore)) =
      some (true, boundStore) := by
  simp [IsOpen]

theorem connected_ended (stream : Sender) :
    (service.step (.ended stream)).Connected other storeId ↔ service.Connected other storeId := by
  rw [connected_iff, connected_iff, tasks_ended]

theorem isOpen_ended (stream : Sender) :
    (service.step (.ended stream)).IsOpen other ↔ service.IsOpen other := by
  rw [isOpen_iff, isOpen_iff, tasks_ended]

theorem Reachable.ended (reachable : service.Reachable)
    (harmless : service.Harmless (.ended stream)) :
    (service.step (.ended stream)).Reachable := by
  intro other storeId connected
  rw [connected_ended] at connected
  rcases reachable other storeId connected with ⟨sender, isBound, isOpen⟩
  refine ⟨sender, ?_, (isOpen_ended stream).mpr isOpen⟩
  by_cases unbinding : ∃ task storeId, service.Unbinds stream task storeId
  · rcases unbinding with ⟨task, boundStore, unbinds⟩
    rw [bound_ended_of_unbinds unbinds, if_neg, isBound]
    intro same
    rw [same] at connected
    exact harmless task boundStore unbinds other connected
  · rw [ended_of_not_unbinds fun task boundStore unbinds =>
      unbinding ⟨task, boundStore, unbinds⟩, isBound]

theorem harmless_ended_of_reachable (reachable : (service.step (.ended stream)).Reachable) :
    service.Harmless (.ended stream) := by
  intro task storeId unbinds other connected
  rcases reachable other storeId ((connected_ended stream).mpr connected) with ⟨sender, isBound, _⟩
  rw [bound_ended_of_unbinds unbinds, if_pos rfl] at isBound
  cases isBound

end Ends

/-! ## Whole runs -/

variable {event : StreamEvent}

theorem Reachable.step (reachable : service.Reachable)
    (harmless : service.Harmless event) : (service.step event).Reachable := by
  cases event with
  | opened stream => exact reachable.opened stream
  | message stream request now => exact reachable.message harmless
  | closed stream => exact reachable.closed harmless
  | ended stream => exact reachable.ended harmless

theorem harmless_of_reachable (before : service.Reachable)
    (reachable : (service.step event).Reachable) : service.Harmless event := by
  cases event with
  | opened stream => trivial
  | message stream request now => exact harmless_message_of_reachable reachable
  | closed stream => exact harmless_closed_of_reachable before reachable
  | ended stream => exact harmless_ended_of_reachable reachable

theorem reachable_new : PdService.new.Reachable := by
  intro stream storeId connected
  rcases connected with ⟨task, found, _⟩
  cases found

/-- Connected stores stay reachable just as long as no stream is closed, and none binds or unbinds
late, on which another stream of the store depends. -/
theorem reachable_iff (events : List StreamEvent) :
    (∀ past, past <+: events → (PdService.new.after past).Reachable) ↔
      Guarded PdService.step Harmless .new events := by
  constructor
  · exact guarded_of_forall_isPrefix Reachable reachable_new
      (fun _ reachable harmless => reachable.step harmless)
      (fun _ before reachable => harmless_of_reachable before reachable)
  · intro guarded past isPrefix
    exact guarded.invariant reachable_new (fun _ reachable harmless => reachable.step harmless)
      isPrefix

/-! ## A reconnecting store -/

def greeting : RegionHeartbeatRequest where
  header := some ⟨1⟩
  region := none
  leader := none
  pendingPeers := []
  approximateSize := 0

def reconnecting : List StreamEvent :=
  [.opened 0, .message 0 greeting 0, .closed 0, .opened 1, .message 1 greeting 1, .ended 0]

theorem unreachable_after_reconnecting :
    (PdService.new.after reconnecting).Connected 1 1 ∧
      (PdService.new.after reconnecting).bound 1 = none :=
  ⟨⟨_, rfl, rfl, rfl⟩, rfl⟩

end PdService

end AegisDB.Pd

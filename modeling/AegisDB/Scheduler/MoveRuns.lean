import AegisDB.Foundation.Transition
import AegisDB.Scheduler.MovePeer

/-! # Runs of a move

The operator that moves a peer, run against a region that does what it is asked. The check
for stale operators allows for the change of the current step only, so that a heartbeat
cancels the operator once the new peer is settled. -/

namespace AegisDB.Scheduler

open Foundation Proto OperatorController List

namespace Move

variable {move : Move} {created started : Nat} {position : Position}
variable {fromPeer : Peer} {stage : Stage} {region : RegionInfo}

/-! ## What a dispatch does to the move -/

/-- The operator is at the position and the region at the stage, and nothing was asked of the
region but what the operator asks up to there. -/
structure Running (move : Move) (fromPeer : Peer) (created started : Nat) (position : Position)
    (stage : Stage) (state : Scheduling) : Prop where
  follows : move.Follows fromPeer position stage state.region
  asked : ∀ response ∈ state.sent, move.Asked fromPeer position response
  operator : state.controller.getOperator move.original.id =
    some (move.running created started position)

inductive Tracks (move : Move) (fromPeer : Peer) (created started : Nat) (state : Scheduling) : Prop
  | running (position : Position) (stage : Stage)
      (running : move.Running fromPeer created started position stage state)
  | finished (follows : move.Follows fromPeer .removing .moved state.region)
      (asked : ∀ response ∈ state.sent, move.Asked fromPeer .removing response)
      (operator : state.controller.getOperator move.original.id = none)
      (success : state.status move.original.id = some .success)

/-- Where the operator stands once a dispatch has looked at the report. -/
inductive Turns (move : Move) (report : RegionInfo) (position : Position) : Position → Prop
  | stays (unfinished : (move.stepAt position).isFinish report = false) :
      Turns move report position position
  | goesOn {following : Position} (finished : (move.stepAt position).isFinish report = true)
      (isNext : move.next position = some following)
      (unfinished : (move.stepAt following).isFinish report = false) :
      Turns move report position following

structure Answers (move : Move) (fromPeer : Peer) (created started : Nat) (state : Scheduling)
    (event : SchedulingEvent) : Prop where
  cancels : ¬ move.Allowed state event →
    (state.step event).status move.original.id = some .cancel
  keeps : move.Allowed state event → move.Tracks fromPeer created started (state.step event)

section Dispatch

variable {state : Scheduling} {source : String} {pendingPeers : List Peer} {now : Nat}
  {following : Position}

theorem next_ne_adding (isNext : move.next position = some following) : following ≠ .adding := by
  rintro rfl
  cases position <;> simp [next, ite_eq_iff] at isNext

theorem Asked.turn {report : RegionInfo} {response : RegionHeartbeatResponse}
    (asked : move.Asked fromPeer position response) (turns : move.Turns report position following) :
    move.Asked fromPeer following response := by
  cases turns with
  | stays => exact asked
  | goesOn _ isNext _ =>
    cases asked with
    | nothing noChange noTransfer => exact .nothing noChange noTransfer
    | add change => exact .add change
    | transfer notAdding needs noChange transfer =>
      exact .transfer (next_ne_adding isNext) needs noChange transfer
    | remove last change =>
      rw [last] at isNext
      cases isNext

theorem Turns.unfinished {report : RegionInfo} (turns : move.Turns report position following) :
    (move.stepAt following).isFinish report = false := by
  cases turns with
  | stays unfinished => exact unfinished
  | goesOn _ _ unfinished => exact unfinished

variable (isSource : move.IsSource fromPeer)

include isSource

theorem Asked.command (follows : move.Follows fromPeer position stage region) :
    move.Asked fromPeer position
      (OpStep.command { region with pendingPeers } (move.stepAt position)) := by
  have toStore : RegionInfo.getPeerByStoreId { region with pendingPeers } move.toStore =
      if stage = .waiting then none else some move.newPeer := by
    rw [← isSource.find?_toStore stage, ← follows.peers]
    rfl
  have fromStore : RegionInfo.getPeerByStoreId { region with pendingPeers } move.fromStore =
      if stage = .moved then none else some fromPeer := by
    rw [← isSource.find?_fromStore stage, ← follows.peers]
    rfl
  cases position with
  | adding =>
    by_cases waiting : stage = .waiting
    · exact .add (by simp [OpStep.command, stepAt, toStore, waiting, newPeer])
    · exact .nothing (by simp [OpStep.command, stepAt, toStore, waiting])
        (by simp [OpStep.command, stepAt, toStore, waiting])
  | transferring =>
    have added := follows.started (by simp)
    exact .transfer (by simp) (follows.possible rfl)
      (by simp [OpStep.command, stepAt, toStore, added])
      (by simp [OpStep.command, stepAt, toStore, added])
  | removing =>
    by_cases moved : stage = .moved
    · exact .nothing (by simp [OpStep.command, stepAt, fromStore, moved])
        (by simp [OpStep.command, stepAt, fromStore, moved])
    · exact .remove rfl (by simp [OpStep.command, stepAt, fromStore, moved])

theorem Follows.leader_ne_newPeer (follows : move.Follows fromPeer .adding stage region) :
    region.leader ≠ some move.newPeer := by
  rcases isSource.valid.leader with ⟨peer, member, leads⟩
  have leader : region.leader = some peer := by
    cases follows.leader with
    | inl original => exact original.trans leads
    | inr new => exact absurd rfl new.2.1
  intro same
  rw [leader] at same
  exact isSource.valid.target peer member (congrArg Peer.storeId (Option.some.inj same))

variable (follows : move.Follows fromPeer position stage state.region)

include follows

theorem exists_turns (pendingPeers : List Peer) (notMoved : stage ≠ .moved) :
    ∃ following, move.Turns (state.report pendingPeers) position following := by
  have notRemoved : (move.stepAt .removing).isFinish (state.report pendingPeers) = false :=
    (isFinish_removing isSource follows).trans (decide_eq_false notMoved)
  cases finished : (move.stepAt position).isFinish (state.report pendingPeers) with
  | false => exact ⟨_, .stays finished⟩
  | true =>
    cases position with
    | adding =>
      by_cases needs : move.NeedsTransfer
      · have unfinished :
            (move.stepAt .transferring).isFinish (state.report pendingPeers) = false :=
          (isFinish_transferring isSource follows).trans
            (decide_eq_false (follows.leader_ne_newPeer isSource))
        exact ⟨.transferring, .goesOn finished (by simp [next, needs]) unfinished⟩
      · exact ⟨.removing, .goesOn finished (by simp [next, needs]) notRemoved⟩
    | transferring => exact ⟨.removing, .goesOn finished rfl notRemoved⟩
    | removing => exact absurd (finished.symm.trans notRemoved) (by simp)

variable (turns : move.Turns (state.report pendingPeers) position following)

include turns

theorem Follows.added_of_turns (later : following ≠ .adding) : stage = .added := by
  cases stage with
  | added => rfl
  | moved =>
    have last := follows.ended rfl
    subst last
    cases turns with
    | stays unfinished =>
      exact absurd (unfinished.symm.trans (isFinish_removing isSource follows)) (by simp)
    | goesOn _ isNext _ => cases isNext
  | waiting =>
    have first : position = .adding := by
      by_contra begun
      exact follows.started begun rfl
    subst first
    cases turns with
    | stays => exact absurd rfl later
    | goesOn finished _ _ =>
      exact absurd (finished.symm.trans (isFinish_adding isSource pendingPeers follows)) (by simp)

theorem Follows.turn : move.Follows fromPeer following stage state.region := by
  have added := follows.added_of_turns isSource turns
  cases turns with
  | stays => exact follows
  | goesOn finished isNext _ =>
    have later := next_ne_adding isNext
    refine ⟨follows.id, follows.peers, follows.confVer, ?_, ?_, ?_, ?_, ?_⟩
    · exact follows.leader.imp_right fun new => ⟨new.1, later, new.2.2⟩
    · intro last needs
      subst last
      cases position with
      | adding => simp [next, needs] at isNext
      | transferring =>
        exact of_decide_eq_true ((isFinish_transferring isSource follows).symm.trans finished)
      | removing => cases isNext
    · simp [added later]
    · simp [added later]
    · intro isTransfer
      subst isTransfer
      cases position with
      | adding =>
        by_contra direct
        simp [next, direct] at isNext
      | transferring => cases isNext
      | removing => cases isNext

theorem isStale_iff_of_turns :
    isStale (move.running created started following)
      (state.report pendingPeers) (move.stepAt following) = true ↔ following ≠ .adding := by
  have goesOn := follows.turn isSource turns
  by_cases first : following = .adding
  · subst first
    have fresh : isStale (move.running created started .adding)
        (state.report pendingPeers) (move.stepAt .adding) = false :=
      not_isStale_adding isSource goesOn fun moved => by simpa using goesOn.ended moved
    simp [fresh]
  · have added := follows.added_of_turns isSource turns first
    subst added
    exact iff_of_true (isStale_of_added isSource goesOn first) first

omit follows

theorem Running.exposed_iff (running : move.Running fromPeer created started position stage state) :
    move.Exposed state pendingPeers ↔ following ≠ .adding := by
  constructor
  · intro exposed first
    rcases exposed with ⟨other, found, _, begun⟩
    rw [running.operator] at found
    cases found
    cases turns with
    | goesOn _ isNext _ => exact next_ne_adding isNext first
    | stays unfinished =>
      subst first
      cases begun with
      | inl later => exact absurd later (Nat.lt_irrefl 0)
      | inr finished => exact absurd (unfinished.symm.trans finished) (by simp)
  · intro later
    have added := running.follows.added_of_turns isSource turns later
    subst added
    refine ⟨_, running.operator, ⟨fromPeer, ?_, isSource.store⟩, ?_⟩
    · rw [running.follows.peers, peersAt]
      exact mem_append_left _ isSource.member
    · cases position with
      | adding =>
        cases turns with
        | stays => exact absurd rfl later
        | goesOn finished _ _ => exact Or.inr finished
      | transferring => exact Or.inl Nat.one_pos
      | removing =>
        refine Or.inl ?_
        change 0 < move.indexOf .removing
        rw [indexOf]
        split <;> omega

theorem Running.answers_of_turns
    (running : move.Running fromPeer created started position stage state)
    (timely : (move.running created started .adding).isTimeout now = false) :
    move.Answers fromPeer created started state (.dispatch source pendingPeers now) := by
  have goesOn := running.follows.turn isSource turns
  have sameId : (state.report pendingPeers).id = move.original.id := goesOn.id
  have found : state.controller.getOperator (state.report pendingPeers).id =
      some (move.running created started position) := by
    rw [sameId, running.operator]
  have advanced : (move.running created started position).advance (state.report pendingPeers) =
      move.running created started following := by
    cases turns with
    | stays unfinished => exact advance_running running.follows.possible unfinished
    | goesOn finished isNext _ =>
      exact advance_running_next running.follows.possible finished isNext
  have check : ((move.running created started position).advance
      (state.report pendingPeers)).check (state.report pendingPeers) =
        some (move.stepAt following) := by
    rw [advanced]
    exact check_running goesOn.possible turns.unfinished
  have dispatched := dispatch_of_check source found timely check
  rw [advanced] at dispatched
  have stale : isStale (move.running created started following)
      (state.report pendingPeers) (move.stepAt following) = true ↔
        move.Exposed state pendingPeers :=
    (isStale_iff_of_turns isSource running.follows turns).trans
      (running.exposed_iff isSource turns).symm
  constructor
  · intro forbidden
    rw [Allowed, Classical.not_imp, not_not] at forbidden
    rw [if_pos ⟨forbidden.1, stale.mpr forbidden.2⟩] at dispatched
    simp only [Scheduling.status, Scheduling.step, dispatched]
    rw [← sameId, getOperatorStatus_finish _ sameId.symm]
    rfl
  · intro allowed
    rw [if_neg fun both => allowed both.1 (stale.mp both.2)] at dispatched
    refine .running following stage ⟨goesOn, ?_, ?_⟩
    · intro response member
      simp only [Scheduling.step, dispatched, Option.toList_some, mem_append,
        mem_singleton] at member
      cases member with
      | inl before => exact (running.asked response before).turn turns
      | inr new =>
        rw [new]
        exact Asked.command isSource goesOn
    · simp only [Scheduling.step, dispatched, getOperator, sameId,
        OrderedMap.get?_insert_same]

omit turns

theorem Running.dispatch_moved
    (running : move.Running fromPeer created started .removing .moved state) :
    (state.step (.dispatch source pendingPeers now)).status move.original.id = some .success ∧
      move.Tracks fromPeer created started (state.step (.dispatch source pendingPeers now)) := by
  have sameId : (state.report pendingPeers).id = move.original.id := running.follows.id
  have found : state.controller.getOperator (state.report pendingPeers).id =
      some (move.running created started .removing) := by
    rw [sameId, running.operator]
  have finished : (move.stepAt .removing).isFinish (state.report pendingPeers) = true :=
    isFinish_removing isSource running.follows
  have current := getElem?_steps_running created started running.follows.possible
  have advanced : (move.running created started .removing).advance (state.report pendingPeers) =
      { move.running created started .removing with
        currentStep := move.indexOf .removing + 1 } := by
    simp only [Operator.advance, current, finished, if_true, Operator.nextStep,
      if_pos (List.getElem?_eq_some_iff.mp current).1]
    rfl
  have done : ((move.running created started .removing).advance
      (state.report pendingPeers)).steps.length ≤
        ((move.running created started .removing).advance
          (state.report pendingPeers)).currentStep := by
    rw [advanced]
    change (move.running created started .removing).steps.length ≤ move.indexOf .removing + 1
    rw [steps_running, indexOf]
    split <;> simp
  have dispatched := dispatch_of_done source now found done
  have success : (state.step (.dispatch source pendingPeers now)).status move.original.id =
      some .success := by
    simp only [Scheduling.status, Scheduling.step, dispatched]
    rw [← sameId, getOperatorStatus_finish]
    · rfl
    · rw [advanced]
      exact sameId.symm
  refine ⟨success, .finished running.follows ?_ ?_ success⟩
  · simpa [Scheduling.step, dispatched] using running.asked
  · simp only [Scheduling.step, dispatched]
    rw [← sameId, getOperator_finish]

theorem not_exposed_of_moved (follows : move.Follows fromPeer position .moved state.region) :
    ¬ move.Exposed state pendingPeers := by
  intro exposed
  rcases exposed with ⟨_, _, ⟨peer, member, store⟩, _⟩
  exact follows.storeId_ne_of_moved isSource member store

theorem Running.dispatch (running : move.Running fromPeer created started position stage state)
    (timely : (move.running created started .adding).isTimeout now = false) :
    move.Answers fromPeer created started state (.dispatch source pendingPeers now) := by
  by_cases moved : stage = .moved
  · subst moved
    have last := running.follows.ended rfl
    subst last
    constructor
    · exact fun forbidden =>
        absurd (fun _ => not_exposed_of_moved isSource running.follows) forbidden
    · exact fun _ => (running.dispatch_moved isSource).2
  · rcases exists_turns isSource running.follows pendingPeers moved with ⟨following, turns⟩
    exact running.answers_of_turns isSource turns timely

omit isSource

theorem step_dispatch_of_none (follows : move.Follows fromPeer position stage state.region)
    (operator : state.controller.getOperator move.original.id = none) :
    state.step (.dispatch source pendingPeers now) = state := by
  have none : state.controller.getOperator (state.report pendingPeers).id = none := by
    rw [← operator]
    exact congrArg _ follows.id
  simp [Scheduling.step, dispatch_of_none none]

variable (tracks : move.Tracks fromPeer created started state)

include isSource tracks

theorem Tracks.dispatch (timely : (move.running created started .adding).isTimeout now = false) :
    move.Answers fromPeer created started state (.dispatch source pendingPeers now) := by
  cases tracks with
  | running position stage running => exact running.dispatch isSource timely
  | finished follows asked operator success =>
    have unchanged : state.step (.dispatch source pendingPeers now) = state :=
      step_dispatch_of_none follows operator
    constructor
    · exact fun forbidden =>
        absurd (fun _ => not_exposed_of_moved isSource follows) forbidden
    · intro _
      rw [unchanged]
      exact .finished follows asked operator success

theorem Tracks.execute (position : Nat) :
    move.Tracks fromPeer created started (state.step (.execute position)) := by
  cases sent : state.sent[position]? with
  | none => simpa [Scheduling.step, sent] using tracks
  | some response =>
    have step : state.step (.execute position) =
        { state with region := state.region.execute response } := by
      simp [Scheduling.step, sent]
    have member : response ∈ state.sent := mem_of_getElem? sent
    rw [step]
    cases tracks with
    | running current stage running =>
      rcases running.follows.execute isSource (running.asked response member) with
        ⟨later, _, goesOn⟩
      exact .running current later ⟨goesOn, running.asked, running.operator⟩
    | finished follows asked operator success =>
      rcases follows.execute isSource (asked response member) with ⟨later, same, goesOn⟩
      rw [same rfl] at goesOn
      exact .finished goesOn asked operator success

theorem Tracks.answers {event : SchedulingEvent}
    (timely : ∀ source pendingPeers now, event = .dispatch source pendingPeers now →
      (move.running created started .adding).isTimeout now = false) :
    move.Answers fromPeer created started state event := by
  cases event with
  | dispatch source pendingPeers now =>
    exact tracks.dispatch isSource (timely source pendingPeers now rfl)
  | execute position =>
    exact ⟨fun forbidden => absurd trivial forbidden,
      fun _ => tracks.execute isSource position⟩

omit isSource

theorem Tracks.not_cancelled :
    state.status move.original.id ≠ some .cancel := by
  cases tracks with
  | running position stage running =>
    simp [Scheduling.status, getOperatorStatus, running.operator]
  | finished follows asked operator success => simp [success]

omit tracks

include isSource

theorem Follows.moved_of_allExecuted (follows : move.Follows fromPeer position stage region)
    (allExecuted : move.AllExecuted region) : stage = .moved := by
  have removed := allExecuted (move.stepAt .removing) (by
    simp [operator, Operator.createMovePeerOperator, Operator.new, stepAt])
  rw [isFinish_removing isSource follows] at removed
  exact of_decide_eq_true removed

include tracks

theorem Tracks.recorded (allExecuted : move.AllExecuted state.region) :
    (state.step (.dispatch source pendingPeers now)).status move.original.id =
      some .success := by
  cases tracks with
  | running position stage running =>
    have moved := running.follows.moved_of_allExecuted isSource allExecuted
    subst moved
    have removing := running.follows.ended rfl
    subst removing
    exact (running.dispatch_moved isSource).1
  | finished follows asked operator success =>
    rw [step_dispatch_of_none follows operator]
    exact success

theorem Tracks.replaced (allExecuted : move.AllExecuted state.region) :
    state.region.peers.Perm move.wanted := by
  have peers : state.region.peers = move.peersAt fromPeer .moved := by
    cases tracks with
    | running position stage running =>
      rw [running.follows.peers, running.follows.moved_of_allExecuted isSource allExecuted]
    | finished follows asked operator success => exact follows.peers
  rw [peers]
  exact isSource.peersAt_moved_perm

end Dispatch

/-! ## Whole runs -/

def begin (move : Move) (controller : OperatorController) : Scheduling where
  controller
  region := move.original
  sent := []

variable {controller added : OperatorController} {cluster : BasicCluster}

theorem getOperator_addOperator {operator : Operator} {now : Nat}
    (accepted : controller.addOperator cluster [operator] now = some (added, true)) :
    added.getOperator operator.regionId = some (operator.start now) := by
  rw [addOperator] at accepted
  split at accepted
  · simp only [foldlM_cons, foldlM_nil, Option.bind_eq_bind, Option.map_eq_some_iff,
      Option.bind_eq_some_iff, Prod.mk.injEq] at accepted
    rcases accepted with ⟨result, ⟨locked, isLocked, same⟩, rfl, _⟩
    rw [← Option.some.inj same]
    rw [addOperatorLocked] at isLocked
    split at isLocked
    · cases isLocked
    · rw [← Option.some.inj isLocked, getOperator, OrderedMap.get?_insert_same]
  · simp at accepted

theorem tracks_begin (fromPeer : Peer)
    (accepted : controller.addOperator cluster [move.operator created] started =
      some (added, true)) :
    move.Tracks fromPeer created started (move.begin added) := by
  refine .running .adding .waiting ⟨?_, by simp [begin], getOperator_addOperator accepted⟩
  exact ⟨rfl, rfl, (UInt64.add_zero _).symm, Or.inl rfl, by simp, by simp, by simp, by simp⟩

/-- The operator succeeds just when no heartbeat is dispatched between the one that finds the new
peer settled and the removal of the old peer. -/
theorem succeeds_iff {controller added : OperatorController} {cluster : BasicCluster}
    {events : List SchedulingEvent} (valid : move.Valid)
    (accepted : controller.addOperator cluster [move.operator created] started =
      some (added, true))
    (timely : ∀ source pendingPeers now, .dispatch source pendingPeers now ∈ events →
      ((move.operator created).start started).isTimeout now = false) :
    move.Succeeds (move.begin added) events ↔
      Guarded Scheduling.step move.Allowed (move.begin added) events := by
  rcases valid.exists_isSource with ⟨fromPeer, isSource⟩
  have base := tracks_begin fromPeer accepted
  have answers : ∀ {state event}, event ∈ events → move.Tracks fromPeer created started state →
      move.Answers fromPeer created started state event := by
    intro state event member tracks
    refine tracks.answers isSource ?_
    intro source pendingPeers now same
    exact timely source pendingPeers now (same ▸ member)
  constructor
  · intro succeeds
    refine guarded_of_forall_isPrefix
      (fun state => state.status move.original.id ≠ some .cancel) base
      (fun member tracks allowed => (answers member tracks).keeps allowed) ?_
      succeeds.notCancelled
    intro state event member tracks notCancelled
    by_contra forbidden
    exact notCancelled ((answers member tracks).cancels forbidden)
  · intro guarded
    have tracks : ∀ {before}, before <+: events →
        move.Tracks fromPeer created started ((move.begin added).after before) :=
      fun isPrefix => guarded.invariant base
        (fun member tracks allowed => (answers member tracks).keeps allowed) isPrefix
    constructor
    · exact fun before isPrefix => (tracks isPrefix).not_cancelled
    · intro before source pendingPeers now isPrefix allExecuted
      rw [Scheduling.after, foldl_append]
      exact (tracks ((prefix_append _ _).trans isPrefix)).recorded isSource allExecuted
    · exact fun before isPrefix allExecuted =>
        (tracks isPrefix).replaced isSource allExecuted

/-! ## A region of three peers -/

def threePeers : RegionInfo :=
  .new {
    id := 1
    startKey := []
    endKey := []
    regionEpoch := some { confVer := 1, version := 1 }
    peers := [⟨1, 1⟩, ⟨2, 2⟩, ⟨3, 3⟩] } (some ⟨1, 1⟩)

def thirdToFourth : Move where
  original := threePeers
  fromStore := 3
  toStore := 4
  newPeerId := 4

theorem valid_thirdToFourth : thirdToFourth.Valid where
  distinct := by decide
  leader := ⟨⟨1, 1⟩, by decide, rfl⟩
  source := ⟨⟨3, 3⟩, by decide, rfl⟩
  target := by decide
  confVer := by decide

def withMove : OperatorController :=
  { OperatorController.new with
    operators := OrderedMap.empty.insert 1 ((thirdToFourth.operator 0).start 0) }

theorem addOperator_withMove :
    OperatorController.new.addOperator (BasicCluster.new.putRegion threePeers)
      [thirdToFourth.operator 0] 0 = some (withMove, true) := rfl

/-- The peer is added and settled at once, and the next heartbeat cancels the operator. -/
theorem cancelled_by_heartbeat :
    thirdToFourth.Valid ∧
    OperatorController.new.addOperator (BasicCluster.new.putRegion threePeers)
      [thirdToFourth.operator 0] 0 = some (withMove, true) ∧
    (((thirdToFourth.operator 0).start 0).isTimeout 1 = false ∧
      ((thirdToFourth.operator 0).start 0).isTimeout 2 = false) ∧
    ((thirdToFourth.begin withMove).after [.dispatch "heartbeat" [] 1, .execute 0,
      .dispatch "heartbeat" [] 2]).status 1 = some .cancel :=
  ⟨valid_thirdToFourth, addOperator_withMove, by decide, by decide⟩

theorem succeeds_by_push :
    thirdToFourth.Succeeds (thirdToFourth.begin withMove) [.dispatch "heartbeat" [] 1, .execute 0,
      .dispatch "active push" [] 2, .execute 1, .dispatch "heartbeat" [] 3] := by
  refine (succeeds_iff valid_thirdToFourth addOperator_withMove ?_).mpr ?_
  · intro source pendingPeers now member
    have early : now ≤ 3 := by
      simp at member
      omega
    simp [Operator.isTimeout, Operator.start, operator, Operator.createMovePeerOperator,
      Operator.new, seconds]
    omega
  · refine ⟨?_, trivial, ?_, trivial, ?_, trivial⟩
    · intro _ exposed
      rcases exposed with ⟨other, found, _, begun⟩
      cases found
      revert begun
      decide
    · intro same
      exact absurd same (by decide)
    · intro _ exposed
      rcases exposed with ⟨_, _, present, _⟩
      revert present
      decide

end Move

end AegisDB.Scheduler

import AegisDB.Scheduler.OperatorController
import Mathlib.Data.List.Perm.Basic

/-! # Moving a peer

The operator that moves a peer, the region that does what it is asked, and what the checks of
the operator see at each stage of the move. -/

namespace AegisDB.Scheduler

open Foundation Proto Operator List

/-! ## The region's part -/

namespace RegionInfo

def changePeers (info : RegionInfo) (peers : List Peer) : RegionInfo :=
  { info with region := { info.region with
      peers
      regionEpoch := some { info.epoch with confVer := info.epoch.confVer + 1 } } }

def execute (info : RegionInfo) (response : RegionHeartbeatResponse) : RegionInfo :=
  match response.changePeer, response.transferLeader with
  | some { peer := some peer, changeType := .addNode }, _ =>
    if (info.getPeerByStoreId peer.storeId).isSome then info
    else info.changePeers (info.peers ++ [peer])
  | some { peer := some peer, changeType := .removeNode }, _ =>
    if peer ∈ info.peers then info.changePeers (info.peers.filter (· ≠ peer)) else info
  | _, some peer => if peer ∈ info.peers then { info with leader := some peer } else info
  | _, none => info

end RegionInfo

structure Scheduling where
  controller : OperatorController
  region : RegionInfo
  sent : List RegionHeartbeatResponse

inductive SchedulingEvent where
  | dispatch (source : String) (pendingPeers : List Peer) (now : Nat)
  | execute (position : Nat)

namespace Scheduling

def report (state : Scheduling) (pendingPeers : List Peer) : RegionInfo :=
  { state.region with pendingPeers }

def step (state : Scheduling) : SchedulingEvent → Scheduling
  | .dispatch source pendingPeers now =>
    let result := state.controller.dispatch (state.report pendingPeers) source now
    { state with controller := result.1, sent := state.sent ++ result.2.toList }
  | .execute position =>
    match state.sent[position]? with
    | some response => { state with region := state.region.execute response }
    | none => state

def after (start : Scheduling) (events : List SchedulingEvent) : Scheduling :=
  events.foldl step start

def status (state : Scheduling) (regionId : UInt64) : Option OperatorStatus :=
  (state.controller.getOperatorStatus regionId).map (·.status)

end Scheduling

/-! ## The move -/

structure Move where
  original : RegionInfo
  fromStore : UInt64
  toStore : UInt64
  newPeerId : UInt64

namespace Move

def newPeer (move : Move) : Peer where
  id := move.newPeerId
  storeId := move.toStore

def operator (move : Move) (now : Nat) : Operator :=
  .createMovePeerOperator move.original move.fromStore move.toStore move.newPeerId now

structure Valid (move : Move) : Prop where
  distinct : (move.original.peers.map Peer.storeId).Nodup
  leader : ∃ peer ∈ move.original.peers, move.original.leader = some peer
  source : ∃ peer ∈ move.original.peers, peer.storeId = move.fromStore
  target : ∀ peer ∈ move.original.peers, peer.storeId ≠ move.toStore
  confVer : move.original.epoch.confVer.toNat + 2 < 2 ^ 64

def AllExecuted (move : Move) (region : RegionInfo) : Prop :=
  ∀ step ∈ (move.operator 0).steps, step.isFinish { region with pendingPeers := [] } = true

def wanted (move : Move) : List Peer :=
  move.original.peers.map fun peer => if peer.storeId = move.fromStore then move.newPeer else peer

/-- The operator is recorded as a success once its steps are done, and has replaced the peer. -/
structure Succeeds (move : Move) (start : Scheduling) (events : List SchedulingEvent) : Prop where
  notCancelled : ∀ before, before <+: events →
    (start.after before).status move.original.id ≠ some .cancel
  recorded : ∀ before source pendingPeers now,
    before ++ [.dispatch source pendingPeers now] <+: events →
    move.AllExecuted (start.after before).region →
      (start.after (before ++ [.dispatch source pendingPeers now])).status move.original.id =
        some .success
  replaced : ∀ before, before <+: events → move.AllExecuted (start.after before).region →
    (start.after before).region.peers.Perm move.wanted

/-- The operator runs, the old peer is still there, and the new one is added or reported to be. -/
def Exposed (move : Move) (state : Scheduling) (pendingPeers : List Peer) : Prop :=
  ∃ operator, state.controller.getOperator move.original.id = some operator ∧
    (∃ peer ∈ state.region.peers, peer.storeId = move.fromStore) ∧
    (0 < operator.currentStep ∨
      (OpStep.addPeer move.toStore move.newPeerId).isFinish (state.report pendingPeers) = true)

/-- No dispatch for a heartbeat finds the region with both peers. -/
def Allowed (move : Move) (state : Scheduling) : SchedulingEvent → Prop
  | .dispatch source pendingPeers _ => source = "heartbeat" → ¬ move.Exposed state pendingPeers
  | .execute _ => True

/-! ## Positions of the operator -/

inductive Position where
  | adding
  | transferring
  | removing
deriving DecidableEq

def NeedsTransfer (move : Move) : Prop :=
  move.original.getLeaderStoreId = some move.fromStore

instance (move : Move) : Decidable move.NeedsTransfer :=
  inferInstanceAs (Decidable (_ = _))

def indexOf (move : Move) : Position → Nat
  | .adding => 0
  | .transferring => 1
  | .removing => if move.NeedsTransfer then 2 else 1

def stepAt (move : Move) : Position → OpStep
  | .adding => .addPeer move.toStore move.newPeerId
  | .transferring => .transferLeader move.fromStore move.toStore
  | .removing => .removePeer move.fromStore

def running (move : Move) (created started : Nat) (position : Position) : Operator :=
  { (move.operator created).start started with currentStep := move.indexOf position }

variable {move : Move} {created started : Nat} {position : Position}

theorem steps_running :
    (move.running created started position).steps =
      if move.NeedsTransfer then
        [move.stepAt .adding, move.stepAt .transferring, move.stepAt .removing]
      else
        [move.stepAt .adding, move.stepAt .removing] := by
  by_cases needs : move.NeedsTransfer
  · have leads : move.original.getLeaderStoreId = some move.fromStore := needs
    simp [running, operator, Operator.start, Operator.createMovePeerOperator, Operator.new,
      stepAt, needs, leads]
  · have elsewhere : ¬ move.original.getLeaderStoreId = some move.fromStore := needs
    simp [running, operator, Operator.start, Operator.createMovePeerOperator, Operator.new,
      stepAt, needs, elsewhere]

theorem getElem?_steps_running (created started : Nat)
    (possible : position = .transferring → move.NeedsTransfer) :
    (move.running created started position).steps[
      (move.running created started position).currentStep]? = some (move.stepAt position) := by
  rw [steps_running]
  change (ite _ _ _)[move.indexOf position]? = _
  cases position with
  | adding =>
    by_cases needs : move.NeedsTransfer <;> simp [needs, indexOf]
  | transferring => simp [possible rfl, indexOf]
  | removing =>
    by_cases needs : move.NeedsTransfer <;> simp [needs, indexOf]

def next (move : Move) : Position → Option Position
  | .adding => if move.NeedsTransfer then some .transferring else some .removing
  | .transferring => some .removing
  | .removing => none

variable {region : RegionInfo}

variable (possible : position = .transferring → move.NeedsTransfer)

include possible

theorem advance_running (unfinished : (move.stepAt position).isFinish region = false) :
    (move.running created started position).advance region =
      move.running created started position := by
  simp [Operator.advance, getElem?_steps_running created started possible, unfinished]

theorem advance_running_next {following : Position}
    (finished : (move.stepAt position).isFinish region = true)
    (isNext : move.next position = some following) :
    (move.running created started position).advance region =
      move.running created started following := by
  have current := getElem?_steps_running created started possible
  simp only [Operator.advance, current, finished, if_true, Operator.nextStep,
    if_pos (List.getElem?_eq_some_iff.mp current).1]
  cases position with
  | adding =>
    by_cases needs : move.NeedsTransfer
    · simp only [next, needs, if_true, Option.some.injEq] at isNext
      subst isNext
      rfl
    · simp only [next, needs, if_false, Option.some.injEq] at isNext
      subst isNext
      simp [running, indexOf, needs]
  | transferring =>
    simp only [next, Option.some.injEq] at isNext
    subst isNext
    simp [running, indexOf, possible rfl]
  | removing => cases isNext

theorem check_running (unfinished : (move.stepAt position).isFinish region = false) :
    (move.running created started position).check region = some (move.stepAt position) := by
  simp [Operator.check, getElem?_steps_running created started possible, unfinished]

/-! ## Stages of the region -/

omit possible

inductive Stage where
  | waiting
  | added
  | moved
deriving DecidableEq

def peersAt (move : Move) (fromPeer : Peer) : Stage → List Peer
  | .waiting => move.original.peers
  | .added => move.original.peers ++ [move.newPeer]
  | .moved => move.original.peers.filter (· ≠ fromPeer) ++ [move.newPeer]

def changesAt : Stage → UInt64
  | .waiting => 0
  | .added => 1
  | .moved => 2

section Stages

variable {fromPeer : Peer} {stage : Stage}

/-- The move is valid, and this is the peer that leaves. -/
structure IsSource (move : Move) (fromPeer : Peer) : Prop where
  valid : move.Valid
  member : fromPeer ∈ move.original.peers
  store : fromPeer.storeId = move.fromStore
  unique : ∀ peer ∈ move.original.peers, peer.storeId = move.fromStore → peer = fromPeer

theorem Valid.exists_isSource (valid : move.Valid) : ∃ fromPeer, move.IsSource fromPeer := by
  rcases valid.source with ⟨fromPeer, member, store⟩
  refine ⟨fromPeer, valid, member, store, ?_⟩
  intro peer other sameStore
  exact inj_on_of_nodup_map valid.distinct other member (sameStore.trans store.symm)

theorem Valid.stores_ne (valid : move.Valid) : move.toStore ≠ move.fromStore := by
  rcases valid.source with ⟨fromPeer, member, store⟩
  exact fun same => valid.target fromPeer member (store.trans same.symm)

theorem mem_peersAt_newPeer (notWaiting : stage ≠ .waiting) :
    move.newPeer ∈ move.peersAt fromPeer stage := by
  cases stage with
  | waiting => exact absurd rfl notWaiting
  | added => simp [peersAt]
  | moved => simp [peersAt]

namespace IsSource

variable (isSource : move.IsSource fromPeer) (stage : Stage)

include isSource

theorem find?_toStore :
    (move.peersAt fromPeer stage).find? (·.storeId == move.toStore) =
      if stage = .waiting then none else some move.newPeer := by
  have absent : move.original.peers.find? (·.storeId == move.toStore) = none := by
    simpa using isSource.valid.target
  have kept : (move.original.peers.filter (· ≠ fromPeer)).find? (·.storeId == move.toStore) =
      none := by
    simpa using fun peer member _ => isSource.valid.target peer member
  cases stage with
  | waiting => simpa [peersAt] using absent
  | added => simp [peersAt, find?_append, absent, newPeer]
  | moved =>
    rw [peersAt, find?_append, kept]
    simp [newPeer]

theorem find?_fromStore :
    (move.peersAt fromPeer stage).find? (·.storeId == move.fromStore) =
      if stage = .moved then none else some fromPeer := by
  have found : move.original.peers.find? (·.storeId == move.fromStore) = some fromPeer := by
    cases result : move.original.peers.find? (·.storeId == move.fromStore) with
    | none =>
      have absent := find?_eq_none.mp result fromPeer isSource.member
      exact absurd isSource.store (by simpa using absent)
    | some peer =>
      have store : peer.storeId = move.fromStore := by simpa using find?_some result
      rw [isSource.unique peer (mem_of_find?_eq_some result) store]
  cases stage with
  | waiting => simpa [peersAt] using found
  | added => simp [peersAt, find?_append, found]
  | moved =>
    rw [if_pos rfl, find?_eq_none]
    intro peer member
    rw [peersAt, mem_append, mem_filter, mem_singleton] at member
    cases member with
    | inl kept =>
      simp only [beq_iff_eq]
      intro store
      exact absurd (isSource.unique peer kept.1 store) (by simpa using kept.2)
    | inr new =>
      rw [new]
      simpa [newPeer] using isSource.valid.stores_ne

theorem peersAt_moved_perm :
    (move.peersAt fromPeer .moved).Perm move.wanted := by
  rcases append_of_mem isSource.member with ⟨left, right, split⟩
  have nodup := split ▸ isSource.valid.distinct.of_map
  have others : ∀ peer ∈ left ++ right, peer ≠ fromPeer := by
    intro peer member same
    rw [same] at member
    exact (nodup_middle.mp nodup |> nodup_cons.mp).1 member
  have stores : ∀ peer ∈ left ++ right, peer.storeId ≠ move.fromStore := by
    intro peer member store
    refine others peer member (isSource.unique peer ?_ store)
    rw [split]
    rw [mem_append] at member
    simp only [mem_append, mem_cons]
    tauto
  have keep : ∀ part : List Peer, part ⊆ left ++ right →
      part.filter (· ≠ fromPeer) = part ∧
        part.map (fun peer => if peer.storeId = move.fromStore then move.newPeer else peer) =
          part := by
    intro part inside
    constructor
    · rw [filter_eq_self]
      intro peer member
      simpa using others peer (inside member)
    · conv_rhs => rw [← map_id part]
      apply map_congr_left
      intro peer member
      simp [stores peer (inside member)]
  have keepLeft := keep left (subset_append_left left right)
  have keepRight := keep right (subset_append_right left right)
  rw [peersAt, wanted, split, filter_append, filter_cons_of_neg (by simp), keepLeft.1,
    keepRight.1, map_append, map_cons, keepLeft.2, keepRight.2, if_pos isSource.store]
  exact perm_append_singleton move.newPeer (left ++ right) |>.trans perm_middle.symm

theorem any_newPeer :
    ((move.peersAt fromPeer stage).any fun peer =>
      peer.id == move.newPeerId && peer.storeId == move.toStore) = decide (stage ≠ .waiting) := by
  by_cases waiting : stage = .waiting
  · have none := isSource.valid.target
    simpa [waiting, peersAt] using fun peer member _ => none peer member
  · simpa [waiting] using ⟨move.newPeer, mem_peersAt_newPeer waiting, rfl, rfl⟩

theorem any_fromStore :
    ((move.peersAt fromPeer stage).any fun peer => peer.storeId == move.fromStore) =
      decide (stage ≠ .moved) := by
  have found := isSource.find?_fromStore stage
  by_cases moved : stage = .moved
  · rw [if_pos moved, find?_eq_none] at found
    simpa [moved] using found
  · rw [if_neg moved] at found
    simpa [moved] using ⟨fromPeer, mem_of_find?_eq_some found, isSource.store⟩

end IsSource

end Stages

/-! ## The region and the operator together -/

inductive Asked (move : Move) (fromPeer : Peer) (position : Position)
    (response : RegionHeartbeatResponse) : Prop
  | nothing (noChange : response.changePeer = none) (noTransfer : response.transferLeader = none)
  | add (change : response.changePeer =
      some { peer := some move.newPeer, changeType := .addNode })
  | transfer (later : position ≠ .adding) (needs : move.NeedsTransfer)
      (noChange : response.changePeer = none)
      (transfer : response.transferLeader = some move.newPeer)
  | remove (last : position = .removing)
      (change : response.changePeer = some { peer := some fromPeer, changeType := .removeNode })

structure Follows (move : Move) (fromPeer : Peer) (position : Position) (stage : Stage)
    (region : RegionInfo) : Prop where
  id : region.id = move.original.id
  peers : region.peers = move.peersAt fromPeer stage
  confVer : region.epoch.confVer = move.original.epoch.confVer + changesAt stage
  leader : region.leader = move.original.leader ∨
    (move.NeedsTransfer ∧ position ≠ .adding ∧ region.leader = some move.newPeer)
  handedOver : position = .removing → move.NeedsTransfer → region.leader = some move.newPeer
  started : position ≠ .adding → stage ≠ .waiting
  ended : stage = .moved → position = .removing
  possible : position = .transferring → move.NeedsTransfer

section Steps

variable {fromPeer : Peer} {stage : Stage} {region : RegionInfo}

theorem Follows.changePeers {next : Stage} (follows : move.Follows fromPeer position stage region)
    (oneMore : changesAt next = changesAt stage + 1)
    (started : position ≠ .adding → next ≠ .waiting)
    (ended : next = .moved → position = .removing) :
    move.Follows fromPeer position next (region.changePeers (move.peersAt fromPeer next)) where
  id := follows.id
  peers := rfl
  confVer := by
    change region.epoch.confVer + 1 = _
    rw [follows.confVer, oneMore, add_assoc]
  leader := follows.leader
  handedOver := follows.handedOver
  started := started
  ended := ended
  possible := follows.possible

variable {response : RegionHeartbeatResponse}

theorem Follows.executeTransfer
    (follows : move.Follows fromPeer position stage region) (later : position ≠ .adding)
    (needs : move.NeedsTransfer) (noChange : response.changePeer = none)
    (transfer : response.transferLeader = some move.newPeer) :
    move.Follows fromPeer position stage (region.execute response) := by
  have member : move.newPeer ∈ region.peers := by
    rw [follows.peers]
    exact mem_peersAt_newPeer (follows.started later)
  have executed : region.execute response = { region with leader := some move.newPeer } := by
    simp [RegionInfo.execute, noChange, transfer, member]
  rw [executed]
  exact ⟨follows.id, follows.peers, follows.confVer, Or.inr ⟨needs, later, rfl⟩, fun _ _ => rfl,
    follows.started, follows.ended, follows.possible⟩

section Execute

variable (isSource : move.IsSource fromPeer)

include isSource

theorem Follows.executeAdd (follows : move.Follows fromPeer position stage region)
    (change : response.changePeer = some { peer := some move.newPeer, changeType := .addNode }) :
    ∃ later, (stage = .moved → later = .moved) ∧
      move.Follows fromPeer position later (region.execute response) := by
  have toStore : region.getPeerByStoreId move.newPeer.storeId =
      if stage = .waiting then none else some move.newPeer := by
    rw [← isSource.find?_toStore stage, ← follows.peers]
    rfl
  by_cases waiting : stage = .waiting
  · have adding : position = .adding := by
      by_contra other
      exact follows.started other waiting
    have executed : region.execute response =
        region.changePeers (region.peers ++ [move.newPeer]) := by
      simp [RegionInfo.execute, change, toStore, waiting]
    subst waiting
    refine ⟨.added, by simp, ?_⟩
    rw [executed, follows.peers]
    exact follows.changePeers rfl (by simp) (by simp)
  · refine ⟨stage, fun same => same, ?_⟩
    simpa [RegionInfo.execute, change, toStore, waiting] using follows

theorem Follows.storeId_ne_of_moved (follows : move.Follows fromPeer position .moved region)
    {peer : Peer} (member : peer ∈ region.peers) : peer.storeId ≠ move.fromStore := by
  have none := isSource.find?_fromStore .moved
  rw [if_pos rfl, ← follows.peers] at none
  simpa using find?_eq_none.mp none peer member

theorem Follows.executeRemove (follows : move.Follows fromPeer .removing stage region)
    (change : response.changePeer = some { peer := some fromPeer, changeType := .removeNode }) :
    move.Follows fromPeer .removing .moved (region.execute response) := by
  have notWaiting := follows.started (by simp)
  cases stage with
  | waiting => exact absurd rfl notWaiting
  | added =>
    have member : fromPeer ∈ region.peers := by
      rw [follows.peers, peersAt]
      exact mem_append_left _ isSource.member
    have different : move.newPeer ≠ fromPeer := by
      intro same
      exact isSource.valid.stores_ne ((congrArg Peer.storeId same).trans isSource.store)
    have left : region.peers.filter (· ≠ fromPeer) = move.peersAt fromPeer .moved := by
      rw [follows.peers, peersAt, filter_append]
      simp [peersAt, different]
    have executed : region.execute response =
        region.changePeers (region.peers.filter (· ≠ fromPeer)) := by
      simp [RegionInfo.execute, change, member]
    rw [executed, left]
    exact follows.changePeers rfl (by simp) (by simp)
  | moved =>
    have absent : fromPeer ∉ region.peers :=
      fun member => follows.storeId_ne_of_moved isSource member isSource.store
    simpa [RegionInfo.execute, change, absent] using follows

theorem Follows.execute (follows : move.Follows fromPeer position stage region)
    (asked : move.Asked fromPeer position response) :
    ∃ later, (stage = .moved → later = .moved) ∧
      move.Follows fromPeer position later (region.execute response) := by
  cases asked with
  | nothing noChange noTransfer =>
    refine ⟨stage, fun same => same, ?_⟩
    simpa [RegionInfo.execute, noChange, noTransfer] using follows
  | add change => exact follows.executeAdd isSource change
  | transfer later needs noChange transfer =>
    exact ⟨stage, fun same => same, follows.executeTransfer later needs noChange transfer⟩
  | remove last change =>
    subst last
    exact ⟨.moved, fun _ => rfl, follows.executeRemove isSource change⟩

end Execute

/-! ## What a report shows -/

section Reports

variable {pendingPeers : List Peer}

variable (isSource : move.IsSource fromPeer)

include isSource

theorem isFinish_adding (pendingPeers : List Peer)
    (follows : move.Follows fromPeer position stage region) :
    (move.stepAt .adding).isFinish { region with pendingPeers } =
      (decide (stage ≠ .waiting) && !pendingPeers.any fun peer => peer.id == move.newPeerId) := by
  rw [← isSource.any_newPeer stage, ← follows.peers]
  rfl

theorem isFinish_removing (follows : move.Follows fromPeer position stage region) :
    (move.stepAt .removing).isFinish { region with pendingPeers } = decide (stage = .moved) := by
  have present := isSource.any_fromStore stage
  rw [← follows.peers] at present
  change (!region.peers.any _) = _
  rw [present]
  simp

theorem isFinish_transferring (follows : move.Follows fromPeer position stage region) :
    (move.stepAt .transferring).isFinish { region with pendingPeers } =
      decide (region.leader = some move.newPeer) := by
  change (region.getLeaderStoreId == some move.toStore) = _
  rcases isSource.valid.leader with ⟨peer, member, leads⟩
  have elsewhere : peer.storeId ≠ move.toStore := isSource.valid.target peer member
  have different : peer ≠ move.newPeer := fun same => elsewhere (congrArg Peer.storeId same)
  cases follows.leader with
  | inl original => simp [RegionInfo.getLeaderStoreId, original, leads, elsewhere, different]
  | inr new => simp [RegionInfo.getLeaderStoreId, new.2.2, newPeer]

theorem saturatingSub_changesAt :
    saturatingSub (move.original.epoch.confVer + changesAt stage) move.original.epoch.confVer =
      changesAt stage := by
  have room := isSource.valid.confVer
  have small : (changesAt stage).toNat ≤ 2 := by cases stage <;> decide
  have sum : (move.original.epoch.confVer + changesAt stage).toNat =
      move.original.epoch.confVer.toNat + (changesAt stage).toNat := by
    rw [UInt64.toNat_add, Nat.mod_eq_of_lt (by omega)]
  have atLeast : move.original.epoch.confVer ≤ move.original.epoch.confVer + changesAt stage := by
    rw [UInt64.le_iff_toNat_le, sum]
    omega
  rw [saturatingSub, if_pos atLeast, UInt64.add_comm, UInt64.add_sub_cancel]

theorem isStale_running (follows : move.Follows fromPeer position stage region) (step : OpStep) :
    OperatorController.isStale (move.running created started position)
        { region with pendingPeers } step =
      decide (changesAt stage >
        if step.confVerChanged { region with pendingPeers } then 1 else 0) := by
  have changes : saturatingSub region.epoch.confVer move.original.epoch.confVer =
      changesAt stage := by
    rw [follows.confVer, saturatingSub_changesAt isSource]
  rw [← changes]
  rfl

theorem not_isStale_adding
    (follows : move.Follows fromPeer position stage region) (notMoved : stage ≠ .moved) :
    OperatorController.isStale (move.running created started position)
        { region with pendingPeers } (move.stepAt .adding) = false := by
  have changed : (move.stepAt .adding).confVerChanged { region with pendingPeers } =
      decide (stage ≠ .waiting) := by
    rw [← isSource.any_newPeer stage, ← follows.peers]
    rfl
  rw [isStale_running isSource follows, changed]
  cases stage with
  | waiting => rfl
  | added => rfl
  | moved => exact absurd rfl notMoved

theorem isStale_of_added (follows : move.Follows fromPeer position .added region)
    {following : Position} (later : following ≠ .adding) :
    OperatorController.isStale (move.running created started position)
        { region with pendingPeers } (move.stepAt following) = true := by
  rw [isStale_running isSource follows]
  cases following with
  | adding => exact absurd rfl later
  | transferring => rfl
  | removing =>
    have unchanged : (move.stepAt .removing).confVerChanged { region with pendingPeers } =
        false :=
      isFinish_removing isSource follows
    rw [unchanged]
    rfl

end Reports

end Steps

end Move

end AegisDB.Scheduler

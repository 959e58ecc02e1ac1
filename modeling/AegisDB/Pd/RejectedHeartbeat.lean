import AegisDB.Pd.State
import AegisDB.Scheduler.StoreStats

/-! # Rejected region heartbeats

`handle_region_heartbeat` of `pd/state.rs` has four error exits. Three of them come before
anything is changed. The fourth, for a store without a stream, comes after the region has been
stored and its operator has been served. -/

namespace AegisDB.Scheduler

open Foundation Proto OrderedMap

/-! ## A region that is known already -/

namespace BasicCluster

structure Knows (cluster : BasicCluster) (region : RegionInfo) : Prop where
  stored : cluster.getRegion region.id = some region
  indexed : ∀ placement, ∀ storeId ∈ region.storesOf placement,
    region.id ∈ (cluster.index placement).items storeId

variable {cluster : BasicCluster} {region : RegionInfo}

theorem index_putRegion (placement : Placement) :
    (cluster.putRegion region).index placement =
      ((cluster.index placement).drop region.id
        (storesOf? placement (cluster.getRegion region.id))).add region.id
          (region.storesOf placement) := by
  rw [← index_removeMappings, ← index_insertRegion]
  cases placement <;> rfl

theorem Knows.index_putRegion (knows : cluster.Knows region) (placement : Placement) :
    (cluster.putRegion region).index placement = cluster.index placement := by
  rw [BasicCluster.index_putRegion, knows.stored]
  exact InvertedIndex.add_drop_of_mem (knows.indexed placement)

theorem putRegion_eq_self_iff :
    cluster.putRegion region = cluster ↔ cluster.Knows region ∧ cluster.StatsExact := by
  constructor
  · intro same
    refine ⟨⟨?_, ?_⟩, ?_⟩
    · rw [← same, getRegion, regions_putRegion, get?_insert_same]
    · intro placement storeId member
      rw [← same, BasicCluster.index_putRegion, InvertedIndex.mem_items_add]
      exact .inr ⟨rfl, member⟩
    · intro storeId store found
      have recomputed := getStore_putRegion cluster region storeId
      rw [same, found, Option.map_some] at recomputed
      exact StoreInfo.credit_resetStats_eq_iff.mp (Option.some.inj recomputed).symm
  · intro known
    rcases known with ⟨knows, counted⟩
    have regions : (cluster.putRegion region).regions = cluster.regions := by
      rw [regions_putRegion, insert_of_present knows.stored]
    have stores : (cluster.putRegion region).stores = cluster.stores := by
      apply OrderedMap.ext
      intro storeId
      refine (getStore_putRegion cluster region storeId).trans ?_
      simp only [share, getRegions, regions]
      cases found : cluster.getStore storeId with
      | none => exact found.symm
      | some store =>
        refine Eq.trans ?_ found.symm
        exact congrArg some (StoreInfo.credit_resetStats_eq_iff.mpr (counted storeId store found))
    have storeRegions := knows.index_putRegion .peer
    have storeLeaders := knows.index_putRegion .leader
    rcases putting : cluster.putRegion region with ⟨_, _, _, _⟩
    rw [putting] at regions stores storeRegions storeLeaders
    cases cluster
    exact congr (congr (congrArg₂ mk stores regions) storeRegions) storeLeaders

end BasicCluster

/-! ## An operator that is served -/

namespace OperatorController

variable {controller : OperatorController} {region : RegionInfo} {operator : Operator}
  {source : String} {now : Nat}

theorem check_of_advance_eq (kept : operator.advance region = operator)
    (more : operator.currentStep < operator.steps.length) : operator.check region ≠ none := by
  have current := List.getElem?_eq_getElem more
  rw [Operator.check, current]
  dsimp only
  split_ifs with finished
  · rw [Operator.advance, current] at kept
    dsimp only at kept
    rw [if_pos finished, Operator.nextStep, if_pos more] at kept
    exact absurd (congrArg Operator.currentStep kept) (Nat.succ_ne_self _)
  · exact Option.some_ne_none _

theorem dispatch_changes_or_asks (found : controller.getOperator region.id = some operator) :
    (controller.dispatch region source now).1.operators ≠ controller.operators ∨
      (controller.dispatch region source now).2.isSome := by
  have ended (changed : OperatorController) (status : OperatorStatus) :
      (changed.finish region.id (operator.advance region) status).operators ≠
        controller.operators := by
    intro same
    have gone : (changed.finish region.id (operator.advance region) status).getOperator region.id =
        none := getOperator_finish status
    rw [getOperator, same] at gone
    cases gone.symm.trans found
  rw [dispatch, found]
  dsimp only
  split
  · exact .inl (ended _ _)
  · rename_i more
    split
    · exact .inl (ended _ _)
    · split
      · rename_i unchecked
        left
        intro same
        have kept : operator.advance region = operator := by
          have present := get?_insert_same controller.operators region.id
            (operator.advance region)
          have kept := congrArg (fun operators => operators.get? region.id) same
          exact Option.some.inj (present.symm.trans (kept.trans found))
        rw [kept] at unchecked more
        exact check_of_advance_eq kept (Nat.lt_of_not_le more) unchecked
      · rename_i step checked
        split
        · exact .inl (ended _ _)
        · right
          rw [getOperator, get?_insert_same, Option.bind_some, checked]
          rfl

end OperatorController

end AegisDB.Scheduler

namespace AegisDB.Pd

open Foundation Proto Scheduler

namespace PdState

/-! ## What should be left as it is -/

structure Unchanged (before after : PdState) : Prop where
  cluster : after.cluster = before.cluster
  operators : after.operatorController.operators = before.operatorController.operators
  opRecords : after.operatorController.opRecords = before.operatorController.opRecords
  sentMessages : after.heartbeatStreams.sentMessages = before.heartbeatStreams.sentMessages
  queued : after.heartbeatStreams.queued = before.heartbeatStreams.queued

def reported (request : RegionHeartbeatRequest) : Option RegionInfo :=
  match request.header, request.region, request.leader with
  | some _, some region, some leader => some (regionInfo request region leader)
  | _, _, _ => none

/-- The region is known and counted, and no operator waits for its heartbeat. -/
structure HasNothingToDo (state : PdState) (region : RegionInfo) : Prop where
  idle : state.operatorController.getOperator region.id = none
  knows : state.cluster.Knows region
  counted : state.cluster.StatsExact

variable {state : PdState} {region : RegionInfo} {source : String} {now : Nat}

theorem sentMessages_sendMsg_ne (streams : SimpleHeartbeatStreams)
    (message : RegionHeartbeatResponse) (led : region.leader.isSome) :
    (streams.sendMsg region message).sentMessages ≠ streams.sentMessages := by
  rcases Option.isSome_iff_exists.mp led with ⟨leader, isLeader⟩
  have leads : region.getLeaderStoreId = some leader.storeId := by
    rw [RegionInfo.getLeaderStoreId, isLeader, Option.map_some]
  have longer : (streams.sendMsg region message).sentMessages =
      streams.sentMessages ++ [(region.id, message)] := by
    rw [SimpleHeartbeatStreams.sendMsg, leads]
    dsimp only
    split <;> rfl
  simp [longer]

theorem dispatch_of_idle (idle : state.operatorController.getOperator region.id = none) :
    state.dispatch region source now = state := by
  rw [dispatch, OperatorController.dispatch_of_none idle]

theorem not_unchanged_dispatch {operator : Operator} (led : region.leader.isSome)
    (found : state.operatorController.getOperator region.id = some operator)
    (operators : (state.dispatch region source now).operatorController.operators =
      state.operatorController.operators) :
    (state.dispatch region source now).heartbeatStreams.sentMessages ≠
      state.heartbeatStreams.sentMessages := by
  have served : (state.dispatch region source now).operatorController =
      (state.operatorController.dispatch region source now).1 := by
    rw [dispatch]
    dsimp only
    split <;> rfl
  rw [served] at operators
  have asks := (OperatorController.dispatch_changes_or_asks found).resolve_left
    (not_not_intro operators)
  rcases Option.isSome_iff_exists.mp asks with ⟨message, isMessage⟩
  rw [dispatch, isMessage]
  exact sentMessages_sendMsg_ne state.heartbeatStreams message led

theorem unchanged_iff_hasNothingToDo (led : region.leader.isSome) :
    Unchanged state ({ state with cluster := state.cluster.putRegion region }.dispatch region source
      now) ↔ state.HasNothingToDo region := by
  constructor
  · intro unchanged
    have cluster := (cluster_dispatch ..).symm.trans unchanged.cluster
    have known := BasicCluster.putRegion_eq_self_iff.mp cluster
    refine ⟨?_, known.1, known.2⟩
    cases found : state.operatorController.getOperator region.id with
    | none => rfl
    | some operator =>
      exact absurd unchanged.sentMessages (not_unchanged_dispatch led found unchanged.operators)
  · intro nothing
    have cluster := BasicCluster.putRegion_eq_self_iff.mpr ⟨nothing.knows, nothing.counted⟩
    rw [cluster, dispatch_of_idle nothing.idle]
    exact ⟨rfl, rfl, rfl, rfl, rfl⟩

/-- A heartbeat that is rejected leaves everything as it is exactly if a part of it is missing,
or there was nothing to do. -/
theorem rejected_unchanged_iff {request : RegionHeartbeatRequest} {message : String}
    (rejected : (state.handleRegionHeartbeat request now).2 = .error message) :
    Unchanged state (state.handleRegionHeartbeat request now).1 ↔
      reported request = none ∨
        ∃ region, reported request = some region ∧ state.HasNothingToDo region := by
  have untouched : Unchanged state state := ⟨rfl, rfl, rfl, rfl, rfl⟩
  rcases request with ⟨header, region, leader, pendingPeers, approximateSize⟩
  cases header with
  | none => exact iff_of_true untouched (.inl rfl)
  | some header =>
    cases region with
    | none => exact iff_of_true untouched (.inl rfl)
    | some region =>
      cases leader with
      | none => exact iff_of_true untouched (.inl rfl)
      | some leader =>
        simp only [reported, reduceCtorEq, Option.some.injEq, exists_eq_left', false_or]
        rw [handleRegionHeartbeat]
        dsimp only
        split
        · exact unchanged_iff_hasNothingToDo (by rw [regionInfo_eq, Option.isSome_some])
        · exact unchanged_iff_hasNothingToDo (by rw [regionInfo_eq, Option.isSome_some])

/-- A store without a stream tells of a region, which is stored although the heartbeat is
rejected. -/
theorem rejected_heartbeat_stores_region :
    (PdState.new.handleRegionHeartbeat (reporting 1) 0).2 = .error (
      "heartbeat stream for store 1 missing; " ++ "PD should have bound before processing") ∧
    ¬ Unchanged PdState.new (PdState.new.handleRegionHeartbeat (reporting 1) 0).1 := by
  refine ⟨by decide, ?_⟩
  intro unchanged
  have stored := congrArg (fun cluster => (cluster.getRegion 1).isSome) unchanged.cluster
  exact absurd stored (by decide)

theorem leaderless_heartbeat_unchanged :
    (PdState.new.handleRegionHeartbeat { reporting 1 with leader := none } 0).2 =
      .error "region heartbeat missing leader" ∧
    Unchanged PdState.new
      (PdState.new.handleRegionHeartbeat { reporting 1 with leader := none } 0).1 :=
  ⟨rfl, (rejected_unchanged_iff rfl).mpr (.inl rfl)⟩

end PdState

end AegisDB.Pd

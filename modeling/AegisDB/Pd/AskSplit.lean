import AegisDB.Foundation.Transition
import AegisDB.Raftstore.Admin

/-! # Asking for a split

`PdState::ask_split` with `pd/id_allocator.rs`, and the task of a store that makes a request of
the answer (`raftstore/runner/scheduler_task.rs`). The placement driver gives an id for one new
peer, however many the region has, and the store that executes the split puts this peer on
itself. -/

namespace AegisDB.Pd

open Foundation Proto Raftstore StoreMeta

/-! ## The answer -/

structure IdAllocator where
  counter : UInt64
deriving DecidableEq, Repr

namespace IdAllocator

def new (start : UInt64) : IdAllocator := { counter := start }

def alloc (allocator : IdAllocator) : UInt64 × IdAllocator :=
  (allocator.counter + 1, { counter := allocator.counter + 1 })

end IdAllocator

structure ResponseHeader where
  clusterId : UInt64
  error : Option String
deriving DecidableEq, Repr

structure AskSplitResponse where
  header : Option ResponseHeader
  newRegionId : UInt64
  newPeerIds : List UInt64
deriving DecidableEq, Repr

def askSplit (clusterId : UInt64) (idAllocator : IdAllocator) (region : Option Region) :
    IdAllocator × Except String AskSplitResponse :=
  match region with
  | none => (idAllocator, .error "ask split missing region")
  | some _ =>
    let (newRegionId, idAllocator) := idAllocator.alloc
    let (newPeerId, idAllocator) := idAllocator.alloc
    (idAllocator, .ok {
      header := some { clusterId, error := none }
      newRegionId
      newPeerIds := [newPeerId] })

/-! ## The split -/

def onAskSplit (response : AskSplitResponse) (splitKey : Bytes) : Except String AdminRequest :=
  match response.header.bind ResponseHeader.error with
  | some message => .error ("scheduler error: " ++ message)
  | none => .ok {
      cmdType := AdminCmdType.split.toInt
      split := some {
        splitKey
        newRegionId := response.newRegionId
        newPeerIds := response.newPeerIds } }

def splitAsAsked (clusterId : UInt64) (idAllocator : IdAllocator) (handler : AdminHandler)
    (storeMeta : StoreMeta) (region : Region) (splitKey : Bytes) : Fallible AdminResponse :=
  match (askSplit clusterId idAllocator (some region)).2 with
  | .error message => .error (.error message)
  | .ok response =>
    match onAskSplit response splitKey with
    | .error message => .error (.error message)
    | .ok request => (handler.execute storeMeta region request).2

/-! ## Where the replicas are -/

/-- The new region has one peer on each store of the old one, with different ids. -/
def KeepsReplicas (region newRegion : Region) : Prop :=
  (∀ storeId, newRegion.peers.countP (·.storeId == storeId) =
    if storeId ∈ region.peers.map Peer.storeId then 1 else 0) ∧
  (newRegion.peers.map Peer.id).Nodup

theorem keepsReplicas_singleton_iff {region newRegion : Region} {peer : Peer}
    (single : newRegion.peers = [peer]) :
    KeepsReplicas region newRegion ↔
      region.peers ≠ [] ∧ ∀ other ∈ region.peers, other.storeId = peer.storeId := by
  have counted : ∀ storeId, newRegion.peers.countP (·.storeId == storeId) =
      if peer.storeId = storeId then 1 else 0 := by
    intro storeId
    simp [single, List.countP_cons]
  constructor
  · intro ⟨placed, _⟩
    have onStore : peer.storeId ∈ region.peers.map Peer.storeId := by
      by_contra absent
      have here := placed peer.storeId
      rw [counted, if_pos rfl, if_neg absent] at here
      cases here
    refine ⟨fun noPeers => ?_, fun other member => ?_⟩
    · rw [noPeers] at onStore
      cases onStore
    · by_contra elsewhere
      have there := placed other.storeId
      rw [counted, if_neg fun same => elsewhere same.symm,
        if_pos (List.mem_map_of_mem member)] at there
      cases there
  · intro ⟨somePeers, together⟩
    refine ⟨fun storeId => ?_, by simp [single]⟩
    rw [counted]
    rcases List.exists_mem_of_ne_nil _ somePeers with ⟨other, member⟩
    have onStore : storeId ∈ region.peers.map Peer.storeId ↔ peer.storeId = storeId := by
      rw [List.mem_map]
      constructor
      · intro ⟨another, isPeer, isThere⟩
        rw [← isThere, together another isPeer]
      · intro same
        exact ⟨other, member, (together other member).trans same⟩
    simp only [onStore]

section Asked

variable {clusterId : UInt64} {idAllocator : IdAllocator} {handler : AdminHandler}
  {storeMeta : StoreMeta} {region : Region} {splitKey : Bytes} {response : AdminResponse}

theorem ok_of_splitAsAsked
    (accepted : splitAsAsked clusterId idAllocator handler storeMeta region splitKey =
      .ok response) :
    ∃ left newRegion, response.split = some { regions := [left, newRegion] } ∧
      newRegion.peers = [{ id := idAllocator.counter + 1 + 1, storeId := handler.storeId }] := by
  change (handler.executeSplit storeMeta region {
    splitKey
    newRegionId := idAllocator.counter + 1
    newPeerIds := [idAllocator.counter + 1 + 1] }).2 = .ok response at accepted
  rw [AdminHandler.executeSplit] at accepted
  split at accepted
  · cases accepted
  · split at accepted
    · cases accepted
    · split at accepted
      · cases accepted
      · rename_i newRegion created
        cases accepted
        cases created
        exact ⟨_, _, rfl, rfl⟩

end Asked

/-- A split that the placement driver has been asked for keeps the replicas exactly if the
region has all its peers on the store that executes it. -/
theorem keeps_replicas_iff (clusterId : UInt64) (idAllocator : IdAllocator)
    (handler : AdminHandler) (storeMeta : StoreMeta) (region : Region) (splitKey : Bytes)
    (response : AdminResponse)
    (accepted : splitAsAsked clusterId idAllocator handler storeMeta region splitKey =
      .ok response) :
    (∃ left newRegion, response.split = some { regions := [left, newRegion] } ∧
      KeepsReplicas region newRegion) ↔
      region.peers ≠ [] ∧ ∀ peer ∈ region.peers, peer.storeId = handler.storeId := by
  rcases ok_of_splitAsAsked accepted with ⟨left, newRegion, returned, single⟩
  rw [← keepsReplicas_singleton_iff single]
  constructor
  · intro ⟨_, _, isReturned, keeps⟩
    rw [returned] at isReturned
    cases isReturned
    exact keeps
  · intro keeps
    exact ⟨left, newRegion, returned, keeps⟩

def regionOn (stores : List UInt64) : Region where
  id := 1
  startKey := []
  endKey := []
  regionEpoch := none
  peers := stores.map fun storeId => { id := storeId, storeId }

theorem keeps_replicas_one_store :
    ∃ response, splitAsAsked 1 (.new 1000) AdminHandler.oneStore
        (.after [.setRegion (regionOn [1])]) (regionOn [1]) [0x6D] = .ok response ∧
      ∃ left newRegion, response.split = some { regions := [left, newRegion] } ∧
        KeepsReplicas (regionOn [1]) newRegion :=
  ⟨_, rfl, (keeps_replicas_iff 1 (.new 1000) AdminHandler.oneStore
    (.after [.setRegion (regionOn [1])]) (regionOn [1]) [0x6D] _ rfl).mpr (by decide)⟩

/-- Of three replicas, one is left. -/
theorem split_of_three_replicas_leaves_one :
    ∃ response left newRegion,
      splitAsAsked 1 (.new 1000) AdminHandler.oneStore
        (.after [.setRegion (regionOn [1, 2, 3])]) (regionOn [1, 2, 3]) [0x6D] = .ok response ∧
      response.split = some { regions := [left, newRegion] } ∧
      (regionOn [1, 2, 3]).peers.map Peer.storeId = [1, 2, 3] ∧
      newRegion.peers = [{ id := 1002, storeId := 1 }] ∧
      ¬ KeepsReplicas (regionOn [1, 2, 3]) newRegion := by
  refine ⟨_, _, _, rfl, rfl, rfl, rfl, ?_⟩
  rw [keepsReplicas_singleton_iff rfl]
  decide

/-! ## One split after another -/

structure SplitState where
  idAllocator : IdAllocator
  storeMeta : StoreMeta

structure AskSplitTask where
  regionId : UInt64
  splitKey : Bytes

namespace SplitState

/-- Asks with the region that is stored and executes what is answered. -/
def split (clusterId : UInt64) (handler : AdminHandler) (state : SplitState)
    (task : AskSplitTask) : SplitState :=
  let region := state.storeMeta.getRegion task.regionId
  let (idAllocator, answer) := askSplit clusterId state.idAllocator region
  match region, answer.bind (onAskSplit · task.splitKey) with
  | some region, .ok request =>
    { idAllocator, storeMeta := (handler.execute state.storeMeta region request).1 }
  | _, _ => { state with idAllocator }

/-- There are ids left, and the region is not split at its first key. -/
def allows (state : SplitState) (task : AskSplitTask) : Bool :=
  state.idAllocator.counter < 0xFFFFFFFFFFFFFFFE &&
    (state.storeMeta.getRegion task.regionId).all (task.splitKey != ·.startKey)

def Covers (storeMeta : StoreMeta) (key : Bytes) : Prop :=
  ∃ region, storeMeta.Stores region ∧ region.range.Contains key

/-- The regions are apart, their ids are used up and they have the keys of `start`. -/
structure Keeps (start : StoreMeta) (state : SplitState) : Prop where
  synced : state.storeMeta.Synced
  disjoint : state.storeMeta.Disjoint
  issued : ∀ {region}, state.storeMeta.Stores region → region.id ≤ state.idAllocator.counter
  covers : ∀ key, Covers state.storeMeta key ↔ Covers start key

variable {start : StoreMeta} {state : SplitState} {region : Region}

theorem Keeps.stores (keeps : Keeps start state) {id : UInt64}
    (found : state.storeMeta.getRegion id = some region) :
    region.id = id ∧ state.storeMeta.Stores region := by
  have same := keeps.synced.keyed found
  rw [Stores, same]
  exact ⟨rfl, found⟩

theorem Keeps.execute (keeps : Keeps start state) (stored : state.storeMeta.Stores region)
    (handler : AdminHandler) {request : SplitRequest}
    (notStart : request.splitKey ≠ region.startKey)
    (above : state.idAllocator.counter < request.newRegionId) {idAllocator : IdAllocator}
    (issued : request.newRegionId ≤ idAllocator.counter) :
    Keeps start ⟨idAllocator, (handler.executeSplit state.storeMeta region request).1⟩ := by
  have grown := above.le.trans issued
  rcases result : handler.executeSplit state.storeMeta region request with ⟨after, fault | response⟩
  · have unchanged : state.storeMeta = after := by grind [AdminHandler.executeSplit]
    subst unchanged
    exact ⟨keeps.synced, keeps.disjoint, fun old => (keeps.issued old).trans grown, keeps.covers⟩
  · rcases AdminHandler.ok_of_executeSplit result with ⟨_, inside, newRegion, created, rfl, _⟩
    have fresh : state.storeMeta.getRegion request.newRegionId = none := by
      apply Option.eq_none_iff_forall_ne_some.mpr
      intro other found
      rcases keeps.stores found with ⟨same, isStored⟩
      exact absurd above (not_lt.mpr (same ▸ keeps.issued isStored))
    have divided := AdminHandler.cut_of_accepted stored inside created notStart fresh
    refine ⟨(keeps.synced.setRegion _).setRegion _, divided.disjoint keeps.disjoint, ?_,
      fun key => (divided.union key).trans (keeps.covers key)⟩
    intro other isStored
    rcases (divided.stores other).mp isStored with rfl | rfl | ⟨_, old⟩
    · exact (keeps.issued stored).trans grown
    · exact created.id ▸ issued
    · exact (keeps.issued old).trans grown

theorem Keeps.split {task : AskSplitTask} (keeps : Keeps start state)
    (allowed : state.allows task = true) (clusterId : UInt64) (handler : AdminHandler) :
    Keeps start (state.split clusterId handler task) := by
  rcases Bool.and_eq_true_iff.mp allowed with ⟨room, notStart⟩
  rw [SplitState.split]
  cases found : state.storeMeta.getRegion task.regionId with
  | none => exact ⟨keeps.synced, keeps.disjoint, keeps.issued, keeps.covers⟩
  | some region =>
    have := of_decide_eq_true room
    rw [found, Option.all_some, bne_iff_ne] at notStart
    exact keeps.execute (keeps.stores found).2 handler notStart
      (show _ < state.idAllocator.counter + 1 by grind)
      (show _ ≤ state.idAllocator.counter + 1 + 1 by grind)

end SplitState

/-- Whatever splits are asked for, executed or rejected, every key is routed to the one
region that has it, and just the keys that had a region before have one. -/
theorem splits_keep_routing (clusterId : UInt64) (handler : AdminHandler) (start : SplitState)
    (tasks : List AskSplitTask) (apart : SplitState.Keeps start.storeMeta start)
    (allowed : Guarded (SplitState.split clusterId handler) (SplitState.allows · · = true)
      start tasks) (key : Bytes) :
    let storeMeta := (tasks.foldl (SplitState.split clusterId handler) start).storeMeta
    (∀ region, storeMeta.findRegionByKey key = some region ↔
      storeMeta.Stores region ∧ region.range.Contains key) ∧
    ((∃ region, storeMeta.findRegionByKey key = some region) ↔
      ∃ region, start.storeMeta.findRegionByKey key = some region) := by
  have keeps := allowed.invariant apart
    (fun _ keeps allowed => keeps.split allowed clusterId handler) List.prefix_rfl
  simp only [findRegionByKey_eq_some_iff keeps.synced keeps.disjoint,
    findRegionByKey_eq_some_iff apart.synced apart.disjoint, implies_true, true_and]
  exact keeps.covers key

/-- Regions 1 and 2 are split, and region 1 once more. -/
theorem splits_twoRegions :
    ∃ region, ([⟨1, [0x61]⟩, ⟨2, [0x70]⟩, ⟨1, [0x40]⟩].foldl
      (SplitState.split 1 AdminHandler.oneStore)
      ⟨.new 1000, .after twoRegions⟩).storeMeta.findRegionByKey [0x50] = some region :=
  (splits_keep_routing 1 AdminHandler.oneStore ⟨.new 1000, .after twoRegions⟩ _
    ⟨synced_after _, disjoint_twoRegions,
      fun stored => by rcases stores_twoRegions stored with rfl | rfl <;> decide,
      fun _ => Iff.rfl⟩ (by decide) [0x50]).2.mpr ⟨_, rfl⟩

end AegisDB.Pd

import AegisDB.Scheduler.Cluster
import Mathlib.Data.List.Induction
import Mathlib.Data.Set.Basic

/-! # Two heartbeats at once

Two calls of `put_region` for one region, section by section. A call removes the mappings of
the region it has read, so those of the other call stay behind when that one inserts in
between. -/

namespace AegisDB.Scheduler

open Foundation Proto List

/-! ## Interleaved calls -/

inductive Side where
  | left
  | right
deriving DecidableEq, Repr

def Side.other : Side → Side
  | .left => .right
  | .right => .left

inductive PutPhase where
  | called
  | read (old : Option RegionInfo)
  | removed
  | inserted
  | finished
deriving DecidableEq, Repr

structure Puts where
  cluster : BasicCluster
  phases : Side → PutPhase

namespace Puts

def advance (cluster : BasicCluster) (region : RegionInfo) : PutPhase → BasicCluster × PutPhase
  | .called => (cluster, .read (cluster.getRegion region.id))
  | .read old => (cluster.removeMappings region.id old, .removed)
  | .removed => (cluster.insertRegion region, .inserted)
  | .inserted => (cluster.updateStoreStats, .finished)
  | .finished => (cluster, .finished)

def step (calls : Side → RegionInfo) (puts : Puts) (side : Side) : Puts where
  cluster := (advance puts.cluster (calls side) (puts.phases side)).1
  phases := Function.update puts.phases side
    (advance puts.cluster (calls side) (puts.phases side)).2

def start (cluster : BasicCluster) : Puts where
  cluster
  phases := fun _ => .called

def run (calls : Side → RegionInfo) (cluster : BasicCluster) (schedule : List Side) : Puts :=
  schedule.foldl (step calls) (start cluster)

theorem cluster_run_alone (calls : Side → RegionInfo) (cluster : BasicCluster) (side : Side) :
    (run calls cluster (List.replicate 4 side)).cluster = cluster.putRegion (calls side) := by
  simp [run, start, step, advance, List.replicate, BasicCluster.putRegion]

end Puts

/-! ## What the cluster holds of one region -/

structure Holding (cluster : BasicCluster) (regionId : UInt64) (info : Option RegionInfo)
    (stores : Placement → Set UInt64) : Prop where
  region : cluster.getRegion regionId = info
  mapped : ∀ placement storeId,
    regionId ∈ (cluster.index placement).items storeId ↔ storeId ∈ stores placement

namespace Holding

variable {cluster : BasicCluster} {regionId : UInt64} {info : Option RegionInfo}
  {stores : Placement → Set UInt64}

variable (holding : Holding cluster regionId info stores)

include holding

theorem exactAt_iff :
    cluster.ExactAt regionId ↔
      ∀ placement,
        stores placement = {storeId | storeId ∈ BasicCluster.storesOf? placement info} := by
  have stored : cluster.regions.get? regionId = info := holding.region
  constructor
  · intro exact placement
    ext storeId
    rw [← holding.mapped, exact placement storeId, stored]
    rfl
  · intro same placement storeId
    rw [holding.mapped, same, stored]
    rfl

theorem removeMappings (old : Option RegionInfo) :
    Holding (cluster.removeMappings regionId old) regionId info
      fun placement => stores placement \ {storeId | storeId ∈
        BasicCluster.storesOf? placement old} where
  region := by
    rw [← holding.region, BasicCluster.getRegion, BasicCluster.regions_removeMappings]
    rfl
  mapped := by
    intro placement storeId
    rw [BasicCluster.index_removeMappings, InvertedIndex.mem_items_drop, holding.mapped]
    simp

theorem insertRegion {region : RegionInfo} (sameId : region.id = regionId) :
    Holding (cluster.insertRegion region) regionId (some region)
      fun placement => stores placement ∪ {storeId | storeId ∈ region.storesOf placement} where
  region := by
    rw [BasicCluster.getRegion, BasicCluster.insertRegion, sameId, OrderedMap.get?_insert_same]
  mapped := by
    intro placement storeId
    rw [BasicCluster.index_insertRegion, InvertedIndex.mem_items_add, holding.mapped, sameId]
    simp

theorem updateStoreStats :
    Holding cluster.updateStoreStats regionId info stores where
  region := holding.region
  mapped := by
    intro placement
    cases placement with
    | peer => exact holding.mapped .peer
    | leader => exact holding.mapped .leader

end Holding

/-! ## Who inserts first -/

theorem Side.eq_or_eq_other (side first : Side) : side = first ∨ side = first.other := by
  cases side <;> cases first <;> simp [other]

@[simp] theorem Side.other_ne (side : Side) : side.other ≠ side := by
  cases side <;> simp [other]

@[simp] theorem Side.ne_other (side : Side) : side ≠ side.other := (other_ne side).symm

structure FirstInsert (schedule early : List Side) (first : Side) (late : List Side) : Prop where
  split : schedule = early ++ first :: late
  own : early.count first = 2
  others : early.count first.other ≤ 2

theorem exists_firstInsert {schedule : List Side} {side : Side}
    (inserts : 3 ≤ schedule.count side) :
    ∃ early first late, FirstInsert schedule early first late := by
  induction schedule using List.reverseRecOn generalizing side with
  | nil => simp at inserts
  | append_singleton schedule last induction =>
    by_cases earlier : ∃ other, 3 ≤ schedule.count other
    · rcases earlier with ⟨other, three⟩
      rcases induction three with ⟨early, first, late, insert⟩
      exact ⟨early, first, late ++ [last], by rw [insert.split]; simp, insert.own, insert.others⟩
    · have few : ∀ other, schedule.count other ≤ 2 := by
        intro other
        by_contra many
        exact earlier ⟨other, by omega⟩
      have same : last = side := by
        by_contra different
        rw [count_append, count_singleton, beq_false_of_ne different] at inserts
        exact earlier ⟨side, by simpa using inserts⟩
      rw [same, count_append, count_singleton_self] at inserts
      have two : schedule.count side = 2 := by
        have := few side
        omega
      exact ⟨schedule, side, [], by rw [same], two, few side.other⟩

/-! ## Before the first insertion -/

section Runs

variable {calls : Side → RegionInfo} {cluster : BasicCluster} {regionId : UInt64}

namespace Puts

def earlyPhase (old : Option RegionInfo) : Nat → PutPhase
  | 0 => .called
  | 1 => .read old
  | _ => .removed

structure Early (cluster : BasicCluster) (regionId : UInt64) (schedule : List Side)
    (puts : Puts) : Prop where
  phases : ∀ side, puts.phases side = earlyPhase (cluster.getRegion regionId) (schedule.count side)
  region : puts.cluster.getRegion regionId = cluster.getRegion regionId
  within : ∀ {placement storeId}, regionId ∈ (puts.cluster.index placement).items storeId →
    storeId ∈ BasicCluster.storesOf? placement (cluster.getRegion regionId)
  gone : ∀ {side}, schedule.count side = 2 →
    ∀ {placement storeId}, regionId ∉ (puts.cluster.index placement).items storeId

variable {schedule : List Side} {puts : Puts} {side : Side}

variable (sameId : ∀ side, (calls side).id = regionId)

include sameId

theorem Early.step_called (early : Early cluster regionId schedule puts)
    (zero : schedule.count side = 0) :
    Early cluster regionId (schedule ++ [side]) (puts.step calls side) := by
  have phase := early.phases side
  rw [zero, earlyPhase] at phase
  have unchanged : (puts.step calls side).cluster = puts.cluster := by
    simp [Puts.step, phase, advance]
  constructor
  · intro other
    by_cases same : other = side
    · simp [Puts.step, same, phase, advance, sameId, zero, earlyPhase, early.region]
    · simp [Puts.step, same, early.phases other, Ne.symm same]
  · rw [unchanged, early.region]
  · rw [unchanged]
    exact early.within
  · intro other two
    rw [unchanged]
    by_cases same : other = side
    · simp [same, zero] at two
    · exact early.gone (by simpa [Ne.symm same] using two)

theorem Early.step_read (early : Early cluster regionId schedule puts)
    (one : schedule.count side = 1) :
    Early cluster regionId (schedule ++ [side]) (puts.step calls side) := by
  have phase := early.phases side
  rw [one, earlyPhase] at phase
  have removed : (puts.step calls side).cluster =
      puts.cluster.removeMappings regionId (cluster.getRegion regionId) := by
    simp [Puts.step, phase, advance, sameId]
  have none : ∀ {placement storeId},
      regionId ∉ ((puts.step calls side).cluster.index placement).items storeId := by
    intro placement storeId member
    rw [removed, BasicCluster.index_removeMappings, InvertedIndex.mem_items_drop] at member
    exact member.2 ⟨rfl, early.within member.1⟩
  constructor
  · intro other
    by_cases same : other = side
    · simp [Puts.step, same, phase, advance, one, earlyPhase]
    · simp [Puts.step, same, early.phases other, Ne.symm same]
  · rw [removed, BasicCluster.getRegion, BasicCluster.regions_removeMappings]
    exact early.region
  · exact fun member => absurd member none
  · exact fun _ => none

theorem early_run (exact : cluster.ExactAt regionId) (few : ∀ side, schedule.count side ≤ 2) :
    Early cluster regionId schedule (run calls cluster schedule) := by
  induction schedule using List.reverseRecOn with
  | nil =>
    exact ⟨fun _ => rfl, rfl, fun {placement storeId} => (exact placement storeId).mp, by simp⟩
  | append_singleton schedule side induction =>
    rw [run, foldl_append, foldl_cons, foldl_nil]
    have early := induction fun other =>
      ((sublist_append_left schedule [side]).count_le other).trans (few other)
    have last : schedule.count side < 2 := by
      have := few side
      rw [count_append, count_singleton_self] at this
      omega
    cases Nat.lt_succ_iff_lt_or_eq.mp last with
    | inl zero => exact early.step_called sameId (Nat.lt_one_iff.mp zero)
    | inr one => exact early.step_read sameId one

/-! ## After the first insertion -/

omit sameId

def leftover (done : Nat) (old : Option RegionInfo) (first : RegionInfo) (placement : Placement) :
    Set UInt64 :=
  match done with
  | 0 => ∅
  | 1 => {storeId | storeId ∈ first.storesOf placement} \
      {storeId | storeId ∈ BasicCluster.storesOf? placement old}
  | _ => {storeId | storeId ∈ first.storesOf placement}

def LateHolding (regionId : UInt64) (first second : RegionInfo)
    (left : Placement → Set UInt64) (cluster : BasicCluster) : PutPhase → Prop
  | .called => Holding cluster regionId (some first)
      (fun placement => {storeId | storeId ∈ first.storesOf placement}) ∧
      left = fun _ => ∅
  | .read old => Holding cluster regionId (some first)
      (fun placement => {storeId | storeId ∈ first.storesOf placement}) ∧
      left = fun placement => {storeId | storeId ∈ first.storesOf placement} \
        {storeId | storeId ∈ BasicCluster.storesOf? placement old}
  | .removed => Holding cluster regionId (some first) left
  | .inserted | .finished => Holding cluster regionId (some second)
      fun placement => left placement ∪ {storeId | storeId ∈ second.storesOf placement}

structure Late (calls : Side → RegionInfo) (regionId : UInt64) (first : Side)
    (left : Placement → Set UInt64) (puts : Puts) : Prop where
  own : puts.phases first = .inserted ∨ puts.phases first = .finished
  holding : LateHolding regionId (calls first) (calls first.other) left puts.cluster
    (puts.phases first.other)

variable {second : RegionInfo} {left : Placement → Set UInt64} {phase : PutPhase}

theorem LateHolding.updateStoreStats {first : RegionInfo}
    (holding : LateHolding regionId first second left cluster phase) :
    LateHolding regionId first second left cluster.updateStoreStats phase := by
  cases phase with
  | called => exact ⟨holding.1.updateStoreStats, holding.2⟩
  | read old => exact ⟨holding.1.updateStoreStats, holding.2⟩
  | removed => exact Holding.updateStoreStats holding
  | inserted => exact Holding.updateStoreStats holding
  | finished => exact Holding.updateStoreStats holding

theorem LateHolding.advance {first : RegionInfo} (sameId : second.id = regionId)
    (holding : LateHolding regionId first second left cluster phase) :
    LateHolding regionId first second left (Puts.advance cluster second phase).1
      (Puts.advance cluster second phase).2 := by
  cases phase with
  | called =>
    rcases holding with ⟨holding, rfl⟩
    refine ⟨holding, ?_⟩
    funext placement
    rw [sameId, holding.region]
    exact Set.sdiff_self.symm
  | read old =>
    rcases holding with ⟨holding, rfl⟩
    have removed := holding.removeMappings old
    rw [← sameId] at removed ⊢
    exact removed
  | removed => exact Holding.insertRegion holding sameId
  | inserted => exact Holding.updateStoreStats holding
  | finished => exact holding

variable {first : Side}

include sameId

theorem Late.step (late : Late calls regionId first left puts) :
    Late calls regionId first left (puts.step calls side) := by
  cases side.eq_or_eq_other first with
  | inl same =>
    subst same
    have own : (puts.step calls side).phases side = .finished := by
      cases late.own with
      | inl inserted => simp [Puts.step, inserted, advance]
      | inr finished => simp [Puts.step, finished, advance]
    refine ⟨Or.inr own, ?_⟩
    have others : (puts.step calls side).phases side.other = puts.phases side.other := by
      simp [Puts.step]
    rw [others]
    cases late.own with
    | inl inserted =>
      have cluster : (puts.step calls side).cluster = puts.cluster.updateStoreStats := by
        simp [Puts.step, inserted, advance]
      rw [cluster]
      exact late.holding.updateStoreStats
    | inr finished =>
      have cluster : (puts.step calls side).cluster = puts.cluster := by
        simp [Puts.step, finished, advance]
      rw [cluster]
      exact late.holding
  | inr other =>
    subst other
    have own : (puts.step calls first.other).phases first = puts.phases first := by
      simp [Puts.step]
    refine ⟨own ▸ late.own, ?_⟩
    have others : (puts.step calls first.other).phases first.other =
        (advance puts.cluster (calls first.other) (puts.phases first.other)).2 := by
      simp [Puts.step]
    rw [others]
    exact late.holding.advance (sameId first.other)

theorem Late.run (late : Late calls regionId first left puts) (schedule : List Side) :
    Late calls regionId first left (schedule.foldl (Puts.step calls) puts) := by
  induction schedule generalizing puts with
  | nil => exact late
  | cons side rest induction => exact induction (late.step sameId)

variable {early : List Side}

theorem Early.late (state : Early cluster regionId early puts) (own : early.count first = 2)
    (others : early.count first.other ≤ 2) :
    Late calls regionId first
      (leftover (early.count first.other) (cluster.getRegion regionId) (calls first))
      (puts.step calls first) := by
  have phase := state.phases first
  rw [own, earlyPhase] at phase
  · have otherPhase : (puts.step calls first).phases first.other =
        earlyPhase (cluster.getRegion regionId) (early.count first.other) := by
      simp [Puts.step, state.phases]
    have inserted : (puts.step calls first).cluster = puts.cluster.insertRegion (calls first) := by
      simp [Puts.step, phase, advance]
    have nothing : Holding puts.cluster regionId (cluster.getRegion regionId) fun _ => ∅ :=
      ⟨state.region, fun placement storeId => iff_of_false (state.gone own) (by simp)⟩
    have holding : Holding (puts.cluster.insertRegion (calls first)) regionId (some (calls first))
        fun placement => {storeId | storeId ∈ (calls first).storesOf placement} := by
      simpa using nothing.insertRegion (sameId first)
    refine ⟨Or.inl (by simp [Puts.step, phase, advance]), ?_⟩
    rw [otherPhase, inserted]
    generalize early.count first.other = done at others
    match done with
    | 0 => exact ⟨holding, rfl⟩
    | 1 => exact ⟨holding, rfl⟩
    | 2 => exact holding
  · simp
  · simp

theorem exactAt_run_iff_of_firstInsert {late : List Side} (exact : cluster.ExactAt regionId)
    (insert : FirstInsert schedule early first late)
    (finished : (run calls cluster schedule).phases first.other = .finished) :
    (run calls cluster schedule).cluster.ExactAt regionId ↔
      ∀ placement,
        leftover (early.count first.other) (cluster.getRegion regionId) (calls first) placement ⊆
          {storeId | storeId ∈ (calls first.other).storesOf placement} := by
  have few : ∀ side, early.count side ≤ 2 := by
    intro side
    cases side.eq_or_eq_other first with
    | inl same => rw [same, insert.own]
    | inr other => rw [other]; exact insert.others
  have state := ((early_run sameId exact few).late sameId insert.own insert.others).run sameId late
  have whole : late.foldl (Puts.step calls) ((run calls cluster early).step calls first) =
      run calls cluster schedule := by
    rw [insert.split, run, run, foldl_append, foldl_cons]
  rw [whole] at state
  have holding := state.holding
  rw [finished] at holding
  rw [Holding.exactAt_iff holding]
  exact forall_congr' fun placement => Set.union_eq_right

omit sameId

/-- Both calls done, the mappings of the region are exact just when the call that inserts last
has read after the other one's insertion, or what it leaves behind of the other one's stores are
stores of its own. -/
theorem exactAt_run_iff {schedule : List Side} (sameId : ∀ side, (calls side).id = regionId)
    (exact : cluster.ExactAt regionId)
    (finished : ∀ side, (run calls cluster schedule).phases side = .finished) :
    (run calls cluster schedule).cluster.ExactAt regionId ↔
      ∀ early first late, FirstInsert schedule early first late → ∀ placement,
        leftover (early.count first.other) (cluster.getRegion regionId) (calls first) placement ⊆
          {storeId | storeId ∈ (calls first.other).storesOf placement} := by
  constructor
  · intro exactly early first late insert
    exact (exactAt_run_iff_of_firstInsert sameId exact insert (finished first.other)).mp exactly
  · intro contained
    have inserts : ∃ side, 3 ≤ schedule.count side := by
      by_contra none
      have few : ∀ side, schedule.count side ≤ 2 := by
        intro side
        by_contra many
        exact none ⟨side, by omega⟩
      have phase := finished .left
      rw [(early_run sameId exact few).phases] at phase
      unfold earlyPhase at phase
      split at phase <;> cases phase
    rcases inserts with ⟨side, three⟩
    rcases exists_firstInsert three with ⟨early, first, late, insert⟩
    exact (exactAt_run_iff_of_firstInsert sameId exact insert (finished first.other)).mpr
      (contained early first late insert)

end Puts

end Runs

/-! ## A region on one store, reported from two -/

def peerOn (storeId : UInt64) : Peer where
  id := storeId
  storeId

def regionOn (storeId : UInt64) : Region where
  id := 1
  startKey := []
  endKey := []
  regionEpoch := none
  peers := [peerOn storeId]

def reports : Side → RegionInfo
  | .left => .new (regionOn 1) (some (peerOn 1))
  | .right => .new (regionOn 2) (some (peerOn 2))

def takingTurns : List Side := [.left, .right, .left, .right, .left, .right, .left, .right]

def oneAfterOther : List Side := List.replicate 4 .left ++ List.replicate 4 .right

/-- Both have found no region, and the mappings of the first to insert are never removed. -/
theorem stale_mapping_remains :
    (∀ side, (Puts.run reports .new takingTurns).phases side = .finished) ∧
    (Puts.run reports .new takingTurns).cluster.getRegion 1 = some (reports .right) ∧
    1 ∈ (Puts.run reports .new takingTurns).cluster.storeRegions.items 1 ∧
    ¬ ∃ peer ∈ (reports .right).peers, peer.storeId = 1 := by
  refine ⟨?_, by decide, by decide, by decide⟩
  intro side
  cases side <;> rfl

theorem exactAt_oneAfterOther : (Puts.run reports .new oneAfterOther).cluster.ExactAt 1 := by
  refine (Puts.exactAt_run_iff ?_ ?_ ?_).mpr ?_
  · intro side
    cases side <;> rfl
  · exact BasicCluster.exactAt_after [] 1
  · intro side
    cases side <;> rfl
  · intro early first late insert placement
    have unread : ∀ early ∈ oneAfterOther.inits, ∀ first ∈ [Side.left, .right],
        early.count first = 2 → early.count first.other ≤ 2 → early.count first.other = 0 := by
      decide
    have isInit : early ∈ oneAfterOther.inits := (mem_inits _ _).mpr ⟨_, insert.split.symm⟩
    rw [unread early isInit first (by cases first <;> simp) insert.own insert.others]
    exact Set.empty_subset _

end AegisDB.Scheduler

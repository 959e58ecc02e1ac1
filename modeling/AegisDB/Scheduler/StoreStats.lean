import AegisDB.Foundation.RunningTotal
import AegisDB.Foundation.Transition
import AegisDB.Scheduler.Cluster
import Mathlib.Logic.Function.Iterate

/-! # The statistics of the stores

How many regions and leaders a store has, and their sizes, are kept in its `StoreInfo`.
`update_store_stats` of `scheduler/cluster/basic_cluster.rs` computes them from the regions
whenever a region is put, but not when a store is. -/

namespace AegisDB.Scheduler

open Foundation Proto Function OrderedMap StoreInfo List

/-! ## What a region counts for -/

namespace RegionInfo

def size (info : RegionInfo) : Nat := info.approximateSize.toNat

def share (info : RegionInfo) (placement : Placement) (weight : RegionInfo → Nat)
    (storeId : UInt64) : Nat :=
  (info.storesOf placement).count storeId * weight info

variable {info : RegionInfo} {placement : Placement} {weight : RegionInfo → Nat} {storeId : UInt64}

theorem nodup_storesOf (distinct : (info.storesOf .peer).Nodup) (placement : Placement) :
    (info.storesOf placement).Nodup := by
  cases placement with
  | peer => exact distinct
  | leader =>
    rw [storesOf]
    cases info.getLeaderStoreId <;> simp

theorem share_of_nodup (distinct : (info.storesOf placement).Nodup) :
    info.share placement weight storeId =
      if storeId ∈ info.storesOf placement then weight info else 0 := by
  rw [share, distinct.count]
  split
  · exact Nat.one_mul _
  · exact Nat.zero_mul _

end RegionInfo

namespace BasicCluster

def regionsOn (cluster : BasicCluster) (placement : Placement) (storeId : UInt64) :
    List RegionInfo :=
  cluster.getRegions.filter fun region => storeId ∈ region.storesOf placement

def share (cluster : BasicCluster) (placement : Placement) (weight : RegionInfo → Nat)
    (storeId : UInt64) : Nat :=
  totalSize (·.share placement weight storeId) cluster.getRegions

def DistinctPeers (cluster : BasicCluster) : Prop :=
  ∀ region ∈ cluster.getRegions, (region.storesOf .peer).Nodup

variable {cluster : BasicCluster} {placement : Placement} {weight : RegionInfo → Nat}
  {storeId : UInt64}

variable {region : RegionInfo}

theorem mem_getRegions :
    region ∈ cluster.getRegions ↔ ∃ regionId, cluster.getRegion regionId = some region :=
  mem_values_iff

theorem share_le_share (member : region ∈ cluster.getRegions) :
    region.share placement weight storeId ≤ cluster.share placement weight storeId :=
  @size_le_totalSize _ (·.share placement weight storeId) _ _ member

theorem DistinctPeers.share_eq (distinct : cluster.DistinctPeers) :
    cluster.share placement weight storeId =
      totalSize weight (cluster.regionsOn placement storeId) := by
  rw [share, regionsOn, totalSize_filter]
  apply totalSize_congr
  intro region member
  rw [RegionInfo.share_of_nodup (RegionInfo.nodup_storesOf (distinct region member) placement)]
  simp only [decide_eq_true_eq]

theorem length_regionsOn (exact : ∀ regionId, cluster.ExactAt regionId) :
    (cluster.regionsOn placement storeId).length =
      ((cluster.index placement).items storeId).card := by
  rw [card_items exact, length_keysWhere, countP_eq_length_filter]
  rfl

end BasicCluster

/-! ## What the recomputation stores -/

namespace StoreInfo

def credit (store : StoreInfo) (counts sizes : Placement → Nat) : StoreInfo :=
  { store with
    regionCount := store.regionCount + counts .peer
    leaderCount := store.leaderCount + counts .leader
    regionSize := store.regionSize + UInt64.ofNat (sizes .peer)
    leaderSize := store.leaderSize + UInt64.ofNat (sizes .leader) }

variable {store : StoreInfo}

theorem credit_zero : store.credit (fun _ => 0) (fun _ => 0) = store := by
  simp [credit]

theorem credit_credit (counts sizes moreCounts moreSizes : Placement → Nat) :
    (store.credit counts sizes).credit moreCounts moreSizes =
      store.credit (fun placement => counts placement + moreCounts placement)
        fun placement => sizes placement + moreSizes placement := by
  simp [credit, UInt64.ofNat_add, Nat.add_assoc, UInt64.add_assoc]

theorem credit_resetStats_eq_iff {counts sizes : Placement → Nat} :
    store.resetStats.credit counts sizes = store ↔
      store.regionCount = counts .peer ∧ store.leaderCount = counts .leader ∧
      store.regionSize = UInt64.ofNat (sizes .peer) ∧
      store.leaderSize = UInt64.ofNat (sizes .leader) := by
  rcases store with ⟨_, _, _, leaderCount, regionCount, leaderSize, regionSize, _, _⟩
  simp only [StoreInfo.credit, StoreInfo.resetStats, StoreInfo.mk.injEq, Nat.zero_add,
    UInt64.zero_add, true_and, and_true]
  tauto

theorem iterate_credit (counts sizes : Placement → Nat) (times : Nat) :
    (·.credit counts sizes)^[times] store =
      store.credit (fun placement => times * counts placement)
        fun placement => times * sizes placement := by
  induction times generalizing store with
  | zero => simp [credit_zero]
  | succ times induction =>
    rw [iterate_succ_apply, induction, credit_credit]
    simp only [Nat.succ_mul, Nat.add_comm]

def only (placement : Placement) (amount : Nat) : Placement → Nat :=
  fun other => if other = placement then amount else 0

theorem addRegion_eq_credit (size : UInt64) :
    store.addRegion size = store.credit (only .peer 1) (only .peer size.toNat) := by
  simp [addRegion, credit, only]

theorem addLeader_eq_credit (size : UInt64) :
    store.addLeader size = store.credit (only .leader 1) (only .leader size.toNat) := by
  simp [addLeader, credit, only]

end StoreInfo

namespace BasicCluster

variable {stores : OrderedMap UInt64 StoreInfo} {storeId : UInt64}

theorem get?_changeStore (changed : UInt64) (change : StoreInfo → StoreInfo) :
    (changeStore stores changed change).get? storeId =
      if storeId = changed then (stores.get? storeId).map change else stores.get? storeId := by
  rw [changeStore]
  by_cases same : storeId = changed
  · subst same
    cases found : stores.get? storeId with
    | none => simp [found]
    | some store => simp
  · cases stores.get? changed with
    | none => simp [same]
    | some store => simp [get?_insert_other _ _ same, same]

theorem get?_foldl_changeStore (change : StoreInfo → StoreInfo) (storeIds : List UInt64) :
    (storeIds.foldl (fun stores storeId => changeStore stores storeId change) stores).get? storeId =
      (stores.get? storeId).map change^[storeIds.count storeId] := by
  induction storeIds generalizing stores with
  | nil => simp
  | cons first rest induction =>
    rw [foldl_cons, induction, get?_changeStore, count_cons]
    by_cases same : storeId = first
    · subst same
      simp [iterate_succ]
    · simp [same, Ne.symm same]

theorem get?_countRegion (region : RegionInfo) :
    (countRegion stores region).get? storeId =
      (stores.get? storeId).map (·.credit (region.share · (fun _ => 1) storeId)
        (region.share · RegionInfo.size storeId)) := by
  have peers : region.peers.foldl (fun stores peer =>
      changeStore stores peer.storeId (·.addRegion region.approximateSize)) stores =
      (region.storesOf .peer).foldl (fun stores storeId =>
        changeStore stores storeId (·.addRegion region.approximateSize)) stores := by
    rw [RegionInfo.storesOf, foldl_map]
  have whole : countRegion stores region =
      (region.storesOf .leader).foldl (fun stores storeId =>
        changeStore stores storeId (·.addLeader region.approximateSize))
        ((region.storesOf .peer).foldl (fun stores storeId =>
          changeStore stores storeId (·.addRegion region.approximateSize)) stores) := by
    rw [countRegion, ← peers, RegionInfo.storesOf]
    cases region.getLeaderStoreId <;> rfl
  rw [whole, get?_foldl_changeStore, get?_foldl_changeStore, Option.map_map]
  congr 1
  funext store
  simp only [comp_apply, addRegion_eq_credit, addLeader_eq_credit,
    iterate_credit, credit_credit]
  congr 1
  · funext placement
    cases placement <;> simp [StoreInfo.only, RegionInfo.share]
  · funext placement
    cases placement <;> simp [StoreInfo.only, RegionInfo.share, RegionInfo.size]

theorem get?_foldl_countRegion (regions : List RegionInfo) :
    (regions.foldl countRegion stores).get? storeId =
      (stores.get? storeId).map (·.credit
        (fun placement => totalSize (·.share placement (fun _ => 1) storeId) regions)
        (fun placement => totalSize (·.share placement RegionInfo.size storeId) regions)) := by
  induction regions generalizing stores with
  | nil => simp [credit_zero]
  | cons region rest induction =>
    rw [foldl_cons, induction, get?_countRegion, Option.map_map]
    congr 1
    funext store
    rw [comp_apply, credit_credit]
    rfl

theorem getStore_updateStoreStats (cluster : BasicCluster) (storeId : UInt64) :
    cluster.updateStoreStats.getStore storeId =
      (cluster.getStore storeId).map (·.resetStats.credit
        (cluster.share · (fun _ => 1) storeId) (cluster.share · RegionInfo.size storeId)) := by
  change (cluster.getRegions.foldl countRegion _).get? storeId = _
  rw [get?_foldl_countRegion, get?_mapValues, Option.map_map]
  rfl

theorem getStore_putRegion (cluster : BasicCluster) (region : RegionInfo) (storeId : UInt64) :
    (cluster.putRegion region).getStore storeId =
      (cluster.getStore storeId).map (·.resetStats.credit
        ((cluster.putRegion region).share · (fun _ => 1) storeId)
        ((cluster.putRegion region).share · RegionInfo.size storeId)) := by
  have stores : (cluster.removeMappings region.id (cluster.getRegion region.id)).stores =
      cluster.stores := by
    cases cluster.getRegion region.id <;> rfl
  refine (getStore_updateStoreStats _ storeId).trans ?_
  rw [getStore, insertRegion, stores]
  rfl

def StatsExact (cluster : BasicCluster) : Prop :=
  ∀ storeId store, cluster.getStore storeId = some store →
    store.regionCount = cluster.share .peer (fun _ => 1) storeId ∧
    store.leaderCount = cluster.share .leader (fun _ => 1) storeId ∧
    store.regionSize = UInt64.ofNat (cluster.share .peer RegionInfo.size storeId) ∧
    store.leaderSize = UInt64.ofNat (cluster.share .leader RegionInfo.size storeId)

theorem updateStoreStats_eq_self_iff {cluster : BasicCluster} :
    cluster.updateStoreStats = cluster ↔ cluster.StatsExact := by
  constructor
  · intro same storeId store found
    have recomputed := cluster.getStore_updateStoreStats storeId
    rw [same, found, Option.map_some] at recomputed
    exact credit_resetStats_eq_iff.mp (Option.some.inj recomputed).symm
  · intro counted
    have stores : cluster.updateStoreStats.stores = cluster.stores := by
      apply OrderedMap.ext
      intro storeId
      refine (cluster.getStore_updateStoreStats storeId).trans ?_
      cases found : cluster.getStore storeId with
      | none => exact found.symm
      | some store =>
        refine Eq.trans ?_ found.symm
        exact congrArg some (credit_resetStats_eq_iff.mpr (counted storeId store found))
    cases cluster
    exact congrArg (fun stores => BasicCluster.mk stores _ _ _) stores

theorem statsExact_putRegion (cluster : BasicCluster) (region : RegionInfo) :
    (cluster.putRegion region).StatsExact := by
  intro storeId store found
  rw [getStore_putRegion] at found
  rcases Option.map_eq_some_iff.mp found with ⟨old, _, rfl⟩
  simp [StoreInfo.credit, StoreInfo.resetStats]

/-! ## Statistics that follow the regions -/

def StatsFollow (cluster : BasicCluster) : Prop :=
  ∀ storeId store, cluster.getStore storeId = some store →
    store.regionCount = cluster.getStoreRegionCount storeId ∧
    store.leaderCount = cluster.getStoreLeaderCount storeId ∧
    store.regionSize.toNat = totalSize RegionInfo.size (cluster.regionsOn .peer storeId)

structure Sound (cluster : BasicCluster) : Prop where
  exact : ∀ regionId, cluster.ExactAt regionId
  distinct : cluster.DistinctPeers

variable {cluster : BasicCluster} {placement : Placement}

theorem regionsOn_eq_nil_iff :
    cluster.regionsOn placement storeId = [] ↔
      ∀ region ∈ cluster.getRegions, storeId ∉ region.storesOf placement := by
  simp [regionsOn]

variable {region : RegionInfo}

theorem mem_getRegions_putRegion {other : RegionInfo}
    (member : other ∈ (cluster.putRegion region).getRegions) :
    other = region ∨ other ∈ cluster.getRegions := by
  rcases mem_getRegions.mp member with ⟨regionId, found⟩
  rw [getRegion, regions_putRegion, get?_insert] at found
  split at found
  · exact .inl (Option.some.inj found).symm
  · exact .inr (mem_getRegions.mpr ⟨regionId, found⟩)

theorem DistinctPeers.putRegion (distinct : cluster.DistinctPeers)
    (nodup : (region.storesOf .peer).Nodup) : (cluster.putRegion region).DistinctPeers := by
  intro other member
  rcases mem_getRegions_putRegion member with rfl | before
  · exact nodup
  · exact distinct other before

namespace Sound

theorem new : BasicCluster.new.Sound where
  exact := exactAt_after []
  distinct region member := by cases member

theorem putStore (sound : cluster.Sound) (store : StoreInfo) : (cluster.putStore store).Sound where
  exact regionId := (sound.exact regionId).putStore store
  distinct := sound.distinct

theorem putRegion (sound : cluster.Sound) {region : RegionInfo}
    (distinct : (region.storesOf .peer).Nodup) : (cluster.putRegion region).Sound where
  exact regionId := (sound.exact regionId).putRegion region
  distinct := sound.distinct.putRegion distinct

end Sound

theorem Sound.statsFollow_putRegion_iff (sound : cluster.Sound)
    (distinct : (region.storesOf .peer).Nodup) :
    (cluster.putRegion region).StatsFollow ↔
      ∀ storeId, (cluster.getStore storeId).isSome →
        totalSize RegionInfo.size ((cluster.putRegion region).regionsOn .peer storeId) <
          2 ^ 64 := by
  have after := sound.putRegion distinct
  have counts (placement : Placement) (storeId : UInt64) :
      (cluster.putRegion region).share placement (fun _ => 1) storeId =
        (((cluster.putRegion region).index placement).items storeId).card := by
    rw [after.distinct.share_eq, totalSize_one, length_regionsOn after.exact]
  constructor
  · intro follow storeId known
    rcases Option.isSome_iff_exists.mp known with ⟨store, found⟩
    have size := (follow storeId _ (by rw [getStore_putRegion, found, Option.map_some])).2.2
    rw [← size]
    exact UInt64.toNat_lt _
  · intro bounded storeId store found
    rw [getStore_putRegion] at found
    rcases Option.map_eq_some_iff.mp found with ⟨old, foundOld, rfl⟩
    have room := bounded storeId (Option.isSome_of_eq_some foundOld)
    refine ⟨?_, ?_, ?_⟩
    · rw [getStoreRegionCount_eq_card, ← counts]
      exact Nat.zero_add _
    · rw [getStoreLeaderCount_eq_card, ← counts]
      exact Nat.zero_add _
    · simp only [StoreInfo.credit, StoreInfo.resetStats, after.distinct.share_eq, UInt64.zero_add]
      exact UInt64.toNat_ofNat_of_lt room

theorem Sound.statsFollow_putStore_iff (sound : cluster.Sound) (follow : cluster.StatsFollow)
    {store : StoreInfo} (fresh : store.resetStats = store) :
    (cluster.putStore store).StatsFollow ↔
      ∀ region ∈ cluster.getRegions, ∀ placement, store.id ∉ region.storesOf placement := by
  have counts (placement : Placement) (storeId : UInt64) :
      ((cluster.index placement).items storeId).card =
        (cluster.regionsOn placement storeId).length :=
    (length_regionsOn sound.exact).symm
  have regionCount : store.regionCount = 0 := (congrArg regionCount fresh).symm
  have leaderCount : store.leaderCount = 0 := (congrArg leaderCount fresh).symm
  have regionSize : store.regionSize = 0 := (congrArg regionSize fresh).symm
  constructor
  · intro after region member placement
    have here := after store.id store (get?_insert_same ..)
    have none : cluster.regionsOn placement store.id = [] := by
      rw [← length_eq_zero_iff, ← counts]
      cases placement with
      | peer =>
        rw [← getStoreRegionCount_eq_card]
        exact here.1.symm.trans regionCount
      | leader =>
        rw [← getStoreLeaderCount_eq_card]
        exact here.2.1.symm.trans leaderCount
    exact regionsOn_eq_nil_iff.mp none region member
  · intro unused storeId other found
    have none (placement : Placement) : cluster.regionsOn placement store.id = [] :=
      regionsOn_eq_nil_iff.mpr fun region member => unused region member placement
    rw [getStore, BasicCluster.putStore, get?_insert] at found
    split_ifs at found with same
    · rw [← Option.some.inj found, regionCount, leaderCount, regionSize, same]
      refine ⟨?_, ?_, ?_⟩
      · change 0 = cluster.getStoreRegionCount store.id
        rw [getStoreRegionCount_eq_card, counts, none]
        rfl
      · change 0 = cluster.getStoreLeaderCount store.id
        rw [getStoreLeaderCount_eq_card, counts, none]
        rfl
      · change 0 = totalSize RegionInfo.size (cluster.regionsOn .peer store.id)
        rw [none]
        rfl
    · exact follow storeId other found

end BasicCluster

/-! ## Sequences of calls -/

namespace ClusterCall

def WellFormed : ClusterCall → Prop
  | .putStore store => ∃ id address state now, store = .new id address state now
  | .putRegion region => (region.storesOf .peer).Nodup

def KeepsStats (cluster : BasicCluster) : ClusterCall → Prop
  | .putStore store =>
    ∀ region ∈ cluster.getRegions, ∀ placement, store.id ∉ region.storesOf placement
  | .putRegion region =>
    ∀ storeId, (cluster.getStore storeId).isSome →
      totalSize RegionInfo.size ((cluster.regions.insert region.id region).values.filter
        fun region => storeId ∈ region.storesOf .peer) < 2 ^ 64

variable {cluster : BasicCluster} {call : ClusterCall}

theorem sound_act (wellFormed : call.WellFormed) (sound : cluster.Sound) :
    (call.act cluster).Sound := by
  cases call with
  | putStore store => exact sound.putStore store
  | putRegion region => exact sound.putRegion wellFormed

theorem statsFollow_act_iff (wellFormed : call.WellFormed) (sound : cluster.Sound)
    (follow : cluster.StatsFollow) : (call.act cluster).StatsFollow ↔ call.KeepsStats cluster := by
  cases call with
  | putStore store =>
    rcases wellFormed with ⟨id, address, state, now, rfl⟩
    exact sound.statsFollow_putStore_iff follow rfl
  | putRegion region =>
    refine (sound.statsFollow_putRegion_iff wellFormed).trans ?_
    simp only [BasicCluster.regionsOn, BasicCluster.getRegions, BasicCluster.regions_putRegion]
    exact Iff.rfl

/-- The statistics follow the regions in every state exactly if stores register before regions
are put on them, and no sum of sizes is too large. -/
theorem stats_follow_iff {calls : List ClusterCall} (wellFormed : ∀ call ∈ calls, call.WellFormed) :
    (∀ past, past <+: calls → (after past).StatsFollow) ↔
      Guarded act (fun cluster call => call.KeepsStats cluster) BasicCluster.new calls := by
  have start : BasicCluster.new.Sound ∧ BasicCluster.new.StatsFollow :=
    ⟨.new, fun storeId store found => by cases found⟩
  have keeps {cluster : BasicCluster} {call : ClusterCall} (member : call ∈ calls)
      (holds : cluster.Sound ∧ cluster.StatsFollow) (kept : call.KeepsStats cluster) :
      (call.act cluster).Sound ∧ (call.act cluster).StatsFollow :=
    ⟨sound_act (wellFormed call member) holds.1,
      (statsFollow_act_iff (wellFormed call member) holds.1 holds.2).mpr kept⟩
  constructor
  · intro follow
    apply guarded_of_forall_isPrefix BasicCluster.StatsFollow start keeps _ follow
    intro cluster call member holds after
    exact (statsFollow_act_iff (wellFormed call member) holds.1 holds.2).mp after
  · intro guarded past isPrefix
    exact (guarded.invariant start keeps isPrefix).2

/-! ## A store that registers again -/

def registering (storeId : UInt64) : ClusterCall := .putStore (.new storeId "" 0 0)

def placing (regionId storeId : UInt64) (size : UInt64) : ClusterCall :=
  .putRegion
    { region := {
        id := regionId, startKey := [], endKey := [], regionEpoch := none
        peers := [{ id := regionId, storeId }] }
      leader := some { id := regionId, storeId }
      pendingPeers := []
      approximateSize := size }

theorem wellFormed_registering (storeId : UInt64) : (registering storeId).WellFormed :=
  ⟨storeId, "", 0, 0, rfl⟩

theorem wellFormed_placing (regionId storeId size : UInt64) :
    (placing regionId storeId size).WellFormed :=
  nodup_singleton storeId

/-- A store that restarts has a region and its leader, but is thought to have none. -/
theorem restarted_store_loses_stats :
    (∀ call ∈ [registering 1, placing 7 1 5, registering 1], call.WellFormed) ∧
      ¬ (after [registering 1, placing 7 1 5, registering 1]).StatsFollow := by
  constructor
  · intro call member
    simp only [mem_cons, not_mem_nil, or_false] at member
    rcases member with rfl | rfl | rfl
    · exact wellFormed_registering 1
    · exact wellFormed_placing 7 1 5
    · exact wellFormed_registering 1
  · intro follow
    have counted := (follow 1 (.new 1 "" 0 0) (by decide)).1
    exact absurd counted (by decide)

theorem registered_store_keeps_stats :
    (after [registering 1, placing 7 1 5]).StatsFollow ∧
      ((after [registering 1, placing 7 1 5]).getStore 1).map regionSize = some 5 := by
  have wellFormed : ∀ call ∈ [registering 1, placing 7 1 5], call.WellFormed := by
    intro call member
    simp only [mem_cons, not_mem_nil, or_false] at member
    rcases member with rfl | rfl
    · exact wellFormed_registering 1
    · exact wellFormed_placing 7 1 5
  refine ⟨(stats_follow_iff wellFormed).mpr ⟨?_, ?_, trivial⟩ _ prefix_rfl, by decide⟩
  · intro region member
    cases member
  · intro storeId _
    -- the store has at most the regions there are
    have part := @totalSize_filter_le _ RegionInfo.size
      (after [registering 1, placing 7 1 5]).getRegions
      (fun region => storeId ∈ region.storesOf .peer) (fun _ => true) (fun _ _ => rfl)
    exact Nat.lt_of_le_of_lt part (by decide)

end ClusterCall

end AegisDB.Scheduler

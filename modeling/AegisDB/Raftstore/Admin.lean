import AegisDB.Foundation.Fault
import AegisDB.Raftstore.StoreMeta

/-! # Admin commands

`raftstore/admin.rs` and the allocation of peers in `region_allocator.rs`. Splitting is the
one admin command that is carried out: the region keeps what is below the split key, and a
new region takes the rest. -/

namespace AegisDB.Raftstore

open Foundation Proto

/-! ## Requests -/

inductive AdminCmdType where
  | invalidAdmin
  | changePeer
  | compactLog
  | transferLeader
  | split
deriving DecidableEq, Repr

def AdminCmdType.ofInt : Int → AdminCmdType
  | 1 => .changePeer
  | 3 => .compactLog
  | 4 => .transferLeader
  | 10 => .split
  | _ => .invalidAdmin

def AdminCmdType.toInt : AdminCmdType → Int
  | .invalidAdmin => 0
  | .changePeer => 1
  | .compactLog => 3
  | .transferLeader => 4
  | .split => 10

structure SplitRequest where
  splitKey : Bytes
  newRegionId : UInt64
  newPeerIds : List UInt64

structure SplitResponse where
  regions : List Region
deriving DecidableEq

structure AdminRequest where
  cmdType : Int
  split : Option SplitRequest

structure AdminResponse where
  cmdType : Int
  split : Option SplitResponse
deriving DecidableEq

/-! ## Allocating peers -/

structure RegionAllocator where
  availableStores : List UInt64
  replicationFactor : Nat

namespace RegionAllocator

def allocateStores (allocator : RegionAllocator) : Fallible (List UInt64) :=
  let stores := allocator.availableStores.take allocator.replicationFactor
  if stores.length < allocator.replicationFactor then
    .error (.error ("not enough available stores: need " ++
      toString allocator.replicationFactor ++ ", got " ++ toString stores.length))
  else
    .ok stores

def allocatePeers (allocator : RegionAllocator) : Fallible (List Peer) := do
  let storeIds ← allocator.allocateStores
  return storeIds.mapIdx fun position storeId =>
    { id := storeId * 10000 + UInt64.ofNat position, storeId }

end RegionAllocator

/-! ## Executing -/

structure AdminHandler where
  regionAllocator : RegionAllocator
  storeId : UInt64

namespace AdminHandler

def isKeyInRange (key : Bytes) (region : Region) : Bool :=
  if !region.startKey.isEmpty && key < region.startKey then
    false
  else if !region.endKey.isEmpty && key ≥ region.endKey then
    false
  else
    true

def newPeers (handler : AdminHandler) (request : SplitRequest) : Fallible (List Peer) :=
  if !request.newPeerIds.isEmpty then
    .ok (request.newPeerIds.map fun id => { id, storeId := handler.storeId })
  else
    handler.regionAllocator.allocatePeers

def createNewRegion (handler : AdminHandler) (oldRegion : Region) (request : SplitRequest) :
    Fallible Region := do
  let peers ← handler.newPeers request
  let epoch := oldRegion.epoch
  return {
    id := request.newRegionId
    startKey := request.splitKey
    endKey := oldRegion.endKey
    regionEpoch := some { version := epoch.version + 1, confVer := epoch.confVer + 1 }
    peers }

def updateRegionRange (region : Region) (splitKey : Bytes) : Region :=
  { region with
    endKey := splitKey
    regionEpoch := some { region.epoch with version := region.epoch.version + 1 } }

def executeSplit (handler : AdminHandler) (storeMeta : StoreMeta) (region : Region)
    (request : SplitRequest) : StoreMeta × Fallible AdminResponse :=
  if request.splitKey.isEmpty then
    (storeMeta, .error (.error "split key is empty"))
  else if !isKeyInRange request.splitKey region then
    (storeMeta, .error (.error ("split key " ++ toString request.splitKey ++
      " is not in region range [" ++ toString region.startKey ++ ", " ++
      toString region.endKey ++ "]")))
  else
    match handler.createNewRegion region request with
    | .error fault => (storeMeta, .error fault)
    | .ok newRegion =>
      let updatedRegion := updateRegionRange region request.splitKey
      ((storeMeta.setRegion updatedRegion).setRegion newRegion,
        .ok { cmdType := AdminCmdType.split.toInt
              split := some { regions := [updatedRegion, newRegion] } })

def execute (handler : AdminHandler) (storeMeta : StoreMeta) (region : Region)
    (request : AdminRequest) : StoreMeta × Fallible AdminResponse :=
  match AdminCmdType.ofInt request.cmdType with
  | .split =>
    match request.split with
    | some splitRequest => handler.executeSplit storeMeta region splitRequest
    | none => (storeMeta, .error (.error "split request is missing"))
  | .changePeer => (storeMeta, .error (.error "ChangePeer not implemented"))
  | .transferLeader => (storeMeta, .error (.error "TransferLeader not implemented"))
  | .compactLog => (storeMeta, .error (.error "CompactLog not implemented"))
  | .invalidAdmin => (storeMeta, .error (.error "invalid admin command"))

/-! ### What an accepted request does -/

variable {region : Region}

theorem isKeyInRange_iff {key : Bytes} :
    isKeyInRange key region = true ↔ region.range.Contains key := by
  rw [← keyInRegion_iff, isKeyInRange, keyInRegion, EngineUtil.exceedEndKey]
  by_cases unbounded : region.endKey = []
  · simp [unbounded]
  · simp [unbounded]

variable {handler : AdminHandler} {storeMeta after : StoreMeta} {response : AdminResponse}

theorem ok_of_execute {request : AdminRequest}
    (accepted : handler.execute storeMeta region request = (after, .ok response)) :
    ∃ splitRequest, request.split = some splitRequest ∧
      handler.executeSplit storeMeta region splitRequest = (after, .ok response) := by
  rw [execute] at accepted
  split at accepted
  · split at accepted
    · rename_i splitRequest present
      exact ⟨splitRequest, present, accepted⟩
    · cases accepted
  all_goals cases accepted

structure CreatesRegion (region : Region) (request : SplitRequest) (newRegion : Region) :
    Prop where
  id : newRegion.id = request.newRegionId
  startKey : newRegion.startKey = request.splitKey
  endKey : newRegion.endKey = region.endKey
  version : newRegion.epoch.version = region.epoch.version + 1

variable {request : SplitRequest} {newRegion : Region}

theorem creates_of_createNewRegion
    (created : handler.createNewRegion region request = .ok newRegion) :
    CreatesRegion region request newRegion := by
  rcases Fallible.bind_eq_ok_iff.mp created with ⟨peers, _, returned⟩
  cases returned
  exact ⟨rfl, rfl, rfl, rfl⟩

theorem CreatesRegion.range (created : CreatesRegion region request newRegion) :
    newRegion.range = region.range.onward request.splitKey := by
  simp [Region.range, keysBetween, created.startKey, created.endKey, KeyRange.onward]

theorem range_updateRegionRange (region : Region) {splitKey : Bytes} (notEmpty : splitKey ≠ []) :
    (updateRegionRange region splitKey).range = region.range.before splitKey := by
  simp [Region.range, keysBetween, updateRegionRange, KeyRange.before, notEmpty]

theorem ok_of_executeSplit
    (accepted : handler.executeSplit storeMeta region request = (after, .ok response)) :
    request.splitKey ≠ [] ∧ region.range.Contains request.splitKey ∧
      ∃ newRegion, CreatesRegion region request newRegion ∧
        after = (storeMeta.setRegion (updateRegionRange region request.splitKey)).setRegion
          newRegion ∧
        response.split =
          some { regions := [updateRegionRange region request.splitKey, newRegion] } := by
  rw [executeSplit] at accepted
  split at accepted
  · cases accepted
  · rename_i notEmpty
    split at accepted
    · cases accepted
    · rename_i notOutside
      have inside : isKeyInRange request.splitKey region = true := by simpa using notOutside
      split at accepted
      · cases accepted
      · rename_i newRegion created
        cases accepted
        exact ⟨by simpa using notEmpty, isKeyInRange_iff.mp inside, newRegion,
          creates_of_createNewRegion created, rfl, rfl⟩

end AdminHandler

/-! ## The key space after a split -/

/-- A region has been replaced by two that divide its keys among them. -/
structure Divides (before after : StoreMeta) (region left right : Region) : Prop where
  covered : ∀ key, region.range.Contains key ↔
    left.range.Contains key ∨ right.range.Contains key
  separate : left.range.Separate right.range
  disjoint : after.Disjoint
  union : ∀ key, (∃ stored, after.Stores stored ∧ stored.range.Contains key) ↔
    ∃ stored, before.Stores stored ∧ stored.range.Contains key
  routes : ∀ key, after.findRegionByKey key =
    if left.range.Contains key then some left
    else if right.range.Contains key then some right
    else before.findRegionByKey key
  newer : region.epoch.version < left.epoch.version ∧ region.epoch.version < right.epoch.version

namespace StoreMeta

variable {storeMeta : StoreMeta} {region left right : Region}

theorem stores_setRegion_iff {other : Region} :
    (storeMeta.setRegion region).Stores other ↔
      other = region ∨ other.id ≠ region.id ∧ storeMeta.Stores other := by
  change (storeMeta.regions.insert region.id region).get? other.id = some other ↔ _
  rw [OrderedMap.get?_insert]
  split_ifs with same
  · constructor
    · intro found
      exact .inl (Option.some.inj found).symm
    · intro either
      rcases either with rfl | ⟨different, _⟩
      · rfl
      · exact absurd same different
  · constructor
    · intro found
      exact .inr ⟨same, found⟩
    · intro either
      rcases either with rfl | ⟨_, stored⟩
      · exact absurd rfl same
      · exact stored

structure Parts (before : StoreMeta) (region left right : Region) : Prop where
  stored : before.Stores region
  leftNonEmpty : left.range.NonEmpty
  rightNonEmpty : right.range.NonEmpty
  leftPart : ∀ {key}, left.range.Contains key → region.range.Contains key
  rightPart : ∀ {key}, right.range.Contains key → region.range.Contains key
  separate : left.range.Separate right.range

namespace Parts

variable {before after : StoreMeta}

theorem of_cut {cut : Bytes} (stored : before.Stores region) (inside : region.range.Contains cut)
    (notFirst : region.range.start < cut) (leftRange : left.range = region.range.before cut)
    (rightRange : right.range = region.range.onward cut) : Parts before region left right where
  stored
  leftNonEmpty := by
    rw [leftRange]
    intro stop isStop
    cases isStop
    exact notFirst
  rightNonEmpty := by
    rw [rightRange]
    exact .of_contains ((KeyRange.contains_onward_iff inside).mpr ⟨inside, le_rfl⟩)
  leftPart := by
    intro key inLeft
    rw [leftRange] at inLeft
    exact ((KeyRange.contains_before_iff inside).mp inLeft).1
  rightPart := by
    intro key inRight
    rw [rightRange] at inRight
    exact ((KeyRange.contains_onward_iff inside).mp inRight).1
  separate := by
    intro key inLeft inRight
    rw [leftRange] at inLeft
    rw [rightRange] at inRight
    exact absurd ((KeyRange.contains_before_iff inside).mp inLeft).2
      (not_lt.mpr ((KeyRange.contains_onward_iff inside).mp inRight).2)

theorem separate_other (parts : Parts before region left right) (disjoint : before.Disjoint)
    {other : Region} (stored : before.Stores other) (different : other.id ≠ region.id) :
    left.range.Separate other.range ∧ right.range.Separate other.range := by
  have apart := disjoint.separate parts.stored stored different.symm
  exact ⟨apart.of_part parts.leftPart, apart.of_part parts.rightPart⟩

theorem disjoint (parts : Parts before region left right) (disjointBefore : before.Disjoint)
    (among : ∀ {other}, after.Stores other →
      other = left ∨ other = right ∨ other.id ≠ region.id ∧ before.Stores other) :
    after.Disjoint where
  nonEmpty := by
    intro stored isStored
    rcases among isStored with rfl | rfl | ⟨_, old⟩
    · exact parts.leftNonEmpty
    · exact parts.rightNonEmpty
    · exact disjointBefore.nonEmpty old
  separate := by
    intro first second firstStored secondStored different
    rcases among firstStored with rfl | rfl | ⟨notFirst, oldFirst⟩
    · rcases among secondStored with rfl | rfl | ⟨notSecond, oldSecond⟩
      · exact absurd rfl different
      · exact parts.separate
      · exact (parts.separate_other disjointBefore oldSecond notSecond).1
    · rcases among secondStored with rfl | rfl | ⟨notSecond, oldSecond⟩
      · exact parts.separate.symm
      · exact absurd rfl different
      · exact (parts.separate_other disjointBefore oldSecond notSecond).2
    · rcases among secondStored with rfl | rfl | ⟨_, oldSecond⟩
      · exact (parts.separate_other disjointBefore oldFirst notFirst).1.symm
      · exact (parts.separate_other disjointBefore oldFirst notFirst).2.symm
      · exact disjointBefore.separate oldFirst oldSecond different

end Parts

structure Cut (before after : StoreMeta) (region left right : Region) (cut : Bytes) : Prop where
  stored : before.Stores region
  leftRange : left.range = region.range.before cut
  rightRange : right.range = region.range.onward cut
  inside : region.range.Contains cut
  notFirst : region.range.start < cut
  stores : ∀ other, after.Stores other ↔
    other = left ∨ other = right ∨ other.id ≠ region.id ∧ before.Stores other
  leftId : left.id = region.id
  rightFresh : ∀ {other}, before.Stores other → right.id ≠ other.id

namespace Cut

variable {before after : StoreMeta} {cut key : Bytes}

variable (divided : Cut before after region left right cut)

include divided

theorem contains_left_iff :
    left.range.Contains key ↔ region.range.Contains key ∧ key < cut := by
  rw [divided.leftRange]
  exact KeyRange.contains_before_iff divided.inside

theorem contains_right_iff :
    right.range.Contains key ↔ region.range.Contains key ∧ cut ≤ key := by
  rw [divided.rightRange]
  exact KeyRange.contains_onward_iff divided.inside

theorem covered (key : Bytes) :
    region.range.Contains key ↔ left.range.Contains key ∨ right.range.Contains key := by
  rw [divided.contains_left_iff, divided.contains_right_iff, ← and_or_left]
  simp [lt_or_ge]

theorem parts : Parts before region left right :=
  .of_cut divided.stored divided.inside divided.notFirst divided.leftRange divided.rightRange

theorem disjoint (disjointBefore : before.Disjoint) : after.Disjoint :=
  divided.parts.disjoint disjointBefore fun {other} => (divided.stores other).mp

theorem owner_iff (outside : ¬ region.range.Contains key) {owner : Region} :
    after.Stores owner ∧ owner.range.Contains key ↔
      before.Stores owner ∧ owner.range.Contains key := by
  constructor
  · intro ⟨stored, contains⟩
    rcases (divided.stores owner).mp stored with rfl | rfl | ⟨_, old⟩
    · exact absurd ((divided.covered key).mpr (.inl contains)) outside
    · exact absurd ((divided.covered key).mpr (.inr contains)) outside
    · exact ⟨old, contains⟩
  · intro ⟨stored, contains⟩
    have different : owner.id ≠ region.id := by
      intro same
      have found : before.regions.get? owner.id = some region := same ▸ divided.stored
      rw [stored] at found
      exact outside (Option.some.inj found ▸ contains)
    exact ⟨(divided.stores owner).mpr (.inr (.inr ⟨different, stored⟩)), contains⟩

theorem routes (disjoint : before.Disjoint)
    (synced : before.Synced) (syncedAfter : after.Synced) (key : Bytes) :
    after.findRegionByKey key =
      if left.range.Contains key then some left
      else if right.range.Contains key then some right
      else before.findRegionByKey key := by
  have disjointAfter := divided.disjoint disjoint
  split
  · rename_i inLeft
    exact (findRegionByKey_eq_some_iff syncedAfter disjointAfter).mpr
      ⟨(divided.stores left).mpr (.inl rfl), inLeft⟩
  · rename_i notLeft
    split_ifs with inRight
    · exact (findRegionByKey_eq_some_iff syncedAfter disjointAfter).mpr
        ⟨(divided.stores right).mpr (.inr (.inl rfl)), inRight⟩
    · have outside : ¬ region.range.Contains key := by
        rw [divided.covered]
        exact not_or.mpr ⟨notLeft, inRight⟩
      apply Option.ext
      intro owner
      rw [findRegionByKey_eq_some_iff syncedAfter disjointAfter,
        findRegionByKey_eq_some_iff synced disjoint]
      exact divided.owner_iff outside

theorem union (key : Bytes) :
    (∃ stored, after.Stores stored ∧ stored.range.Contains key) ↔
      ∃ stored, before.Stores stored ∧ stored.range.Contains key := by
  by_cases inRegion : region.range.Contains key
  · refine iff_of_true ?_ ⟨region, divided.stored, inRegion⟩
    rcases (divided.covered key).mp inRegion with inLeft | inRight
    · exact ⟨left, (divided.stores left).mpr (.inl rfl), inLeft⟩
    · exact ⟨right, (divided.stores right).mpr (.inr (.inl rfl)), inRight⟩
  · exact exists_congr fun _ => divided.owner_iff inRegion

end Cut

end StoreMeta

namespace AdminHandler

theorem cut_of_accepted {storeMeta : StoreMeta} {region newRegion : Region} {request : SplitRequest}
    (stored : storeMeta.Stores region) (inside : region.range.Contains request.splitKey)
    (created : CreatesRegion region request newRegion)
    (notStart : request.splitKey ≠ region.startKey)
    (fresh : storeMeta.getRegion request.newRegionId = none) :
    StoreMeta.Cut storeMeta
      ((storeMeta.setRegion (updateRegionRange region request.splitKey)).setRegion newRegion)
      region (updateRegionRange region request.splitKey) newRegion request.splitKey := by
  have below := lt_of_le_of_ne inside.1 notStart.symm
  have notEmpty : request.splitKey ≠ [] := by
    intro isEmpty
    rw [isEmpty] at below
    exact absurd below (List.not_lt_nil _)
  have newId : ∀ {other}, storeMeta.Stores other → newRegion.id ≠ other.id := by
    intro other otherStored same
    rw [StoreMeta.Stores, ← same, created.id] at otherStored
    rw [StoreMeta.getRegion, otherStored] at fresh
    cases fresh
  exact {
    stored
    leftRange := range_updateRegionRange region notEmpty
    rightRange := created.range
    inside
    notFirst := below
    stores := by
      intro other
      rw [StoreMeta.stores_setRegion_iff, StoreMeta.stores_setRegion_iff]
      change _ ∨ _ ∧ (_ ∨ other.id ≠ region.id ∧ _) ↔ _
      constructor
      · intro either
        rcases either with rfl | ⟨_, rfl | old⟩
        · exact .inr (.inl rfl)
        · exact .inl rfl
        · exact .inr (.inr old)
      · intro either
        rcases either with rfl | rfl | old
        · exact .inr ⟨(newId stored).symm, .inl rfl⟩
        · exact .inl rfl
        · exact .inr ⟨(newId old.2).symm, .inr old⟩
    leftId := rfl
    rightFresh := newId }

/-- An accepted split divides the keys of the region among the two regions it returns and
leaves all other keys where they were. -/
theorem divides_of_execute (calls : List MetaCall) (handler : AdminHandler) (region : Region)
    (request : AdminRequest) (splitRequest : SplitRequest) (after : StoreMeta)
    (response : AdminResponse) (disjoint : (StoreMeta.after calls).Disjoint)
    (stored : (StoreMeta.after calls).Stores region) (isSplit : request.split = some splitRequest)
    (accepted : handler.execute (StoreMeta.after calls) region request = (after, .ok response))
    (notStart : splitRequest.splitKey ≠ region.startKey)
    (fresh : (StoreMeta.after calls).getRegion splitRequest.newRegionId = none)
    (small : region.epoch.version < 0xFFFFFFFFFFFFFFFF ∧
      region.epoch.confVer < 0xFFFFFFFFFFFFFFFF) :
    ∃ left right, response.split = some { regions := [left, right] } ∧
      Divides (StoreMeta.after calls) after region left right := by
  rcases ok_of_execute accepted with ⟨_, present, executed⟩
  cases isSplit.symm.trans present
  rcases ok_of_executeSplit executed with ⟨_, inside, newRegion, created, rfl, returned⟩
  have synced := StoreMeta.synced_after calls
  have divided := cut_of_accepted stored inside created notStart fresh
  have larger : region.epoch.version < region.epoch.version + 1 := by
    have := small.1
    rw [UInt64.lt_iff_toNat_lt] at this ⊢
    rw [UInt64.toNat_add]
    simp at this ⊢
    omega
  refine ⟨_, newRegion, returned, divided.covered, divided.parts.separate,
    divided.disjoint disjoint, divided.union,
    divided.routes disjoint synced ((synced.setRegion _).setRegion _), larger, ?_⟩
  rw [created.version]
  exact larger

def splitFirst : AdminRequest :=
  { cmdType := 10, split := some { splitKey := [0x61], newRegionId := 3, newPeerIds := [7] } }

def oneStore : AdminHandler :=
  { regionAllocator := { availableStores := [], replicationFactor := 1 }, storeId := 1 }

theorem divides_twoRegions :
    ∃ left right, Divides (StoreMeta.after StoreMeta.twoRegions)
      (oneStore.execute (StoreMeta.after StoreMeta.twoRegions)
        { id := 1, startKey := [], endKey := [0x6D], regionEpoch := none, peers := [] }
        splitFirst).1
      { id := 1, startKey := [], endKey := [0x6D], regionEpoch := none, peers := [] }
      left right := by
  rcases divides_of_execute StoreMeta.twoRegions oneStore
      { id := 1, startKey := [], endKey := [0x6D], regionEpoch := none, peers := [] }
      splitFirst { splitKey := [0x61], newRegionId := 3, newPeerIds := [7] } _ _
      StoreMeta.disjoint_twoRegions rfl rfl rfl (by decide) rfl (by decide) with
    ⟨left, right, _, divides⟩
  exact ⟨left, right, divides⟩

end AdminHandler

end AegisDB.Raftstore

import AegisDB.EngineUtil
import AegisDB.Foundation.Codec
import AegisDB.Mvcc.CodecOrder
import AegisDB.Proto.Metapb

/-! # Persisted metadata

`raftstore/meta`: the keys and values under which region states and apply states lie in
the engine, beside the data of the users. They are written under the empty column family,
so their keys begin with an underscore. -/

namespace AegisDB.Raftstore

open Foundation EngineUtil Proto Mvcc

/-! ## Keys -/

def regionMetaPrefix : UInt8 := 0x01

def applyStatePrefix : UInt8 := 0x04

def regionStateSuffix : UInt8 := 0x01

def regionStateKey (regionId : UInt64) : Bytes :=
  regionMetaPrefix :: (u64ToBeBytes regionId ++ [regionStateSuffix])

def decodeRegionMetaKey (key : Bytes) : Except String (UInt64 × UInt8) :=
  if key.length < 10 ∨ key[0]? ≠ some regionMetaPrefix then
    .error "invalid region meta key"
  else
    .ok (u64FromBeBytes ((key.drop 1).take 8), (key[9]?).getD 0)

def applyStateKey (regionId : UInt64) : Bytes := applyStatePrefix :: u64ToBeBytes regionId

/-! ## Values -/

inductive PeerState where
  | normal
  | tombstone
deriving DecidableEq, Repr

structure RegionLocalState where
  state : PeerState
  regionBytes : Bytes
deriving DecidableEq, Repr

structure RaftTruncatedState where
  index : UInt64
  term : UInt64
deriving DecidableEq, Repr

structure RaftApplyState where
  appliedIndex : UInt64
  truncatedState : RaftTruncatedState
deriving DecidableEq, Repr

structure SnapshotData where
  regionBytes : Bytes
  kvs : List (Bytes × Bytes)
deriving DecidableEq, Repr

/-- The encodings of prost and bincode, which can be read back. -/
structure Formats where
  region : Codec Region
  regionLocalState : Codec RegionLocalState
  raftApplyState : Codec RaftApplyState
  snapshotData : Codec SnapshotData

section Values

variable (formats : Formats)

def regionStateValue (region : Region) (state : PeerState) : Bytes :=
  formats.regionLocalState.encode { state, regionBytes := formats.region.encode region }

def writeRegionState (batch : WriteBatch) (region : Region) (state : PeerState) : WriteBatch :=
  batch.setCf [] (regionStateKey region.id) (regionStateValue formats region state)

def getRegionLocalState (db : DB) (regionId : UInt64) :
    Except String (Option RegionLocalState) :=
  match getCf db [] (regionStateKey regionId) with
  | some value => (formats.regionLocalState.decode value).map some
  | none => .ok none

def writeApplyState (batch : WriteBatch) (regionId : UInt64) (state : RaftApplyState) :
    WriteBatch :=
  batch.setCf [] (applyStateKey regionId) (formats.raftApplyState.encode state)

def getApplyState (db : DB) (regionId : UInt64) : Except String (Option RaftApplyState) :=
  match getCf db [] (applyStateKey regionId) with
  | some value => (formats.raftApplyState.decode value).map some
  | none => .ok none

end Values

/-! ## Facts about the keys -/

theorem decodeRegionMetaKey_regionStateKey (regionId : UInt64) :
    decodeRegionMetaKey (regionStateKey regionId) = .ok (regionId, regionStateSuffix) := by
  have length : (u64ToBeBytes regionId).length = 8 := u64ToBeBytes_length regionId
  have idBytes : ((regionStateKey regionId).drop 1).take 8 = u64ToBeBytes regionId :=
    List.take_left' length
  have suffix : (regionStateKey regionId)[9]? = some regionStateSuffix := by
    simp [regionStateKey, length]
  rw [decodeRegionMetaKey, if_neg (by simp [regionStateKey]), idBytes, suffix,
    u64FromBeBytes_toBeBytes, Option.getD_some]

theorem regionStateKey_lt_iff {left right : UInt64} :
    regionStateKey left < regionStateKey right ↔ left < right := by
  rw [regionStateKey, regionStateKey, List.cons_lt_cons_self,
    append_lt_append_iff (by simp), u64ToBeBytes_lt_iff]
  simp

theorem regionStateKey_inj {left right : UInt64}
    (same : regionStateKey left = regionStateKey right) : left = right := by
  have decoded := decodeRegionMetaKey_regionStateKey left
  rw [same, decodeRegionMetaKey_regionStateKey] at decoded
  exact (Prod.mk.inj (Except.ok.inj decoded)).1.symm

theorem head?_keyWithCf (cf : Storage.Cf) (key : Bytes) :
    ∃ first, (keyWithCf cf.bytes key).head? = some first ∧ 0x5F < first := by
  cases cf with
  | default => exact ⟨0x64, rfl, by decide⟩
  | write => exact ⟨0x77, rfl, by decide⟩
  | lock => exact ⟨0x6C, rfl, by decide⟩

/-! ## A concrete choice of encodings -/

namespace Formats

def regionCode : Code Region :=
  (((Code.word.pair Code.byte.list).pair Code.byte.list).pair
      (((Code.word.pair Code.word).option).pair (Code.word.pair Code.word).list)).through
    (fun region => (((region.id, region.startKey), region.endKey),
      (region.regionEpoch.map fun epoch => (epoch.confVer, epoch.version),
        region.peers.map fun peer => (peer.id, peer.storeId))))
    (fun repr => {
      id := repr.1.1.1
      startKey := repr.1.1.2
      endKey := repr.1.2
      regionEpoch := repr.2.1.map fun epoch => { confVer := epoch.1, version := epoch.2 }
      peers := repr.2.2.map fun peer => { id := peer.1, storeId := peer.2 } })
    (by
      intro region
      simp [Function.comp_def])

def regionLocalStateCode : Code RegionLocalState :=
  (Code.byte.pair Code.byte.list).through
    (fun value => (if value.state = .normal then 0 else 1, value.regionBytes))
    (fun repr => { state := if repr.1 = 0 then .normal else .tombstone, regionBytes := repr.2 })
    (by
      intro value
      rcases value with ⟨state, regionBytes⟩
      cases state with
      | normal => simp
      | tombstone => simp)

def raftApplyStateCode : Code RaftApplyState :=
  (Code.word.pair (Code.word.pair Code.word)).through
    (fun value => (value.appliedIndex, value.truncatedState.index, value.truncatedState.term))
    (fun repr => {
      appliedIndex := repr.1
      truncatedState := { index := repr.2.1, term := repr.2.2 } })
    fun _ => rfl

def snapshotDataCode : Code SnapshotData :=
  (Code.byte.list.pair (Code.byte.list.pair Code.byte.list).list).through
    (fun value => (value.regionBytes, value.kvs))
    (fun repr => { regionBytes := repr.1, kvs := repr.2 })
    fun _ => rfl

def plain : Formats where
  region := regionCode.codec
  regionLocalState := regionLocalStateCode.codec
  raftApplyState := raftApplyStateCode.codec
  snapshotData := snapshotDataCode.codec

end Formats

end AegisDB.Raftstore

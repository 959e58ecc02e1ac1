import AegisDB.Foundation.BigEndian

/-! # Regions and their peers

The messages of `metapb.proto` that describe a region. -/

namespace AegisDB.Proto

open Foundation

structure Peer where
  id : UInt64
  storeId : UInt64
deriving DecidableEq, Repr

structure RegionEpoch where
  confVer : UInt64
  version : UInt64
deriving DecidableEq, Repr

instance : Inhabited RegionEpoch := ⟨{ confVer := 0, version := 0 }⟩

structure Region where
  id : UInt64
  startKey : Bytes
  endKey : Bytes
  regionEpoch : Option RegionEpoch
  peers : List Peer
deriving DecidableEq, Repr

def Region.epoch (region : Region) : RegionEpoch := region.regionEpoch.getD default

end AegisDB.Proto

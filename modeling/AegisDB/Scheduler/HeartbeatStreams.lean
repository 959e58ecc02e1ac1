import AegisDB.Scheduler.Operator

/-! # Heartbeat streams

`scheduler/heartbeat_streams.rs`: for each store the sender of the stream on which it is
told what to do. A sender is known by the number of its stream. -/

namespace AegisDB.Scheduler

open Foundation

abbrev Sender := Nat

structure SimpleHeartbeatStreams where
  streams : OrderedMap UInt64 Sender
  sentMessages : List (UInt64 × RegionHeartbeatResponse)
  queued : List (Sender × RegionHeartbeatResponse)

namespace SimpleHeartbeatStreams

def new : SimpleHeartbeatStreams where
  streams := .empty
  sentMessages := []
  queued := []

def bindStream (streams : SimpleHeartbeatStreams) (storeId : UInt64) (sender : Sender) :
    SimpleHeartbeatStreams :=
  { streams with streams := streams.streams.insert storeId sender }

def unbindStream (streams : SimpleHeartbeatStreams) (storeId : UInt64) : SimpleHeartbeatStreams :=
  { streams with streams := streams.streams.erase storeId }

def hasStream (streams : SimpleHeartbeatStreams) (storeId : UInt64) : Bool :=
  (streams.streams.get? storeId).isSome

def sendMsg (streams : SimpleHeartbeatStreams) (region : RegionInfo)
    (message : RegionHeartbeatResponse) : SimpleHeartbeatStreams :=
  match region.getLeaderStoreId with
  | none => streams
  | some leaderStoreId =>
    let streams :=
      { streams with sentMessages := streams.sentMessages ++ [(region.id, message)] }
    match streams.streams.get? leaderStoreId with
    | some sender => { streams with queued := streams.queued ++ [(sender, message)] }
    | none => streams

@[simp] theorem streams_sendMsg (streams : SimpleHeartbeatStreams) (region : RegionInfo)
    (message : RegionHeartbeatResponse) :
    (streams.sendMsg region message).streams = streams.streams := by
  rw [sendMsg]
  split
  · rfl
  · dsimp only
    split <;> rfl

end SimpleHeartbeatStreams

end AegisDB.Scheduler

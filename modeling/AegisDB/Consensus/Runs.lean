import AegisDB.Consensus.Cluster
import AegisDB.Consensus.Moves

/-! # Runs of a cluster

An event makes at most one node handle one message. What every move of that node
preserves, and what does not depend on whether a message is still held by its sender,
holds along the run. -/

namespace AegisDB.Consensus

open Foundation

/-! ## The message of an event -/

namespace Raft

def tickMessage (raft : Raft) : Option Message :=
  match raft.state with
  | .leader =>
    if raft.heartbeatElapsed + 1 ≥ raft.heartbeatTimeout then
      some { msgType := .msgBeat, fromId := raft.id }
    else none
  | _ =>
    if raft.electionElapsed + 1 ≥ raft.randomElectionTimeout then
      some { msgType := .msgHup, fromId := raft.id }
    else none

def proposeMessage (raft : Raft) (entryType : EntryType) (data : Bytes) : Message where
  msgType := .msgPropose
  fromId := raft.id
  entries := [{ entryType, term := raft.term, index := 0, data }]

end Raft

def Message.Local (m : Message) : Prop :=
  m.term = 0 ∧ (m.msgType = .msgHup ∨ m.msgType = .msgBeat ∨ m.msgType = .msgPropose)

structure Handling where
  node : Nat
  raft : Raft
  message : Message

def Cluster.handled (cluster : Cluster) : Event → Option Handling
  | .tick node _ => do
    let raft ← cluster.nodes.get? node
    let message ← raft.tickMessage
    return { node, raft, message }
  | .propose node entryType data => do
    let raft ← cluster.nodes.get? node
    return { node, raft, message := raft.proposeMessage entryType data }
  | .deliver position _ => do
    let message ← cluster.network[position]?
    let raft ← cluster.nodes.get? message.toId
    return { node := message.toId, raft, message }

def Cluster.InTime (cluster : Cluster) (event : Event) : Prop :=
  ∀ handling ∈ cluster.handled event, handling.raft.Timely handling.message

instance decidableInTime (cluster : Cluster) (event : Event) :
    Decidable (cluster.InTime event) :=
  Option.decidableForallMem (cluster.handled event)

/-! ## Ticks and proposals as moves -/

namespace Raft

variable {safe : Message → RaftLog → Prop}

theorem tick_moves {raft : Raft} (draw : Nat) (timely : ∀ m ∈ raft.tickMessage, raft.Timely m)
    (safely : ∀ m ∈ raft.tickMessage, raft.Regards m → safe m raft.raftLog) :
    ∃ m : Message, m.Local ∧ Moves m (safe m) raft (raft.tick draw).raft := by
  rw [tick]
  split
  · rename_i leader
    split_ifs with fires
    · have handled : raft.tickMessage = some { msgType := .msgBeat, fromId := raft.id } := by
        simp [tickMessage, leader, fires]
      refine ⟨{ msgType := .msgBeat, fromId := raft.id }, ⟨rfl, .inr (.inl rfl)⟩,
        .head (.settle raft.lead raft.electionElapsed 0) ?_⟩
      rw [Outcome.raft_ignoreError]
      exact step_moves draw (safely _ handled) (timely _ handled) (by simp) (by simp)
    · exact ⟨{ msgType := .msgBeat, fromId := raft.id }, ⟨rfl, .inr (.inl rfl)⟩,
        .single (.settle raft.lead raft.electionElapsed (raft.heartbeatElapsed + 1))⟩
  · rename_i notLeader
    split_ifs with fires
    · have handled : raft.tickMessage = some { msgType := .msgHup, fromId := raft.id } := by
        rw [tickMessage]
        split
        · rename_i leader
          exact absurd leader notLeader
        · simp [fires]
      refine ⟨{ msgType := .msgHup, fromId := raft.id }, ⟨rfl, .inl rfl⟩,
        .head (.settle raft.lead 0 raft.heartbeatElapsed) ?_⟩
      rw [Outcome.raft_ignoreError]
      exact step_moves draw (safely _ handled) (timely _ handled) (by simp) (by simp)
    · exact ⟨{ msgType := .msgHup, fromId := raft.id }, ⟨rfl, .inl rfl⟩,
        .single (.settle raft.lead (raft.electionElapsed + 1) raft.heartbeatElapsed)⟩

theorem propose_moves {raft : Raft} {entryType : EntryType} {data : Bytes} (draw : Nat)
    (timely : raft.Timely (raft.proposeMessage entryType data))
    (safely : raft.Regards (raft.proposeMessage entryType data) →
      safe (raft.proposeMessage entryType data) raft.raftLog) :
    Moves (raft.proposeMessage entryType data) (safe (raft.proposeMessage entryType data)) raft
      (raft.propose entryType data draw).raft :=
  step_moves draw safely timely (by simp [proposeMessage]) (by simp [proposeMessage])

end Raft

/-! ## Induction over the moves of an event -/

namespace Cluster

def handOut (cluster : Cluster) (node : Nat) (raft : Raft) : Cluster :=
  { nodes := cluster.nodes.insert node { raft with msgs := [] }
    network := cluster.network ++ raft.msgs }

theorem sent_handOut {cluster : Cluster} {node : Nat} {raft : Raft} {m : Message}
    (present : cluster.nodes.get? node = some raft)
    (sent : (cluster.handOut node raft).Sent m) : cluster.Sent m := by
  rcases sent with inNetwork | ⟨other, holder, placed, held⟩
  · rcases List.mem_append.mp inNetwork with old | handed
    · exact .inl old
    · exact .inr ⟨node, raft, present, handed⟩
  · rw [handOut, OrderedMap.get?_insert] at placed
    split at placed
    · cases placed
      cases held
    · exact .inr ⟨other, holder, placed, held⟩

structure Moved (cluster : Cluster) (node : Nat) (m : Message)
    (safe : Nat → Message → RaftLog → Prop) (raft after : Raft) : Prop where
  present : cluster.nodes.get? node = some raft
  handled : m ∈ cluster.network ∧ m.toId = node ∨ m.Local
  move : Move m (safe node m) raft after

variable {property : Cluster → Prop} {safe : Nat → Message → RaftLog → Prop}
  {cluster : Cluster} {node : Nat} {m : Message}

theorem moves_induction {raft after : Raft} (moves : Moves m (safe node m) raft after)
    (moved : ∀ {cluster raft after}, property cluster → Moved cluster node m safe raft after →
      property (cluster.place node after))
    (holds : property cluster) (present : cluster.nodes.get? node = some raft)
    (handled : m ∈ cluster.network ∧ m.toId = node ∨ m.Local) :
    property (cluster.place node after) := by
  induction moves with
  | refl =>
    rw [place_self present]
    exact holds
  | tail _ move induction =>
    rw [← place_place]
    exact moved induction ⟨get?_place_self _ _ _, handled, move⟩

theorem step_induction (property : Cluster → Prop) (safe : Nat → Message → RaftLog → Prop)
    {event : Event} (inTime : cluster.InTime event)
    (safely : ∀ handling ∈ cluster.handled event, handling.raft.Regards handling.message →
      safe handling.node handling.message handling.raft.raftLog)
    (network : ∀ m, cluster.Sent m → m.msgType ≠ .msgSnapshot ∧ m.msgType ≠ .msgHup)
    (moved : ∀ {cluster node m raft after}, property cluster →
      Moved cluster node m safe raft after → property (cluster.place node after))
    (handedOut : ∀ {cluster node raft}, property cluster →
      cluster.nodes.get? node = some raft → property (cluster.handOut node raft))
    (holds : property cluster) : property (cluster.step event) := by
  have acted : ∀ {node handle}, (∀ raft, cluster.nodes.get? node = some raft →
      ∃ m, Moves m (safe node m) raft (handle raft).raft ∧
        (m ∈ cluster.network ∧ m.toId = node ∨ m.Local)) →
      property (cluster.act node handle) := by
    intro node handle moves
    rw [act]
    split
    · exact holds
    · rename_i raft present
      rcases moves raft present with ⟨m, chain, handled⟩
      have placed := moves_induction chain moved holds present handled
      have out := handedOut placed (get?_place_self _ _ _)
      rw [handOut] at out
      have same : (cluster.place node (handle raft).raft).nodes.insert node
          { (handle raft).raft with msgs := [] } =
          cluster.nodes.insert node { (handle raft).raft with msgs := [] } := by
        have := congrArg Cluster.nodes (place_place cluster node (handle raft).raft
          { (handle raft).raft with msgs := [] })
        exact this
      rw [same] at out
      exact out
  cases event with
  | tick node draw =>
    apply acted
    intro raft present
    have handled : ∀ message ∈ raft.tickMessage,
        { node, raft, message } ∈ cluster.handled (.tick node draw) := by
      intro message fires
      simp only [Option.mem_def] at fires
      simp [Cluster.handled, present, fires]
    rcases Raft.tick_moves draw
      (fun m fires => inTime _ (handled m fires)) fun m fires => safely _ (handled m fires) with
      ⟨m, isLocal, moves⟩
    exact ⟨m, moves, .inr isLocal⟩
  | propose node entryType data =>
    apply acted
    intro raft present
    have handled : { node, raft, message := raft.proposeMessage entryType data } ∈
        cluster.handled (.propose node entryType data) := by
      simp [Cluster.handled, present]
    exact ⟨_, Raft.propose_moves 0 (inTime _ handled) (safely _ handled),
      .inr ⟨rfl, .inr (.inr rfl)⟩⟩
  | deliver position draw =>
    rw [step]
    split
    · exact holds
    · rename_i m found
      apply acted
      intro raft present
      have inNetwork : m ∈ cluster.network := List.mem_of_getElem? found
      have handled : { node := m.toId, raft, message := m } ∈
          cluster.handled (.deliver position draw) := by
        simp [Cluster.handled, present, found]
      have kind := network m (.inl inNetwork)
      exact ⟨m, Raft.step_moves draw (safely _ handled) (inTime _ handled) kind.1
        (fun hup => absurd hup kind.2), .inl ⟨inNetwork, rfl⟩⟩

end Cluster

end AegisDB.Consensus

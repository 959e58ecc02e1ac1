import AegisDB.Consensus.Cluster
import AegisDB.Consensus.Posting
import AegisDB.Consensus.RawNode

/-! # Messages between nodes

A cluster of `RawNode`s with a fixed membership. Nodes hand out messages when they are ready
and get them through `RawNode::step`, which turns some away. -/

namespace AegisDB.Consensus

open Foundation RawNode List

/-! ## Clusters of raw nodes -/

structure Setup where
  electionTick : Nat
  heartbeatTick : Nat
  applied : Nat
  hardState : HardState
  firstIndex : Fallible Nat
  lastIndex : Fallible Nat
  entries : Nat → Nat → Fallible (List Entry)
  draw : Nat

def Setup.storage (setup : Setup) (members : List Nat) : Storage where
  initialState := .ok (setup.hardState, { nodes := members })
  firstIndex := setup.firstIndex
  lastIndex := setup.lastIndex
  entries := setup.entries

structure RawCluster where
  nodes : OrderedMap Nat RawNode
  network : List Message

inductive RawEvent where
  | tick (node draw : Nat)
  | campaign (node draw : Nat)
  | propose (node : Nat) (entryType : EntryType) (data : Bytes) (draw : Nat)
  | transferLeader (node transferee draw : Nat)
  | deliver (position draw : Nat)
  | ready (node : Nat)
  | advance (node : Nat) (ready : Ready)
  | restart (node : Nat) (setup : Setup)

namespace RawCluster

def startNode (members : List Nat) (setup : Setup) (id : Nat) : Fallible RawNode := do
  let raft ← Raft.new
    { id, peers := members, electionTick := setup.electionTick,
      heartbeatTick := setup.heartbeatTick, applied := setup.applied }
    (setup.storage members) setup.draw
  return RawNode.new raft

def startNodes (members : List Nat) (setups : Nat → Setup) :
    List Nat → Fallible (OrderedMap Nat RawNode)
  | [] => .ok .empty
  | id :: rest => do
    let node ← startNode members (setups id) id
    let nodes ← startNodes members setups rest
    return nodes.insert id node

def start (members : List Nat) (setups : Nat → Setup) : Fallible RawCluster := do
  let nodes ← startNodes members setups members
  return { nodes, network := [] }

def act (cluster : RawCluster) (node : Nat) (handle : RawNode → RawNode) : RawCluster :=
  match cluster.nodes.get? node with
  | none => cluster
  | some raw => { cluster with nodes := cluster.nodes.insert node (handle raw) }

def step (members : List Nat) (cluster : RawCluster) : RawEvent → RawCluster
  | .tick node draw => cluster.act node fun raw => (raw.tick draw).1
  | .campaign node draw => cluster.act node fun raw => (raw.campaign draw).1
  | .propose node entryType data draw =>
    cluster.act node fun raw => (raw.propose entryType data draw).1
  | .transferLeader node transferee draw =>
    cluster.act node fun raw => (raw.transferLeader transferee draw).1
  | .deliver position draw =>
    match cluster.network[position]? with
    | none => cluster
    | some m => cluster.act m.toId fun raw => (raw.step draw m).1
  | .ready node =>
    match cluster.nodes.get? node with
    | none => cluster
    | some raw =>
      match raw.ready with
      | .error _ => cluster
      | .ok (ready, after) =>
        { nodes := cluster.nodes.insert node after
          network := cluster.network ++ ready.messages }
  | .advance node ready => cluster.act node fun raw => raw.advance ready
  | .restart node setup =>
    match startNode members setup node with
    | .error _ => cluster
    | .ok started => cluster.act node fun _ => started

def run (members : List Nat) (cluster : RawCluster) (events : List RawEvent) : RawCluster :=
  events.foldl (step members) cluster

end RawCluster

/-! ## Raw nodes -/

namespace RawNode

variable {members : List Nat} {node : Nat} {raw after : RawNode} {ready : Ready}

theorem messages_ready (isReady : raw.ready = .ok (ready, after)) :
    ready.messages = raw.raft.msgs ∧ after.raft = { raw.raft with msgs := [] } := by
  rcases Fallible.bind_eq_ok_iff.mp isReady with ⟨entries, _, isReady⟩
  rcases Fallible.bind_eq_ok_iff.mp isReady with ⟨committed, _, isReady⟩
  cases isReady
  exact ⟨rfl, rfl⟩

theorem corresponds_stabilize (index : Nat) :
    (raw.stabilize index).raft.Corresponds members node ↔ raw.raft.Corresponds members node :=
  ⟨fun own => own.change rfl rfl rfl, fun own => own.change rfl rfl rfl⟩

theorem corresponds_applyTo (index : Nat) :
    (raw.applyTo index).raft.Corresponds members node ↔ raw.raft.Corresponds members node :=
  ⟨fun own => own.change rfl rfl rfl, fun own => own.change rfl rfl rfl⟩

theorem corresponds_takePendingSnapshot :
    raw.takePendingSnapshot.raft.Corresponds members node ↔
      raw.raft.Corresponds members node :=
  ⟨fun own => own.change rfl rfl rfl, fun own => own.change rfl rfl rfl⟩

variable (corresponds : raw.raft.Corresponds members node)

include corresponds

theorem corresponds_advance (ready : Ready) :
    (raw.advance ready).raft.Corresponds members node := by
  rw [advance]
  cases ready.softState <;> cases ready.hardState.isEmpty <;> cases ready.entries.getLast? <;>
    cases ready.committedEntries.getLast? <;> cases ready.snapshot <;> dsimp only <;>
    (try split) <;>
    simpa [corresponds_stabilize, corresponds_applyTo, corresponds_takePendingSnapshot]

theorem corresponds_transferLeader (transferee draw : Nat) :
    (raw.transferLeader transferee draw).1.raft.Corresponds members node := by
  rw [transferLeader]
  split
  · exact corresponds
  · split
    · exact corresponds
    · split
      · exact corresponds
      · refine (corresponds.step draw ?_).raft
        trivial

theorem step_cases {m : Message} {sender : Nat} (isMember : sender ∈ members)
    (posted : m.PostedBy sender) (addressed : m.toId = node) (draw : Nat) :
    m.msgType = .msgPropose ∧
        raw.step draw m = (raw, .error (.error "cannot step local message")) ∨
      m.msgType ≠ .msgPropose ∧ raw.raft.Handles m ∧
        raw.step draw m = raw.handle (raw.raft.step draw m) := by
  rcases posted with ⟨isSender, proposal | ⟨notLocal, other⟩⟩
  · left
    rw [step, if_pos (by rw [proposal]; rfl)]
    exact ⟨proposal, rfl⟩
  · right
    have different : m.fromId ≠ raw.raft.id := by
      rw [isSender, corresponds.id, ← addressed]
      exact other.symm
    have known : (raw.raft.prs.get? m.fromId).isSome := by
      rw [isSender, corresponds.peers, ← addressed]
      exact ⟨isMember, other.symm⟩
    refine ⟨?_, ?_, ?_⟩
    · intro proposal
      rw [proposal] at notLocal
      cases notLocal
    · rw [Raft.Handles]
      cases isType : m.msgType with
      | msgHup => trivial
      | msgTransferLeader => trivial
      | msgBeat | msgPropose =>
        rw [isType] at notLocal
        cases notLocal
      | _ => exact different
    · rw [step, if_neg (by simp [notLocal]), if_neg (by simp [Option.isSome_iff_ne_none.mp known])]

end RawNode

/-! ## What holds all along a run -/

namespace RawCluster

structure Corresponds (members : List Nat) (cluster : RawCluster) : Prop where
  nodes : ∀ {node raw}, cluster.nodes.get? node = some raw →
    node ∈ members ∧ raw.raft.Corresponds members node
  network : ∀ m ∈ cluster.network, ∃ node ∈ members, m.PostedBy node

variable {members : List Nat} {cluster : RawCluster}

theorem corresponds_startNode {setup : Setup} {id : Nat} {raw : RawNode}
    (started : startNode members setup id = .ok raw) : raw.raft.Corresponds members id := by
  rcases Fallible.bind_eq_ok_iff.mp started with ⟨raft, made, wrapped⟩
  cases wrapped
  rw [Raft.new] at made
  rcases Fallible.bind_eq_ok_iff.mp made with ⟨_, _, made⟩
  rcases Fallible.bind_eq_ok_iff.mp made with ⟨state, stored, made⟩
  rcases Fallible.bind_eq_ok_iff.mp made with ⟨raftLog, _, made⟩
  cases stored
  cases made
  refine ⟨rfl, ?_, by simp [RawNode.new]⟩
  intro peer
  dsimp only [RawNode.new]
  split
  · simp [Cluster.get?_insertPeers]
  · simp [Cluster.get?_insertPeers]

theorem corresponds_startNodes {setups : Nat → Setup} {ids : List Nat}
    {nodes : OrderedMap Nat RawNode} (started : startNodes members setups ids = .ok nodes)
    {node : Nat} {raw : RawNode} (present : nodes.get? node = some raw) :
    node ∈ ids ∧ raw.raft.Corresponds members node := by
  induction ids generalizing nodes with
  | nil =>
    cases started
    cases present
  | cons head rest induction =>
    rcases Fallible.bind_eq_ok_iff.mp started with ⟨first, firstStarted, started⟩
    rcases Fallible.bind_eq_ok_iff.mp started with ⟨others, remaining, inserted⟩
    cases inserted
    rw [OrderedMap.get?_insert] at present
    split_ifs at present with same
    · subst same
      cases present
      exact ⟨mem_cons_self, corresponds_startNode firstStarted⟩
    · have inner := induction remaining present
      exact ⟨mem_cons_of_mem head inner.1, inner.2⟩

namespace Corresponds

theorem start {setups : Nat → Setup} (started : RawCluster.start members setups = .ok cluster) :
    cluster.Corresponds members := by
  rcases Fallible.bind_eq_ok_iff.mp started with ⟨nodes, nodesStarted, made⟩
  cases made
  exact ⟨fun present => corresponds_startNodes nodesStarted present, by simp⟩

variable (corresponds : cluster.Corresponds members)

include corresponds

theorem replace {node : Nat} {raw after : RawNode}
    {messages : List Message} (present : cluster.nodes.get? node = some raw)
    (keeps : after.raft.Corresponds members node) (posted : ∀ m ∈ messages, m.PostedBy node) :
    Corresponds members
      { nodes := cluster.nodes.insert node after, network := cluster.network ++ messages } where
  nodes {other otherRaw} isOther := by
    rw [OrderedMap.get?_insert] at isOther
    split_ifs at isOther with same
    · subst same
      cases isOther
      exact ⟨(corresponds.nodes present).1, keeps⟩
    · exact corresponds.nodes isOther
  network m member := by
    rcases mem_append.mp member with old | new
    · exact corresponds.network m old
    · exact ⟨node, (corresponds.nodes present).1, posted m new⟩

theorem act {node : Nat} {handle : RawNode → RawNode}
    (handles : ∀ {raw : RawNode}, raw.raft.Corresponds members node →
      (handle raw).raft.Corresponds members node) :
    (cluster.act node handle).Corresponds members := by
  rw [RawCluster.act]
  split
  · exact corresponds
  · rename_i raw present
    have replaced := corresponds.replace present (handles (corresponds.nodes present).2)
      (forall_mem_nil _)
    rw [append_nil] at replaced
    exact replaced

theorem step (event : RawEvent) :
    (cluster.step members event).Corresponds members := by
  cases event with
  | tick node draw => exact corresponds.act fun own => (own.tick draw).raft
  | campaign node draw =>
    refine corresponds.act fun own => (own.step draw ?_).raft
    trivial
  | propose node entryType data draw =>
    exact corresponds.act fun own => (own.propose entryType data draw).raft
  | transferLeader node transferee draw =>
    exact corresponds.act fun own => corresponds_transferLeader own transferee draw
  | deliver position draw =>
    rw [RawCluster.step]
    split
    · exact corresponds
    · rename_i m found
      rcases corresponds.network m (mem_of_getElem? found) with
        ⟨sender, isMember, posted⟩
      refine corresponds.act fun {raw} own => ?_
      rcases step_cases own isMember posted rfl draw with
        ⟨_, refused⟩ | ⟨_, handles, handled⟩
      · rw [refused]
        exact own
      · rw [handled]
        exact (own.step draw handles).raft
  | ready node =>
    rw [RawCluster.step]
    split
    · exact corresponds
    · rename_i raw present
      split
      · exact corresponds
      · rename_i ready after isReady
        rcases messages_ready isReady with ⟨messages, emptied⟩
        have own := (corresponds.nodes present).2
        refine corresponds.replace present ?_ ?_
        · rw [emptied]
          exact ⟨own.id, own.peers, forall_mem_nil _⟩
        · rw [messages]
          exact own.posted
  | advance node ready =>
    exact corresponds.act fun own => corresponds_advance own ready
  | restart node setup =>
    rw [RawCluster.step]
    split
    · exact corresponds
    · rename_i started
      exact corresponds.act fun _ => corresponds_startNode started

theorem run (events : List RawEvent) :
    (cluster.run members events).Corresponds members := by
  induction events generalizing cluster with
  | nil => exact corresponds
  | cons event rest induction => exact induction (corresponds.step event)

end Corresponds

/-- Of the messages that nodes hand out, `RawNode::step` turns away those proposals that a
follower has passed on, and no others. -/
theorem not_refused_iff (members : List Nat) (setups : Nat → Setup) (cluster : RawCluster)
    (events : List RawEvent) (m : Message) (raw : RawNode) (draw : Nat)
    (started : start members setups = .ok cluster)
    (handedOut : m ∈ (cluster.run members events).network)
    (present : (cluster.run members events).nodes.get? m.toId = some raw) :
    (∀ message, (raw.step draw m).2 = .error (.error message) → ¬ IsRefusal message) ↔
      m.msgType ≠ .msgPropose := by
  have corresponds := (Corresponds.start started).run events
  rcases corresponds.network m handedOut with ⟨sender, isMember, posted⟩
  have own := (corresponds.nodes present).2
  rcases step_cases own isMember posted rfl draw with
    ⟨proposal, refused⟩ | ⟨notProposal, handles, handled⟩
  · rw [refused]
    refine iff_of_false ?_ (not_not.mpr proposal)
    intro accepted
    exact accepted _ rfl (.inl rfl)
  · rw [handled]
    exact iff_of_true (own.step draw handles).error notProposal

def Setup.fresh : Setup where
  electionTick := 10
  heartbeatTick := 1
  applied := 0
  hardState := { term := 0, vote := NONE, commit := 0 }
  firstIndex := .ok 1
  lastIndex := .ok 0
  entries := fun _ _ => .ok []
  draw := 0

def requested : Message where
  msgType := .msgRequestVote
  toId := 2
  fromId := 1
  term := 1

theorem requested_not_refused :
    ∃ cluster raw, start [1, 2] (fun _ => Setup.fresh) = .ok cluster ∧
      (cluster.run [1, 2] [.campaign 1 0, .ready 1]).nodes.get? 2 = some raw ∧
      ((∀ message, (raw.step 0 requested).2 = .error (.error message) → ¬ IsRefusal message) ↔
        requested.msgType ≠ .msgPropose) :=
  ⟨_, _, rfl, rfl, not_refused_iff [1, 2] (fun _ => Setup.fresh) _ [.campaign 1 0, .ready 1]
    requested _ 0 rfl (by decide +kernel) rfl⟩

def proposalToFollower : List RawEvent :=
  [.campaign 1 0, .ready 1, .deliver 0 0, .ready 2, .deliver 1 0, .ready 1, .deliver 2 0,
    .propose 2 .normal [7] 0, .ready 2]

def passedOn : Message where
  msgType := .msgPropose
  toId := 1
  fromId := 2
  entries := [{ entryType := .normal, term := 1, index := 0, data := [7] }]

theorem proposal_to_follower_refused :
    ∃ cluster raw, start [1, 2] (fun _ => Setup.fresh) = .ok cluster ∧
      passedOn ∈ (cluster.run [1, 2] proposalToFollower).network ∧
      (cluster.run [1, 2] proposalToFollower).nodes.get? passedOn.toId = some raw ∧
      (raw.step 0 passedOn).2 = .error (.error "cannot step local message") := by
  refine ⟨_, _, rfl, ?_, rfl, rfl⟩
  decide +kernel

end RawCluster

end AegisDB.Consensus

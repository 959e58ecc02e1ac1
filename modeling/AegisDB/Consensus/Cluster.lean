import AegisDB.Consensus.Raft
import AegisDB.Foundation.Transition

/-! # Clusters

Nodes with a fixed membership and the messages they have handed out. Every message
ever sent stays in the network, so that it can be delivered late, more than once, in
any order or never. -/

namespace AegisDB.Consensus

open Foundation OrderedMap

structure Cluster where
  nodes : OrderedMap Nat Raft
  network : List Message

inductive Event where
  | tick (node draw : Nat)
  | propose (node : Nat) (entryType : EntryType) (data : Bytes)
  | deliver (position draw : Nat)
deriving DecidableEq, Repr

structure Settings where
  electionTick : Nat
  heartbeatTick : Nat
  draw : Nat

namespace Cluster

def startNode (members : List Nat) (settings : Settings) (id : Nat) : Fallible Raft :=
  Raft.new
    { id, peers := members, electionTick := settings.electionTick,
      heartbeatTick := settings.heartbeatTick, applied := 0 }
    (.fresh members) settings.draw

def startNodes (members : List Nat) (settings : Nat → Settings) :
    List Nat → Fallible (OrderedMap Nat Raft)
  | [] => .ok .empty
  | id :: rest => do
    let node ← startNode members (settings id) id
    let nodes ← startNodes members settings rest
    return nodes.insert id node

def start (members : List Nat) (settings : Nat → Settings) : Fallible Cluster := do
  let nodes ← startNodes members settings members
  return { nodes, network := [] }

def act (cluster : Cluster) (node : Nat) (handle : Raft → Outcome) : Cluster :=
  match cluster.nodes.get? node with
  | none => cluster
  | some raft =>
    let after := (handle raft).raft
    { nodes := cluster.nodes.insert node { after with msgs := [] }
      network := cluster.network ++ after.msgs }

def step (cluster : Cluster) : Event → Cluster
  | .tick node draw => cluster.act node fun raft => raft.tick draw
  | .propose node entryType data => cluster.act node fun raft => raft.propose entryType data 0
  | .deliver position draw =>
    match cluster.network[position]? with
    | none => cluster
    | some m => cluster.act m.toId fun raft => raft.step draw m

def run (cluster : Cluster) (events : List Event) : Cluster := events.foldl step cluster

/-! ## Messages on their way -/

def Sent (cluster : Cluster) (m : Message) : Prop :=
  m ∈ cluster.network ∨ ∃ node raft, cluster.nodes.get? node = some raft ∧ m ∈ raft.msgs

def place (cluster : Cluster) (node : Nat) (raft : Raft) : Cluster :=
  { cluster with nodes := cluster.nodes.insert node raft }

theorem get?_place (cluster : Cluster) (node other : Nat) (raft : Raft) :
    (cluster.place node raft).nodes.get? other =
      if other = node then some raft else cluster.nodes.get? other :=
  get?_insert _ _ _ _

theorem get?_place_self (cluster : Cluster) (node : Nat) (raft : Raft) :
    (cluster.place node raft).nodes.get? node = some raft :=
  get?_insert_same _ _ _

theorem place_place (cluster : Cluster) (node : Nat) (first second : Raft) :
    (cluster.place node first).place node second = cluster.place node second := by
  rw [place, place, place, insert_insert]

variable {cluster : Cluster} {node : Nat} {raft : Raft}

theorem place_self
    (present : cluster.nodes.get? node = some raft) : cluster.place node raft = cluster := by
  rcases cluster with ⟨nodes, network⟩
  rw [place, Cluster.mk.injEq]
  refine ⟨?_, rfl⟩
  ext1 other
  rw [get?_insert]
  split_ifs with same
  · subst same
    exact present.symm
  · rfl

theorem sent_place {m : Message}
    (sent : (cluster.place node raft).Sent m) : cluster.Sent m ∨ m ∈ raft.msgs := by
  rcases sent with inNetwork | ⟨other, holder, present, held⟩
  · exact .inl (.inl inNetwork)
  · rw [get?_place] at present
    split at present
    · cases present
      exact .inr held
    · exact .inl (.inr ⟨other, holder, present, held⟩)

/-! ## The start of a run -/

variable {id : Nat}

theorem get?_insertPeers {progress : Progress} {prs : OrderedMap Nat Progress}
    {peers : List Nat} {peer : Nat} :
    ((Raft.insertPeers id progress prs peers).get? peer).isSome ↔
      (prs.get? peer).isSome ∨ peer ∈ peers ∧ peer ≠ id := by
  induction peers generalizing prs with
  | nil => simp [Raft.insertPeers]
  | cons head rest induction =>
    have inner := @induction (if head ≠ id then prs.insert head progress else prs)
    rw [Raft.insertPeers, List.foldl_cons, ← Raft.insertPeers, inner]
    split_ifs with other
    · rw [get?_insert]
      split_ifs with same
      · simp [same, other]
      · simp [same]
    · by_cases same : peer = head
      · simp [same, not_not.mp other]
      · simp [same]

structure Fresh (members : List Nat) (node : Nat) (raft : Raft) : Prop where
  id : raft.id = node
  notNone : node ≠ NONE
  term : raft.term = 0
  state : raft.state = .follower
  msgs : raft.msgs = []
  raftLog : raft.raftLog =
    { committed := 0, applied := 0, stabled := 0, entries := [], pendingSnapshot := none }
  peers : ∀ peer, (raft.prs.get? peer).isSome ↔ peer ∈ members ∧ peer ≠ node

variable {members : List Nat}

theorem fresh_of_startNode {settings : Settings}
    (started : startNode members settings id = .ok raft) : Fresh members id raft := by
  rw [startNode, Raft.new] at started
  rcases Fallible.bind_eq_ok_iff.mp started with ⟨_, valid, started⟩
  have notNone : id ≠ NONE := by
    intro isNone
    rw [RaftConfig.validate, if_pos isNone] at valid
    cases valid
  cases started
  refine ⟨rfl, notNone, rfl, rfl, rfl, rfl, ?_⟩
  intro peer
  dsimp only
  split
  · simp [get?_insertPeers]
  · simp [get?_insertPeers]

variable {settings : Nat → Settings}

theorem get?_startNodes {ids : List Nat} {nodes : OrderedMap Nat Raft}
    (started : startNodes members settings ids = .ok nodes) (present : nodes.get? id = some raft) :
    id ∈ ids ∧ startNode members (settings id) id = .ok raft := by
  induction ids generalizing nodes with
  | nil =>
    cases started
    cases present
  | cons head rest induction =>
    rcases Fallible.bind_eq_ok_iff.mp started with ⟨node, first, started⟩
    rcases Fallible.bind_eq_ok_iff.mp started with ⟨others, remaining, inserted⟩
    cases inserted
    rw [get?_insert] at present
    split_ifs at present with same
    · subst same
      cases present
      exact ⟨List.mem_cons_self, first⟩
    · have inner := induction remaining present
      exact ⟨List.mem_cons_of_mem head inner.1, inner.2⟩

theorem start_eq_ok (started : start members settings = .ok cluster) :
    startNodes members settings members = .ok cluster.nodes ∧ cluster.network = [] := by
  rcases Fallible.bind_eq_ok_iff.mp started with ⟨nodes, nodesStarted, made⟩
  cases made
  exact ⟨nodesStarted, rfl⟩

theorem fresh_of_start (started : start members settings = .ok cluster)
    (present : cluster.nodes.get? node = some raft) : node ∈ members ∧ Fresh members node raft := by
  rcases get?_startNodes (start_eq_ok started).1 present with ⟨member, nodeStarted⟩
  exact ⟨member, fresh_of_startNode nodeStarted⟩

end Cluster

end AegisDB.Consensus

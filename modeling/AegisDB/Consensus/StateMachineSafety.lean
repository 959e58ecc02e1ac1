import AegisDB.Consensus.ElectionSafety
import AegisDB.Consensus.LogMoves

/-! # State machine safety

Followers commit on a heartbeat without knowing that their entries are the leader's,
drop entries that an older append does not mention, and keep entries that an append
from the first index should replace. Runs in which the logs are fit for the messages
are runs of the replication protocol, in which nodes agree on what is committed. -/

namespace AegisDB.Consensus

open Foundation

namespace Cluster

def StateMachineSafe (cluster : Cluster) : Prop :=
  ∀ left right leftRaft rightRaft index,
    cluster.nodes.get? left = some leftRaft → cluster.nodes.get? right = some rightRaft →
    0 < index → index ≤ leftRaft.raftLog.committed → index ≤ rightRaft.raftLog.committed →
    ∃ leftEntry rightEntry, leftRaft.raftLog.entryAt index = some leftEntry ∧
      rightRaft.raftLog.entryAt index = some rightEntry ∧
      leftEntry.term = rightEntry.term ∧ leftEntry.data = rightEntry.data

def Fits (cluster : Cluster) (event : Event) : Prop :=
  cluster.InTime event ∧ ∀ handling ∈ cluster.handled event,
    handling.raft.Regards handling.message →
      handling.raft.raftLog.FitFor cluster.network handling.node handling.message

instance decidableFits (cluster : Cluster) (event : Event) : Decidable (cluster.Fits event) :=
  @instDecidableAnd _ _ (decidableInTime cluster event)
    (Option.decidableForallMem (cluster.handled event))

end Cluster

/-! ## The protocol along a run -/

section Run

variable {members : Finset Nat} {cluster : Cluster} {election : Election Nat}
  {state : Replication Nat Entry}

structure Refines (members : Finset Nat) (cluster : Cluster) (election : Election Nat)
    (state : Replication Nat Entry) : Prop where
  elected : election.Invariant members
  votes : Votes members cluster election
  reached : Relation.ReflTransGen (Replication.Step Entry.term members) .start state
  logs : Logs cluster election state

theorem Refines.invariant (refines : Refines members cluster election state) :
    state.Invariant Entry.term members :=
  Replication.invariant_of_steps refines.reached (Replication.invariant_start _ _)

theorem MessageLogs.handOut {node : Nat} {raft : Raft} {m : Message}
    (logs : MessageLogs cluster state m) (present : cluster.nodes.get? node = some raft) :
    MessageLogs (cluster.handOut node raft) state m := by
  have forward : Forward raft { raft with msgs := [] } :=
    ⟨le_rfl, fun candidate _ => ⟨candidate, rfl⟩⟩
  have placed := logs.place present (.refl state) forward
  exact ⟨placed.append, placed.heartbeat, placed.accepted, placed.request, placed.granted⟩

theorem Logs.handOut {node : Nat} {raft : Raft} (logs : Logs cluster election state)
    (present : cluster.nodes.get? node = some raft) :
    Logs (cluster.handOut node raft) election state where
  nodes := by
    intro other otherRaft found
    rw [Cluster.handOut, OrderedMap.get?_insert] at found
    split_ifs at found with same
    · subst same
      cases found
      exact (logs.nodes present).of_sameLogs ⟨rfl, rfl, rfl, rfl, rfl⟩
    · exact logs.nodes found
  messages := fun sent => (logs.messages (Cluster.sent_handOut present sent)).handOut present
  numbered := logs.numbered
  small := logs.small
  leaders := logs.leaders

theorem logs_start {ids : List Nat} {settings : Nat → Settings}
    (started : Cluster.start ids settings = .ok cluster) :
    Logs cluster .start .start where
  nodes := by
    intro node raft present
    rcases Cluster.fresh_of_start started present with ⟨_, start⟩
    exact {
      contiguous := by
        rw [start.raftLog]
        exact ⟨rfl, rfl, nofun, by decide⟩
      term := start.term.symm
      log := by
        rw [start.raftLog]
        rfl
      commit := by
        rw [start.raftLog]
        rfl
      positive := fun notFollower => absurd start.state notFollower
      leads := by simp [start.state]
      progress := by simp [start.state]
      support := by simp [start.state] }
  messages := by
    rintro m (inNetwork | ⟨node, raft, present, held⟩)
    · simp [(Cluster.start_eq_ok started).2] at inNetwork
    · simp [(Cluster.fresh_of_start started present).2.msgs] at held
  numbered := fun _ => nofun
  small := by
    intro term
    change 0 + 1 < wordSize
    decide
  leaders := fun notEmpty => absurd rfl notEmpty

theorem Refines.step {event : Event} (refines : Refines members cluster election state)
    (fits : cluster.Fits event) :
    ∃ nextElection next, Refines members (cluster.step event) nextElection next := by
  have preserved : ∃ nextElection next, Refines members (cluster.step event) nextElection next ∧
      cluster.network ⊆ (cluster.step event).network := by
    refine Cluster.step_induction
      (fun later => ∃ nextElection next, Refines members later nextElection next ∧
        cluster.network ⊆ later.network)
      (fun node m log => log.FitFor cluster.network node m) fits.1 fits.2 ?_ ?_ ?_
      ⟨election, state, refines, List.Subset.refl _⟩
    · intro m sent
      have message := refines.votes.messages sent
      exact ⟨message.notSnapshot, message.notHup⟩
    · rintro later node m raft after ⟨_, _, refines, kept⟩ moved
      rcases refines.logs.move refines.votes refines.elected refines.invariant kept moved with
        ⟨nextElection, elected, votes, next, steps, logs⟩
      exact ⟨nextElection, next, ⟨elected, votes, refines.reached.trans steps, logs⟩, kept⟩
    · rintro later node raft ⟨nextElection, next, refines, kept⟩ present
      exact ⟨nextElection, next, ⟨refines.elected, refines.votes.handOut present,
        refines.reached, refines.logs.handOut present⟩,
        fun m old => List.mem_append_left _ (kept old)⟩
  rcases preserved with ⟨nextElection, next, after, _⟩
  exact ⟨nextElection, next, after⟩

end Run

theorem refines_run {ids : List Nat} {settings : Nat → Settings} {cluster : Cluster}
    {events : List Event} (started : Cluster.start ids settings = .ok cluster)
    (fits : Guarded Cluster.step Cluster.Fits cluster events) :
    ∃ election state, Refines ids.toFinset (cluster.run events) election state := by
  refine fits.induction (motive := fun events =>
    ∃ election state, Refines ids.toFinset (cluster.run events) election state) ?_ ?_
  · exact ⟨.start, .start, Election.invariant_start _, votes_start started, .refl,
      logs_start started⟩
  · rintro past event _ allowed ⟨election, state, refines⟩
    have reached : (cluster.run past).step event = cluster.run (past ++ [event]) := by
      simp [Cluster.run]
    rw [← reached]
    exact refines.step allowed

/-! ## The result -/

theorem Refines.stateMachineSafe {members : Finset Nat} {cluster : Cluster}
    {election : Election Nat} {state : Replication Nat Entry}
    (refines : Refines members cluster election state) : cluster.StateMachineSafe := by
  intro left right leftRaft rightRaft index leftPresent rightPresent positive leftCommitted
    rightCommitted
  have leftLogs := refines.logs.nodes leftPresent
  have rightLogs := refines.logs.nodes rightPresent
  rw [← leftLogs.commit] at leftCommitted
  rw [← rightLogs.commit] at rightCommitted
  have leftPosition : index - 1 < state.commit left := by omega
  have rightPosition : index - 1 < state.commit right := by omega
  rcases refines.invariant.agree leftPosition rightPosition with ⟨entry, inLeft, inRight⟩
  refine ⟨entry, entry, ?_, ?_, rfl, rfl⟩
  · rw [leftLogs.contiguous.entryAt positive, ← leftLogs.log, inLeft]
  · rw [rightLogs.contiguous.entryAt positive, ← rightLogs.log, inRight]

/-- Nodes agree on what is committed in a run in which logs fit the messages they get. -/
theorem stateMachineSafe_of_fits {ids : List Nat} {settings : Nat → Settings} {cluster : Cluster}
    {events : List Event} (started : Cluster.start ids settings = .ok cluster)
    (fits : Guarded Cluster.step Cluster.Fits cluster events) :
    (cluster.run events).StateMachineSafe := by
  rcases refines_run started fits with ⟨_, _, refines⟩
  exact refines.stateMachineSafe

def fiveNodes : Cluster :=
  match Cluster.start [1, 2, 3, 4, 5]
      fun _ => { electionTick := 2, heartbeatTick := 1, draw := 0 } with
  | .ok cluster => cluster
  | .error _ => { nodes := .empty, network := [] }

theorem fiveNodes_started :
    Cluster.start [1, 2, 3, 4, 5]
      (fun _ => { electionTick := 2, heartbeatTick := 1, draw := 0 }) = .ok fiveNodes := rfl

def twoLeaders : List Event :=
  [.tick 1 0, .tick 1 0, .deliver 0 0, .deliver 1 0, .deliver 4 0, .deliver 5 0,
    .tick 2 0, .tick 2 0, .deliver 11 0, .deliver 12 0, .deliver 14 0, .deliver 15 0,
    .deliver 17 0, .deliver 18 0, .deliver 19 0, .deliver 20 0, .deliver 21 0, .deliver 22 0,
    .tick 2 0]

/-- Node 3 commits on the heartbeat what it has acknowledged. -/
theorem stateMachineSafe_committed :
    (∀ node ∈ [2, 3], ∃ raft ∈ (fiveNodes.run (twoLeaders ++ [.deliver 24 0])).nodes.get? node,
      raft.raftLog.committed = 1) ∧
    (fiveNodes.run (twoLeaders ++ [.deliver 24 0])).StateMachineSafe :=
  ⟨by decide +kernel, stateMachineSafe_of_fits fiveNodes_started (by decide +kernel)⟩

/-- Node 1 commits on the heartbeat the entry of term 1 that it still has. -/
theorem conflicting_commits :
    ∃ ids settings cluster events, Cluster.start ids settings = .ok cluster ∧
      ¬ (cluster.run events).StateMachineSafe := by
  refine ⟨_, _, fiveNodes, twoLeaders ++ [.deliver 23 0], fiveNodes_started, ?_⟩
  intro safe
  have first : (((fiveNodes.run (twoLeaders ++ [.deliver 23 0])).nodes.get? 1).map
      fun raft => (raft.raftLog.committed, (raft.raftLog.entryAt 1).map Entry.term)) =
      some (1, some 1) := by decide +kernel
  have second : (((fiveNodes.run (twoLeaders ++ [.deliver 23 0])).nodes.get? 2).map
      fun raft => (raft.raftLog.committed, (raft.raftLog.entryAt 1).map Entry.term)) =
      some (1, some 2) := by decide +kernel
  rcases Option.map_eq_some_iff.mp first with ⟨left, leftPresent, leftSays⟩
  rcases Option.map_eq_some_iff.mp second with ⟨right, rightPresent, rightSays⟩
  simp only [Prod.mk.injEq] at leftSays rightSays
  obtain ⟨_, _, leftFound, rightFound, same, _⟩ :=
    safe 1 2 left right 1 leftPresent rightPresent Nat.one_pos leftSays.1.ge rightSays.1.ge
  rw [leftFound, Option.map_some, Option.some.injEq] at leftSays
  rw [rightFound, Option.map_some, Option.some.injEq] at rightSays
  omega

/-! ## Logs match -/

/-- Logs with an entry of the same term at a position are equal up to it. -/
def Cluster.LogsMatch (cluster : Cluster) : Prop :=
  ∀ left right leftRaft rightRaft (position : Nat) (first second : Entry),
    cluster.nodes.get? left = some leftRaft → cluster.nodes.get? right = some rightRaft →
    leftRaft.raftLog.entries[position]? = some first →
    rightRaft.raftLog.entries[position]? = some second → first.term = second.term →
    leftRaft.raftLog.entries.take (position + 1) = rightRaft.raftLog.entries.take (position + 1)

/-- In runs in which the logs are fit for the messages, an entry of the same term comes
after the same entries on every node that has it. -/
theorem logsMatch_of_fits {ids : List Nat} {settings : Nat → Settings} {cluster : Cluster}
    {events : List Event} (started : Cluster.start ids settings = .ok cluster)
    (fits : Guarded Cluster.step Cluster.Fits cluster events) :
    (cluster.run events).LogsMatch := by
  rcases refines_run started fits with ⟨_, _, refines⟩
  intro left right leftRaft rightRaft position first second leftPresent rightPresent inLeft inRight
    sameTerm
  have leftLogs := refines.logs.nodes leftPresent
  have rightLogs := refines.logs.nodes rightPresent
  rw [← leftLogs.log] at inLeft ⊢
  rw [← rightLogs.log] at inRight ⊢
  rw [← (refines.invariant.logs left).take_leaderLog inLeft, sameTerm,
    (refines.invariant.logs right).take_leaderLog inRight]

theorem logsMatch_twoLeaders : (fiveNodes.run twoLeaders).LogsMatch :=
  logsMatch_of_fits fiveNodes_started (by decide +kernel)

end AegisDB.Consensus

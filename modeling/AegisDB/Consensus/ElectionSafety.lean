import AegisDB.Consensus.Voting

/-! # Election safety

A candidate that is given an append or a heartbeat of an older term falls back to that
term and forgets its vote there, after which a term can get a second leader. Runs in
which this does not happen have at most one leader per term. -/

namespace AegisDB.Consensus

open Foundation Election List

namespace Cluster

def Leads (cluster : Cluster) (node term : Nat) : Prop :=
  ∃ raft ∈ cluster.nodes.get? node, raft.state = .leader ∧ raft.term = term

instance decidableLeads (cluster : Cluster) (node term : Nat) :
    Decidable (cluster.Leads node term) :=
  Option.decidableExistsMem (cluster.nodes.get? node)

def ElectionSafe (cluster : Cluster) (events : List Event) : Prop :=
  ∀ first second, first <+: events → second <+: events → ∀ left right term,
    (cluster.run first).Leads left term → (cluster.run second).Leads right term → left = right

end Cluster

/-! ## The election along a run -/

section Run

variable {members : Finset Nat} {cluster : Cluster} {election : Election Nat}

theorem Votes.handOut {node : Nat} {raft : Raft} (votes : Votes members cluster election)
    (present : cluster.nodes.get? node = some raft) :
    Votes members (cluster.handOut node raft) election where
  nodes := by
    intro other otherRaft found
    rw [Cluster.handOut, OrderedMap.get?_insert] at found
    split_ifs at found with same
    · subst same
      cases found
      exact (votes.nodes present).of_sameBallot ⟨rfl, rfl, rfl, rfl, rfl, fun _ => Iff.rfl⟩
    · exact votes.nodes found
  messages := fun sent => votes.messages (Cluster.sent_handOut present sent)

theorem votes_start {ids : List Nat} {settings : Nat → Settings}
    (started : Cluster.start ids settings = .ok cluster) :
    Votes ids.toFinset cluster Election.start := by
  constructor
  · intro node raft present
    rcases Cluster.fresh_of_start started present with ⟨member, start⟩
    exact {
      id := start.id
      member := mem_toFinset.mpr member
      notNone := start.notNone
      peers := by
        intro peer
        rw [start.peers, mem_toFinset]
      term := start.term.symm
      role := by
        rw [start.state]
        rfl
      ownVote := fun notFollower => absurd start.state notFollower
      givenVote := fun _ _ impossible => impossible.elim
      support := fun candidate => by simp [start.state] at candidate
      led := fun leader => by simp [start.state] at leader }
  · rintro m (inNetwork | ⟨node, raft, present, held⟩)
    · simp [(Cluster.start_eq_ok started).2] at inNetwork
    · simp [(Cluster.fresh_of_start started present).2.msgs] at held

theorem Votes.step {event : Event} (votes : Votes members cluster election)
    (invariant : election.Invariant members) (inTime : cluster.InTime event) :
    ∃ next, Election.Invariant members next ∧ Votes members (cluster.step event) next ∧
      ∀ node term, election.led node term → next.led node term := by
  refine Cluster.step_induction
    (fun cluster => ∃ next, Election.Invariant members next ∧ Votes members cluster next ∧
      ∀ node term, election.led node term → next.led node term)
    (fun _ _ _ => True) inTime (fun _ _ _ => trivial) ?_ ?_ ?_
    ⟨election, invariant, votes, fun _ _ => id⟩
  · intro m sent
    exact ⟨(votes.messages sent).notSnapshot, (votes.messages sent).notHup⟩
  · rintro cluster node m raft after ⟨next, inside, nextVotes, kept⟩ moved
    rcases nextVotes.move inside moved with ⟨later, step, laterVotes⟩
    cases step with
    | refl => exact ⟨next, inside, laterVotes, kept⟩
    | single step =>
      exact ⟨later, step.invariant inside, laterVotes,
        fun node term led => step.led (kept node term led)⟩
  · rintro cluster node raft ⟨next, inside, nextVotes, kept⟩ present
    exact ⟨next, inside, nextVotes.handOut present, kept⟩

theorem Votes.leads (votes : Votes members cluster election) {node term : Nat}
    (leads : cluster.Leads node term) : election.led node term := by
  rcases leads with ⟨raft, present, leader, rfl⟩
  exact (votes.nodes present).led leader

end Run

theorem votes_run {ids : List Nat} {settings : Nat → Settings} {cluster : Cluster}
    {events : List Event} (started : Cluster.start ids settings = .ok cluster)
    (inTime : Guarded Cluster.step Cluster.InTime cluster events) :
    ∃ election, Election.Invariant ids.toFinset election ∧
      Votes ids.toFinset (cluster.run events) election ∧
      ∀ past, past <+: events → ∀ node term, (cluster.run past).Leads node term →
        election.led node term := by
  refine inTime.induction (motive := fun events =>
    ∃ election, Election.Invariant ids.toFinset election ∧
      Votes ids.toFinset (cluster.run events) election ∧
      ∀ past, past <+: events → ∀ node term, (cluster.run past).Leads node term →
        election.led node term) ?_ ?_
  · refine ⟨.start, invariant_start _, votes_start started, ?_⟩
    intro past isPrefix node term leads
    rw [prefix_nil.mp isPrefix] at leads
    exact (votes_start started).leads leads
  · rintro past event _ allowed ⟨election, invariant, votes, led⟩
    rcases votes.step invariant allowed with ⟨next, inside, nextVotes, kept⟩
    have reached : (cluster.run past).step event = cluster.run (past ++ [event]) := by
      simp [Cluster.run]
    rw [reached] at nextVotes
    refine ⟨next, inside, nextVotes, ?_⟩
    intro earlier isPrefix node term leads
    rcases prefix_concat_iff.mp isPrefix with rfl | before
    · exact nextVotes.leads leads
    · exact kept node term (led earlier before node term leads)

/-! ## The result -/

/-- No term has two leaders in a run in which messages are handled in time. -/
theorem electionSafe_of_inTime {ids : List Nat} {settings : Nat → Settings} {cluster : Cluster}
    {events : List Event} (started : Cluster.start ids settings = .ok cluster)
    (inTime : Guarded Cluster.step Cluster.InTime cluster events) :
    cluster.ElectionSafe events := by
  rcases votes_run started inTime with ⟨election, invariant, _, led⟩
  intro first second firstPast secondPast left right term leftLeads rightLeads
  exact invariant.leader_unique (led first firstPast left term leftLeads)
    (led second secondPast right term rightLeads)

def threeNodes : Cluster :=
  match Cluster.start [1, 2, 3] fun _ => { electionTick := 2, heartbeatTick := 1, draw := 0 } with
  | .ok cluster => cluster
  | .error _ => { nodes := .empty, network := [] }

theorem threeNodes_started :
    Cluster.start [1, 2, 3] (fun _ => { electionTick := 2, heartbeatTick := 1, draw := 0 }) =
      .ok threeNodes := rfl

/-- Node 1 leads term 1 and node 2 leads term 2. -/
theorem electionSafe_two_elections :
    (threeNodes.run [.tick 1 0, .tick 1 0, .deliver 1 0, .deliver 2 0]).Leads 1 1 ∧
      threeNodes.ElectionSafe [.tick 1 0, .tick 1 0, .deliver 1 0, .deliver 2 0, .tick 2 0,
        .tick 2 0, .tick 2 0, .tick 2 0, .deliver 8 0, .deliver 9 0] :=
  ⟨by decide +kernel, electionSafe_of_inTime threeNodes_started (by decide +kernel)⟩

/-- Node 3 votes for node 1 in term 1 and stands in term 2. The heartbeat of term 1 takes
it back to term 1 without a vote, and it votes there for node 2 as well. -/
theorem two_leaders_in_one_term :
    ∃ ids settings cluster events, Cluster.start ids settings = .ok cluster ∧
      ¬ cluster.ElectionSafe events := by
  refine ⟨_, _, threeNodes, [.tick 1 0, .tick 1 0, .deliver 1 0, .deliver 2 0, .tick 1 0,
    .tick 3 0, .tick 3 0, .deliver 6 0, .tick 2 0, .tick 2 0, .deliver 11 0, .deliver 12 0],
    threeNodes_started, ?_⟩
  intro safe
  have same := safe _ _ prefix_rfl prefix_rfl 1 2 1 (by decide +kernel)
    (by decide +kernel)
  exact absurd same (by decide)

end AegisDB.Consensus

import AegisDB.Consensus.Runs
import AegisDB.Foundation.Election
import Mathlib.Data.Finset.Basic

/-! # A cluster votes

The term, vote and role bookkeeping of the nodes and their vote messages follow the
election protocol: each move is a step of it or leaves it where it is. -/

namespace AegisDB.Consensus

open Foundation Function OrderedMap Election

def StateType.role : StateType → Role
  | .follower => .follower
  | .candidate => .candidate
  | .leader => .leader

/-! ## What nodes and messages say about the election -/

structure NodeVotes (members : Finset Nat) (election : Election Nat) (node : Nat) (raft : Raft) :
    Prop where
  id : raft.id = node
  member : node ∈ members
  notNone : node ≠ NONE
  peers : ∀ peer, (raft.prs.get? peer).isSome ↔ peer ∈ members ∧ peer ≠ node
  term : election.term node = raft.term
  role : election.role node = raft.state.role
  ownVote : raft.state ≠ .follower → raft.vote = node
  givenVote : raft.state = .follower → ∀ candidate,
    election.granted node candidate raft.term → raft.vote = candidate ∧ candidate ≠ NONE
  support : raft.state = .candidate → ∀ voter, raft.votes.get? voter = some true →
    voter = node ∨ election.granted voter node raft.term
  led : raft.state = .leader → election.led node raft.term

structure MessageVotes (election : Election Nat) (m : Message) : Prop where
  notSnapshot : m.msgType ≠ .msgSnapshot
  notHup : m.msgType ≠ .msgHup
  request : m.msgType = .msgRequestVote → m.fromId ≠ m.toId ∧ m.fromId ≠ NONE
  response : m.msgType = .msgRequestVoteResponse → m.reject = false →
    election.granted m.fromId m.toId m.term

structure Votes (members : Finset Nat) (cluster : Cluster) (election : Election Nat) : Prop where
  nodes : ∀ {node raft}, cluster.nodes.get? node = some raft →
    NodeVotes members election node raft
  messages : ∀ {m}, cluster.Sent m → MessageVotes election m

section Transfer

variable {members : Finset Nat} {election next : Election Nat}

structure SameBallot (raft after : Raft) : Prop where
  id : after.id = raft.id
  term : after.term = raft.term
  vote : after.vote = raft.vote
  state : after.state = raft.state
  votes : after.votes = raft.votes
  peers : ∀ peer, (after.prs.get? peer).isSome ↔ (raft.prs.get? peer).isSome

theorem SameBallot.of_raftLog (raft : Raft) (raftLog : RaftLog) :
    SameBallot raft { raft with raftLog } :=
  ⟨rfl, rfl, rfl, rfl, rfl, fun _ => Iff.rfl⟩

theorem SameBallot.noteResponse (raft : Raft) (m : Message) :
    SameBallot raft (raft.noteResponse m) := by
  have peers : ∀ peer, ((raft.noteResponse m).prs.get? peer).isSome ↔
      (raft.prs.get? peer).isSome := by
    intro peer
    rw [Raft.noteResponse]
    split
    · exact Iff.rfl
    · rename_i progress found
      dsimp only
      rw [get?_insert]
      split
      · rename_i same
        simp [same, found]
      · exact Iff.rfl
  rw [Raft.noteResponse_eq]
  exact ⟨rfl, rfl, rfl, rfl, rfl, peers⟩

variable {node : Nat} {raft after : Raft}

theorem NodeVotes.of_sameBallot
    (votes : NodeVotes members election node raft) (same : SameBallot raft after) :
    NodeVotes members election node after where
  id := same.id.trans votes.id
  member := votes.member
  notNone := votes.notNone
  peers := fun peer => (same.peers peer).trans (votes.peers peer)
  term := votes.term.trans same.term.symm
  role := by
    rw [same.state]
    exact votes.role
  ownVote := by
    rw [same.state, same.vote]
    exact votes.ownVote
  givenVote := by
    rw [same.state, same.vote, same.term]
    exact votes.givenVote
  support := by
    rw [same.state, same.votes, same.term]
    exact votes.support
  led := by
    rw [same.state, same.term]
    exact votes.led

theorem NodeVotes.of_elsewhere
    (votes : NodeVotes members election node raft)
    (sameTerm : next.term node = election.term node)
    (sameRole : next.role node = election.role node)
    (granted : ∀ {voter candidate term}, election.granted voter candidate term →
      next.granted voter candidate term)
    (ownGrants : ∀ {candidate term}, next.granted node candidate term →
      election.granted node candidate term)
    (led : ∀ {leader term}, election.led leader term → next.led leader term) :
    NodeVotes members next node raft :=
  { votes with
    term := sameTerm.trans votes.term
    role := sameRole.trans votes.role
    givenVote := fun follower candidate given =>
      votes.givenVote follower candidate (ownGrants given)
    support := fun candidate voter yes => (votes.support candidate voter yes).imp_right granted
    led := fun leader => led (votes.led leader) }

variable {m : Message}

theorem MessageVotes.of_granted (votes : MessageVotes election m)
    (granted : ∀ {voter candidate term}, election.granted voter candidate term →
      next.granted voter candidate term) : MessageVotes next m :=
  { votes with response := fun answered accepted => granted (votes.response answered accepted) }

theorem MessageVotes.of_msgType (notSnapshot : m.msgType ≠ .msgSnapshot)
    (notHup : m.msgType ≠ .msgHup) (notRequest : m.msgType ≠ .msgRequestVote)
    (notResponse : m.msgType ≠ .msgRequestVoteResponse) : MessageVotes election m where
  notSnapshot := notSnapshot
  notHup := notHup
  request := fun asked => absurd asked notRequest
  response := fun answered => absurd answered notResponse

theorem MessageVotes.of_inert (inert : m.Inert) : MessageVotes election m where
  notSnapshot := by
    intro snapshot
    simp [Message.Inert, snapshot] at inert
  notHup := by
    intro hup
    simp [Message.Inert, hup] at inert
  request := by
    intro asked
    simp [Message.Inert, asked] at inert
  response := by
    intro answered accepted
    simp [Message.Inert, answered, accepted] at inert

variable {cluster : Cluster}

theorem Votes.place
    (votes : Votes members cluster election) (present : cluster.nodes.get? node = some raft)
    (nodeAfter : NodeVotes members next node after)
    (others : ∀ {other otherRaft}, other ≠ node → NodeVotes members election other otherRaft →
      NodeVotes members next other otherRaft)
    (granted : ∀ {voter candidate term}, election.granted voter candidate term →
      next.granted voter candidate term)
    (pushed : ∀ m ∈ after.msgs, m ∈ raft.msgs ∨ MessageVotes next m) :
    Votes members (cluster.place node after) next where
  nodes := by
    intro other otherRaft found
    rw [Cluster.get?_place] at found
    split_ifs at found with same
    · subst same
      cases found
      exact nodeAfter
    · exact others same (votes.nodes found)
  messages := by
    intro m sent
    rcases Cluster.sent_place sent with old | held
    · exact (votes.messages old).of_granted granted
    · rcases pushed m held with old | new
      · exact (votes.messages (.inr ⟨node, raft, present, old⟩)).of_granted granted
      · exact new

theorem Votes.quiet (votes : Votes members cluster election)
    (present : cluster.nodes.get? node = some raft) (same : SameBallot raft after)
    (pushed : ∀ m ∈ after.msgs, m ∈ raft.msgs ∨ MessageVotes election m) :
    Votes members (cluster.place node after) election :=
  votes.place present ((votes.nodes present).of_sameBallot same) (fun _ votes => votes) id pushed

theorem Raft.mem_msgs_push (raft : Raft) {message : Message}
    (held : m ∈ (raft.push message).msgs) : m ∈ raft.msgs ∨ m = message :=
  (List.mem_append.mp held).imp_right List.mem_singleton.mp

theorem Votes.push (votes : Votes members cluster election)
    (present : cluster.nodes.get? node = some raft) (fine : MessageVotes election m) :
    Votes members (cluster.place node (raft.push m)) election := by
  have same : SameBallot raft (raft.push m) := ⟨rfl, rfl, rfl, rfl, rfl, fun _ => Iff.rfl⟩
  apply votes.quiet present same
  intro other held
  rcases raft.mem_msgs_push held with old | rfl
  · exact .inl old
  · exact .inr fine

theorem Votes.become {term : Nat} {role : Role} (votes : Votes members cluster election)
    (present : cluster.nodes.get? node = some raft)
    (nodeAfter : NodeVotes members (election.become node term role) node after)
    (held : after.msgs = raft.msgs) :
    Votes members (cluster.place node after) (election.become node term role) := by
  apply votes.place present nodeAfter
  · intro other otherRaft different otherVotes
    exact otherVotes.of_elsewhere (update_of_ne different _ _)
      (update_of_ne different _ _) id id id
  · exact id
  · intro m member
    rw [held] at member
    exact .inl member

end Transfer

/-! ## The moves of a node in the election -/

section Moves

variable {members : Finset Nat} {election : Election Nat} {cluster : Cluster} {node : Nat}
  {m : Message} {raft after : Raft} {safe : Nat → Message → RaftLog → Prop}

variable {draw : Nat}

theorem NodeVotes.becomeFollower (votes : NodeVotes members election node raft) {lead : Nat}
    {term : Nat} (nothing : ∀ candidate, ¬ election.granted node candidate term) :
    NodeVotes members (election.become node term .follower) node
      (raft.becomeFollower draw term lead) :=
  { votes with
    term := update_self _ _ _
    role := update_self _ _ _
    ownVote := fun notFollower => absurd rfl notFollower
    givenVote := fun _ candidate given => absurd given (nothing candidate)
    support := nofun
    led := nofun }

theorem NodeVotes.becomeCandidate (votes : NodeVotes members election node raft)
    (room : raft.term + 1 < wordSize) :
    NodeVotes members (election.become node (raft.term + 1) .candidate) node
      (raft.becomeCandidate draw) :=
  { votes with
    term := by
      change _ = wrap (raft.term + 1)
      rw [wrap_of_lt room]
      exact update_self _ _ _
    role := update_self _ _ _
    ownVote := fun _ => votes.id
    givenVote := nofun
    support := by
      intro _ voter yes
      change (OrderedMap.empty.insert raft.id true).get? voter = some true at yes
      rw [get?_insert, votes.id] at yes
      split_ifs at yes with same
      · exact .inl same
      · cases yes
    led := nofun }

theorem NodeVotes.card (votes : NodeVotes members election node raft) :
    raft.prs.size + 1 = members.card := by
  have keys : raft.prs.keys.toFinset = members.erase node := by
    ext peer
    rw [List.mem_toFinset, mem_keys_iff, votes.peers, Finset.mem_erase, and_comm]
  have size : raft.prs.size = (members.erase node).card := by
    rw [← keys, List.toFinset_card_of_nodup raft.prs.keys_nodup, length_keys]
  rw [size]
  exact Finset.card_erase_add_one votes.member

def Raft.supporters (raft : Raft) : Finset Nat :=
  (raft.votes.keysWhere (· == true)).toFinset

theorem mem_supporters {voter : Nat} :
    voter ∈ raft.supporters ↔ raft.votes.get? voter = some true := by
  simp [Raft.supporters, mem_keysWhere]

theorem card_supporters : raft.supporters.card = raft.countVotes true := by
  rw [Raft.supporters, List.toFinset_card_of_nodup (raft.votes.keysWhere_nodup _),
    length_keysWhere, Raft.countVotes]

theorem NodeVotes.majority (votes : NodeVotes members election node raft)
    (invariant : election.Invariant members) (candidate : raft.state = .candidate)
    (enough : raft.quorum ≤ raft.countVotes true) : Majority members raft.supporters := by
  constructor
  · intro voter supporter
    rcases votes.support candidate voter (mem_supporters.mp supporter) with rfl | granted
    · exact votes.member
    · exact invariant.grantedMember granted
  · have size := votes.card
    rw [card_supporters]
    rw [Raft.quorum] at enough
    omega

variable (votes : Votes members cluster election) (present : cluster.nodes.get? node = some raft)

include votes present

theorem Votes.takeLead (invariant : election.Invariant members)
    (candidate : raft.state = .candidate) (enough : raft.quorum ≤ raft.countVotes true)
    (raftLog : RaftLog) :
    Election.Step members election (election.lead node) ∧
      Votes members (cluster.place node { raft.takeLead with raftLog }) (election.lead node) := by
  have nodeVotes := votes.nodes present
  have support : ∀ voter ∈ raft.supporters,
      voter = node ∨ election.granted voter node (election.term node) := by
    intro voter supporter
    rw [nodeVotes.term]
    exact nodeVotes.support candidate voter (mem_supporters.mp supporter)
  have standing : election.role node = .candidate := by
    rw [nodeVotes.role, candidate]
    rfl
  have nodeAfter : NodeVotes members (election.lead node) node { raft.takeLead with raftLog } := {
    nodeVotes with
    peers := by
      intro peer
      rw [← nodeVotes.peers peer, Raft.takeLead, get?_mapValues, Option.isSome_map]
    term := (update_self _ _ _).trans nodeVotes.term
    role := update_self _ _ _
    ownVote := fun _ => nodeVotes.ownVote (by simp [candidate])
    givenVote := nofun
    support := nofun
    led := fun _ => .inr ⟨rfl, nodeVotes.term.symm⟩ }
  refine ⟨.win node raft.supporters standing (nodeVotes.majority invariant candidate enough)
    support, votes.place present nodeAfter ?_ id fun m held => .inl held⟩
  · intro other otherRaft different otherVotes
    exact otherVotes.of_elsewhere (update_of_ne different _ _)
      (update_of_ne different _ _) id id .inl

theorem Votes.giveVote (handled : m ∈ cluster.network ∧ m.toId = node ∨ m.Local)
    (asked : m.msgType = .msgRequestVote) (free : raft.canVote m = true) :
    Election.Step members election (election.grant node m.fromId) ∧
      Votes members (cluster.place node ({ raft with vote := m.fromId, electionElapsed := 0 }.push
        (raft.voteResponse m.fromId false))) (election.grant node m.fromId) := by
  have nodeVotes := votes.nodes present
  have notLocal : ¬ m.Local := by simp [Message.Local, asked]
  rcases handled.resolve_right notLocal with ⟨inNetwork, toNode⟩
  have request := (votes.messages (.inl inNetwork)).request asked
  rw [toNode] at request
  have follower : raft.state = .follower := by
    by_contra notFollower
    have own := nodeVotes.ownVote notFollower
    simp only [Raft.canVote, own, Bool.or_eq_true, beq_iff_eq] at free
    rcases free with isNone | isCandidate
    · exact nodeVotes.notNone isNone
    · exact request.1 isCandidate.symm
  have once : ∀ other, election.granted node other raft.term → other = m.fromId := by
    intro other given
    have remembered := nodeVotes.givenVote follower other given
    simp only [Raft.canVote, remembered.1, Bool.or_eq_true, beq_iff_eq] at free
    exact free.resolve_left remembered.2
  have nodeAfter : NodeVotes members (election.grant node m.fromId) node
      ({ raft with vote := m.fromId, electionElapsed := 0 }.push
        (raft.voteResponse m.fromId false)) := {
    nodeVotes with
    ownVote := fun notFollower => absurd follower notFollower
    givenVote := by
      rintro _ candidate (given | ⟨_, rfl, _⟩)
      · exact ⟨(once candidate given).symm, (nodeVotes.givenVote follower candidate given).2⟩
      · exact ⟨rfl, request.2⟩
    support := fun candidate voter yes => (nodeVotes.support candidate voter yes).imp_right .inl }
  constructor
  · apply Election.Step.grant node m.fromId nodeVotes.member
    · rw [nodeVotes.role, follower]
      rfl
    · rw [nodeVotes.term]
      exact once
  · refine votes.place present nodeAfter ?_ .inl ?_
    · intro other otherRaft different otherVotes
      refine otherVotes.of_elsewhere rfl rfl .inl ?_ id
      rintro candidate term (given | ⟨same, _⟩)
      · exact given
      · exact absurd same different
    · intro other held
      rcases Raft.mem_msgs_push _ held with old | rfl
      · exact .inl old
      · exact .inr {
          notSnapshot := nofun
          notHup := nofun
          request := nofun
          response := fun _ _ => .inr ⟨nodeVotes.id, rfl, nodeVotes.term.symm⟩ }

theorem Votes.tally (handled : m ∈ cluster.network ∧ m.toId = node ∨ m.Local)
    (answered : m.msgType = .msgRequestVoteResponse) (current : m.term = raft.term) :
    Votes members
      (cluster.place node { raft with votes := raft.votes.insert m.fromId (!m.reject) })
      election := by
  have nodeVotes := votes.nodes present
  have notLocal : ¬ m.Local := by simp [Message.Local, answered]
  rcases handled.resolve_right notLocal with ⟨inNetwork, toNode⟩
  refine votes.place present ?_ (fun _ votes => votes) id fun m held => .inl held
  exact { nodeVotes with
    support := by
      intro candidate voter yes
      change (raft.votes.insert m.fromId (!m.reject)).get? voter = some true at yes
      rw [get?_insert] at yes
      split_ifs at yes with same
      · subst same
        have accepted : m.reject = false := by simpa using yes
        have granted := (votes.messages (.inl inNetwork)).response answered accepted
        rw [toNode, current] at granted
        exact .inr granted
      · exact nodeVotes.support candidate voter yes }

omit present

theorem Votes.move (invariant : election.Invariant members)
    (moved : cluster.Moved node m safe raft after) :
    ∃ next, Relation.ReflGen (Election.Step members) election next ∧
      Votes members (cluster.place node after) next := by
  rcases moved with ⟨present, handled, move⟩
  have nodeVotes := votes.nodes present
  have still : ∀ {after : Raft}, SameBallot raft after → after.msgs = raft.msgs →
      ∃ next, Relation.ReflGen (Election.Step members) election next ∧
        Votes members (cluster.place node after) next := by
    intro after same held
    refine ⟨election, .refl, votes.quiet present same ?_⟩
    intro other member
    rw [held] at member
    exact .inl member
  have pushing : ∀ {message : Message}, MessageVotes election message →
      ∃ next, Relation.ReflGen (Election.Step members) election next ∧
        Votes members (cluster.place node (raft.push message)) next :=
    fun fine => ⟨election, .refl, votes.push present fine⟩
  cases move with
  | settle => exact still ⟨rfl, rfl, rfl, rfl, rfl, fun _ => Iff.rfl⟩ rfl
  | post message inert => exact pushing (.of_inert inert)
  | adopt draw lead newer =>
    rw [← nodeVotes.term] at newer
    refine ⟨_, .single (.adopt node m.term newer), votes.become present ?_ rfl⟩
    apply nodeVotes.becomeFollower
    intro candidate granted
    have := invariant.grantedTerm granted
    omega
  | concede draw lead candidate =>
    have standing : election.role node = .candidate := by
      rw [nodeVotes.role, candidate]
      rfl
    refine ⟨_, .single (.concede node standing), votes.become present ?_ rfl⟩
    rw [nodeVotes.term]
    apply nodeVotes.becomeFollower
    intro other granted
    rw [← nodeVotes.term] at granted
    have follows := invariant.grantedFollower granted
    rw [standing] at follows
    cases follows
  | stand draw room notLeader =>
    refine ⟨_, .single (.stand node (raft.term + 1) ?_),
      votes.become present (nodeVotes.becomeCandidate room) rfl⟩
    rw [nodeVotes.term]
    exact Nat.lt_succ_self _
  | request peer lastTerm candidate other last =>
    apply pushing
    exact {
      notSnapshot := nofun
      notHup := nofun
      request := by
        intro _
        change raft.id ≠ peer ∧ raft.id ≠ NONE
        exact ⟨other.symm, nodeVotes.id ▸ nodeVotes.notNone⟩
      response := nofun }
  | grant asked current free upToDate =>
    have given := votes.giveVote present handled asked free
    exact ⟨_, .single given.1, given.2⟩
  | tally answered current candidate =>
    exact ⟨election, .refl, votes.tally present handled answered current⟩
  | win raftLog safely candidate majority appended =>
    have lead := votes.takeLead present invariant candidate majority raftLog
    exact ⟨_, .single lead.1, lead.2⟩
  | stall fault safely candidate majority failed =>
    have lead := votes.takeLead present invariant candidate majority raft.raftLog
    exact ⟨_, .single lead.1, lead.2⟩
  | extend => exact still (.of_raftLog raft _) rfl
  | offer => exact pushing (.of_msgType nofun nofun nofun nofun)
  | beat => exact pushing (.of_msgType nofun nofun nofun nofun)
  | accept raftLog =>
    have log : ∀ commit, ({ raft with raftLog }.followCommit commit) =
        { raft with raftLog := ({ raft with raftLog }.followCommit commit).raftLog } :=
      fun commit => Raft.followCommit_eq { raft with raftLog } commit
    refine ⟨election, .refl, votes.quiet present ?_ ?_⟩
    · rw [log]
      exact ⟨rfl, rfl, rfl, rfl, rfl, fun _ => Iff.rfl⟩
    · intro other held
      rw [log] at held
      rcases Raft.mem_msgs_push _ held with old | rfl
      · exact .inl old
      · exact .inr (.of_msgType nofun nofun nofun nofun)
  | learn =>
    rw [Raft.followCommit_eq]
    exact still (.of_raftLog raft _) rfl
  | note => exact still (.noteResponse raft m) (by rw [Raft.noteResponse_eq])
  | choose leader =>
    rw [Raft.maybeCommit_eq]
    exact still (.of_raftLog raft _) rfl

end Moves

end AegisDB.Consensus

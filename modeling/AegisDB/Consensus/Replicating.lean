import AegisDB.Consensus.Voting
import AegisDB.Foundation.ReplicationSafety

/-! # A cluster replicates

The logs, commit indexes and messages of a cluster follow the replication protocol as
long as the log of each node is fit for the message it handles. -/

namespace AegisDB.Consensus

open Foundation Function Cluster

/-! ## Logs fit for a message -/

namespace RaftLog

def Contradicts (log : RaftLog) (m : Message) : Prop :=
  ∃ entry ∈ m.entries, entry.index ≤ log.lastIndex ∧
    log.termSync entry.index ≠ some entry.term

end RaftLog

def Message.Acknowledges (m : Message) (node term count : Nat) : Prop :=
  m.msgType = .msgAppendResponse ∧ m.reject = false ∧ m.fromId = node ∧ m.term = term ∧
    count ≤ m.index

/-- The index range has room; an append from the start meets an empty log, and one that ends
before the log contradicts it; what a heartbeat commits has been acknowledged. -/
def RaftLog.FitFor (network : List Message) (node : Nat) (m : Message) (log : RaftLog) : Prop :=
  log.lastIndex + m.entries.length + 2 < wordSize ∧
  (m.msgType = .msgAppend → log.Accepts m →
    (m.index = 0 → log.entries = []) ∧
      (m.index + m.entries.length < log.lastIndex → log.Contradicts m)) ∧
  (m.msgType = .msgHeartbeat → log.committed < m.commit →
    ∃ ack ∈ network, ack.Acknowledges node m.term (min m.commit log.lastIndex))

section Decidable

variable (network : List Message) (node : Nat) (m : Message) (log : RaftLog)

instance decidableContradicts : Decidable (log.Contradicts m) :=
  inferInstanceAs (Decidable (∃ entry ∈ m.entries, entry.index ≤ log.lastIndex ∧
    log.termSync entry.index ≠ some entry.term))

instance decidableAcknowledges (term count : Nat) : Decidable (m.Acknowledges node term count) :=
  inferInstanceAs (Decidable (_ ∧ _))

instance decidableFitFor : Decidable (log.FitFor network node m) := by
  unfold RaftLog.FitFor
  infer_instance

end Decidable

/-! ## What nodes and messages say about the logs -/

structure NodeLogs (state : Replication Nat Entry) (node : Nat) (raft : Raft) : Prop where
  contiguous : raft.raftLog.Contiguous
  term : state.term node = raft.term
  log : state.log node = raft.raftLog.entries
  commit : state.commit node = raft.raftLog.committed
  positive : raft.state ≠ .follower → 0 < raft.term
  leads : raft.state = .leader →
    state.leaderLog raft.term = raft.raftLog.entries ∧ raft.raftLog.entries ≠ []
  progress : raft.state = .leader → ∀ {peer progress}, raft.prs.get? peer = some progress →
    progress.matchIndex = 0 ∨ state.acked peer raft.term progress.matchIndex
  support : raft.state = .candidate → ∀ {voter}, raft.votes.get? voter = some true →
    ∃ log, state.ballot voter raft.term log ∧
      Replication.UpToDate Entry.term raft.raftLog.entries log

def RequestLogs (m : Message) (raft : Raft) : Prop :=
  m.term ≤ raft.term ∧ (m.term = raft.term → raft.state = .candidate →
    m.logTerm = Replication.lastTerm Entry.term raft.raftLog.entries ∧
      m.index = raft.raftLog.entries.length)

def GrantLogs (state : Replication Nat Entry) (m : Message) (raft : Raft) : Prop :=
  m.term ≤ raft.term ∧ (m.term = raft.term → raft.state = .candidate →
    ∃ log, state.ballot m.fromId m.term log ∧
      Replication.UpToDate Entry.term raft.raftLog.entries log)

structure OfferLogs (state : Replication Nat Entry) (m : Message) (before : List Entry) : Prop where
  length : before.length = m.index
  offered : before ++ m.entries <+: state.leaderLog m.term
  logTerm : m.logTerm = Replication.lastTerm Entry.term before
  announced : state.announced m.term m.commit

structure MessageLogs (cluster : Cluster) (state : Replication Nat Entry) (m : Message) :
    Prop where
  append : m.msgType = .msgAppend → ∃ before, OfferLogs state m before
  heartbeat : m.msgType = .msgHeartbeat → state.announced m.term m.commit
  accepted : m.msgType = .msgAppendResponse → m.reject = false →
    state.acked m.fromId m.term m.index
  request : m.msgType = .msgRequestVote → ∀ raft,
    cluster.nodes.get? m.fromId = some raft → RequestLogs m raft
  granted : m.msgType = .msgRequestVoteResponse → m.reject = false → ∀ raft,
    cluster.nodes.get? m.toId = some raft → GrantLogs state m raft

structure Logs (cluster : Cluster) (election : Election Nat) (state : Replication Nat Entry) :
    Prop where
  nodes : ∀ {node raft}, cluster.nodes.get? node = some raft → NodeLogs state node raft
  messages : ∀ {m}, cluster.Sent m → MessageLogs cluster state m
  numbered : ∀ term, Numbered 0 (state.leaderLog term)
  small : ∀ term, (state.leaderLog term).length + 1 < wordSize
  leaders : ∀ {term}, state.leaderLog term ≠ [] → ∃ node, election.led node term

section Transfer

variable {cluster : Cluster} {election nextElection : Election Nat}
  {state next : Replication Nat Entry} {node : Nat} {raft after : Raft} {m : Message}

structure SameAt (state next : Replication Nat Entry) (node : Nat) : Prop where
  term : next.term node = state.term node
  log : next.log node = state.log node
  commit : next.commit node = state.commit node

theorem NodeLogs.of_elsewhere (logs : NodeLogs state node raft)
    (remembers : Replication.Remembers state next) (same : SameAt state next node)
    (leads : raft.state = .leader → next.leaderLog raft.term = state.leaderLog raft.term) :
    NodeLogs next node raft where
  contiguous := logs.contiguous
  term := same.term.trans logs.term
  log := same.log.trans logs.log
  commit := same.commit.trans logs.commit
  positive := logs.positive
  leads := by
    intro leader
    rw [leads leader]
    exact logs.leads leader
  progress := fun leader _ _ found => (logs.progress leader found).imp_right remembers.acked
  support := by
    intro candidate voter yes
    rcases logs.support candidate yes with ⟨log, voted, upToDate⟩
    exact ⟨log, remembers.ballot voted, upToDate⟩

structure Forward (raft after : Raft) : Prop where
  term : raft.term ≤ after.term
  standing : after.state = .candidate → after.term = raft.term →
    raft.state = .candidate ∧ after.raftLog.entries = raft.raftLog.entries

theorem RequestLogs.forward (request : RequestLogs m raft) (forward : Forward raft after) :
    RequestLogs m after := by
  refine ⟨request.1.trans forward.term, fun current candidate => ?_⟩
  have same : after.term = raft.term := le_antisymm (current ▸ request.1) forward.term
  rcases forward.standing candidate same with ⟨standing, sameLog⟩
  rw [sameLog]
  exact request.2 (current.trans same) standing

theorem GrantLogs.forward (grant : GrantLogs state m raft) (forward : Forward raft after)
    (remembers : Replication.Remembers state next) : GrantLogs next m after := by
  refine ⟨grant.1.trans forward.term, fun current candidate => ?_⟩
  have same : after.term = raft.term := le_antisymm (current ▸ grant.1) forward.term
  rcases forward.standing candidate same with ⟨standing, sameLog⟩
  rcases grant.2 (current.trans same) standing with ⟨log, voted, upToDate⟩
  rw [sameLog]
  exact ⟨log, remembers.ballot voted, upToDate⟩

theorem MessageLogs.place (logs : MessageLogs cluster state m)
    (present : cluster.nodes.get? node = some raft)
    (remembers : Replication.Remembers state next) (forward : Forward raft after) :
    MessageLogs (cluster.place node after) next m where
  append := by
    intro offered
    rcases logs.append offered with ⟨before, offer⟩
    exact ⟨before, offer.length, offer.offered.trans (remembers.leaderLog _), offer.logTerm,
      remembers.announced offer.announced⟩
  heartbeat := fun beaten => remembers.announced (logs.heartbeat beaten)
  accepted := fun answered yes => remembers.acked (logs.accepted answered yes)
  request := by
    intro asked sender found
    rw [get?_place] at found
    split_ifs at found with same
    · cases found
      exact (logs.request asked raft (same ▸ present)).forward forward
    · exact logs.request asked sender found
  granted := by
    intro answered yes receiver found
    rw [get?_place] at found
    split_ifs at found with same
    · cases found
      exact (logs.granted answered yes raft (same ▸ present)).forward forward remembers
    · exact (logs.granted answered yes receiver found).forward
        ⟨le_rfl, fun candidate _ => ⟨candidate, rfl⟩⟩ remembers

structure SameLogs (raft after : Raft) : Prop where
  raftLog : after.raftLog = raft.raftLog
  term : after.term = raft.term
  state : after.state = raft.state
  votes : after.votes = raft.votes
  prs : after.prs = raft.prs

theorem NodeLogs.of_sameLogs (logs : NodeLogs state node raft) (same : SameLogs raft after) :
    NodeLogs state node after where
  contiguous := same.raftLog ▸ logs.contiguous
  term := logs.term.trans same.term.symm
  log := by
    rw [same.raftLog]
    exact logs.log
  commit := by
    rw [same.raftLog]
    exact logs.commit
  positive := by
    rw [same.state, same.term]
    exact logs.positive
  leads := by
    rw [same.state, same.term, same.raftLog]
    exact logs.leads
  progress := by
    rw [same.state, same.term, same.prs]
    exact logs.progress
  support := by
    rw [same.state, same.term, same.votes, same.raftLog]
    exact logs.support

theorem SameLogs.forward (same : SameLogs raft after) : Forward raft after := by
  refine ⟨same.term.ge, fun candidate _ => ?_⟩
  rw [same.raftLog]
  exact ⟨same.state ▸ candidate, rfl⟩

section Placing

variable (logs : Logs cluster election state) (present : cluster.nodes.get? node = some raft)
  (led : ∀ leader term, election.led leader term → nextElection.led leader term)

include logs present led

theorem Logs.place
    (remembers : Replication.Remembers state next)
    (nodeAfter : NodeLogs next node after)
    (others : ∀ other, other ≠ node → SameAt state next other)
    (otherLeaders : ∀ {other otherRaft}, other ≠ node →
      cluster.nodes.get? other = some otherRaft → otherRaft.state = .leader →
      next.leaderLog otherRaft.term = state.leaderLog otherRaft.term)
    (forward : Forward raft after)
    (pushed : ∀ m ∈ after.msgs, m ∈ raft.msgs ∨ MessageLogs (cluster.place node after) next m)
    (leaderLogs : ∀ term, next.leaderLog term = state.leaderLog term ∨
      Numbered 0 (next.leaderLog term) ∧ (next.leaderLog term).length + 1 < wordSize ∧
        ∃ leader, nextElection.led leader term) :
    Logs (cluster.place node after) nextElection next where
  nodes := by
    intro other otherRaft found
    rw [get?_place] at found
    split_ifs at found with same
    · subst same
      cases found
      exact nodeAfter
    · exact (logs.nodes found).of_elsewhere remembers (others other same)
        (otherLeaders same found)
  messages := by
    intro m sent
    rcases sent_place sent with old | held
    · exact (logs.messages old).place present remembers forward
    · rcases pushed m held with old | new
      · exact (logs.messages (.inr ⟨node, raft, present, old⟩)).place present remembers forward
      · exact new
  numbered := by
    intro term
    rcases leaderLogs term with same | ⟨numbered, _⟩
    · rw [same]
      exact logs.numbered term
    · exact numbered
  small := by
    intro term
    rcases leaderLogs term with same | ⟨_, small, _⟩
    · rw [same]
      exact logs.small term
    · exact small
  leaders := by
    intro term notEmpty
    rcases leaderLogs term with same | ⟨_, _, leader⟩
    · rw [same] at notEmpty
      rcases logs.leaders notEmpty with ⟨leader, leads⟩
      exact ⟨leader, led leader term leads⟩
    · exact leader

theorem Logs.still (nodeAfter : NodeLogs state node after) (forward : Forward raft after)
    (pushed : ∀ m ∈ after.msgs, m ∈ raft.msgs ∨ MessageLogs (cluster.place node after) state m) :
    Logs (cluster.place node after) nextElection state :=
  logs.place present led (.refl state) nodeAfter (fun _ _ => ⟨rfl, rfl, rfl⟩)
    (fun _ _ _ => rfl) forward pushed fun _ => .inl rfl

theorem Logs.recorded
    (remembers : Replication.Remembers state next) (nodeAfter : NodeLogs next node after)
    (others : ∀ other, other ≠ node → SameAt state next other)
    (leaderLogs : next.leaderLog = state.leaderLog) (forward : Forward raft after)
    (pushed : ∀ m ∈ after.msgs, m ∈ raft.msgs ∨ MessageLogs (cluster.place node after) next m) :
    Logs (cluster.place node after) nextElection next :=
  logs.place present led remembers nodeAfter others (fun _ _ _ => by rw [leaderLogs]) forward
    pushed fun term => .inl (by rw [leaderLogs])

end Placing

theorem held_of_eq (held : after.msgs = raft.msgs) :
    ∀ m ∈ after.msgs, m ∈ raft.msgs ∨ MessageLogs (cluster.place node after) next m := by
  intro m member
  rw [held] at member
  exact .inl member

theorem held_of_push (held : after.msgs = raft.msgs ++ [m])
    (fine : MessageLogs (cluster.place node after) next m) :
    ∀ m ∈ after.msgs, m ∈ raft.msgs ∨ MessageLogs (cluster.place node after) next m := by
  intro other member
  rw [held] at member
  rcases List.mem_append.mp member with old | new
  · exact .inl old
  · rw [List.mem_singleton.mp new]
    exact .inr fine

theorem MessageLogs.of_inert (inert : m.Inert) : MessageLogs cluster state m where
  append := by
    intro offered
    simp [Message.Inert, offered] at inert
  heartbeat := by
    intro beaten
    simp [Message.Inert, beaten] at inert
  accepted := by
    intro answered yes
    simp [Message.Inert, answered, yes] at inert
  request := by
    intro asked
    simp [Message.Inert, asked] at inert
  granted := by
    intro answered yes
    simp [Message.Inert, answered, yes] at inert

theorem RaftLog.Contiguous.lastTerm {log : RaftLog} (contiguous : log.Contiguous) :
    log.termSync log.lastIndex = some (Replication.lastTerm Entry.term log.entries) := by
  rw [contiguous.lastIndex]
  rcases List.eq_nil_or_concat' log.entries with isEmpty | ⟨front, last, split⟩
  · simp [isEmpty, RaftLog.termSync, Replication.lastTerm]
  · rw [contiguous.termSync (by simp [split]), split]
    simp [Replication.lastTerm]

end Transfer

/-! ## Moves about terms and votes -/

section Voting

variable {members : Finset Nat} {cluster : Cluster} {election nextElection : Election Nat}
  {state : Replication Nat Entry} {node : Nat} {raft : Raft} {m : Message}

def Reaches (members : Finset Nat) (state : Replication Nat Entry) (cluster : Cluster)
    (election : Election Nat) : Prop :=
  ∃ next, Relation.ReflTransGen (Replication.Step Entry.term members) state next ∧
    Logs cluster election next

theorem upToDate_of_logOk (contiguous : raft.raftLog.Contiguous) (logOk : raft.logOk m = true)
    {log : List Entry} (logTerm : m.logTerm = Replication.lastTerm Entry.term log)
    (index : m.index = log.length) :
    Replication.UpToDate Entry.term log raft.raftLog.entries := by
  rw [Raft.logOk, contiguous.lastTerm, Option.getD_some, contiguous.lastIndex, logTerm, index]
    at logOk
  simp only [Bool.or_eq_true, Bool.and_eq_true, decide_eq_true_eq, beq_iff_eq] at logOk
  exact logOk.imp_right fun both => ⟨both.1.symm, both.2⟩

variable (logs : Logs cluster election state) (present : cluster.nodes.get? node = some raft)
  (led : ∀ leader term, election.led leader term → nextElection.led leader term)

include logs present led

theorem Logs.becomeFollower {draw term lead : Nat} (newer : raft.term ≤ term) :
    Reaches members state (cluster.place node (raft.becomeFollower draw term lead))
      nextElection := by
  have nodeLogs := logs.nodes present
  have step : Replication.Step Entry.term members state _ :=
    .advance node term (nodeLogs.term ▸ newer)
  refine ⟨_, .single step, logs.recorded present led step.grows.toRemembers ?_ ?_ rfl ?_
    (held_of_eq rfl)⟩
  · exact {
      contiguous := nodeLogs.contiguous
      term := update_self _ _ _
      log := nodeLogs.log
      commit := nodeLogs.commit
      positive := fun notFollower => absurd rfl notFollower
      leads := nofun
      progress := nofun
      support := nofun }
  · exact fun other different => ⟨update_of_ne different _ _, rfl, rfl⟩
  · exact ⟨newer, nofun⟩

theorem Logs.becomeCandidate {draw : Nat} (room : raft.term + 1 < wordSize) (id : raft.id = node) :
    Reaches members state (cluster.place node (raft.becomeCandidate draw)) nextElection := by
  have nodeLogs := logs.nodes present
  have term : (raft.becomeCandidate draw).term = raft.term + 1 := wrap_of_lt room
  have advance : Replication.Step Entry.term members state _ :=
    .advance node (raft.term + 1) (by rw [nodeLogs.term]; omega)
  have steps := (Relation.ReflTransGen.single advance).tail (.vote node)
  refine ⟨_, steps, logs.recorded present led (Replication.remembers_of_steps steps) ?_ ?_ rfl ?_
    (held_of_eq rfl)⟩
  · exact {
      contiguous := nodeLogs.contiguous
      term := (update_self _ _ _).trans term.symm
      log := nodeLogs.log
      commit := nodeLogs.commit
      positive := by
        rw [term]
        exact fun _ => Nat.succ_pos _
      leads := nofun
      progress := nofun
      support := by
        intro _ voter yes
        change (OrderedMap.empty.insert raft.id true).get? voter = some true at yes
        rw [OrderedMap.get?_insert, id] at yes
        split_ifs at yes with same
        · subst same
          have now : (raft.becomeCandidate draw).term =
              update state.term voter (raft.term + 1) voter := by
            rw [term, update_self]
          refine ⟨_, .inr ⟨rfl, now, rfl⟩, .inr ?_⟩
          change _ = Replication.lastTerm Entry.term raft.raftLog.entries ∧
            _ ≤ raft.raftLog.entries.length
          rw [← nodeLogs.log]
          exact ⟨rfl, le_rfl⟩
        · cases yes }
  · exact fun other different => ⟨update_of_ne different _ _, rfl, rfl⟩
  · refine ⟨by omega, fun _ same => ?_⟩
    omega

theorem Logs.request {peer lastTerm : Nat} (id : raft.id = node)
    (last : raft.raftLog.termSync raft.raftLog.lastIndex = some lastTerm) :
    Logs (cluster.place node (raft.push (raft.requestVoteMessage lastTerm peer))) nextElection
      state := by
  have nodeLogs := logs.nodes present
  have same : SameLogs raft (raft.push (raft.requestVoteMessage lastTerm peer)) :=
    ⟨rfl, rfl, rfl, rfl, rfl⟩
  apply logs.still present led (nodeLogs.of_sameLogs same) same.forward (held_of_push rfl _)
  exact {
    append := nofun
    heartbeat := nofun
    accepted := nofun
    request := by
      intro _ sender found
      change (cluster.place node _).nodes.get? raft.id = some sender at found
      rw [id, get?_place_self] at found
      cases found
      rw [nodeLogs.contiguous.lastTerm] at last
      cases last
      exact ⟨le_rfl, fun _ _ => ⟨rfl, nodeLogs.contiguous.lastIndex⟩⟩
    granted := nofun }

theorem Logs.giveVote (id : raft.id = node) (delivered : m ∈ cluster.network)
    (other : m.fromId ≠ node) (asked : m.msgType = .msgRequestVote) (current : m.term = raft.term)
    (logOk : raft.logOk m = true) :
    Reaches members state
      (cluster.place node ({ raft with vote := m.fromId, electionElapsed := 0 }.push
        (raft.voteResponse m.fromId false))) nextElection := by
  have nodeLogs := logs.nodes present
  have request := (logs.messages (.inl delivered)).request asked
  have step : Replication.Step Entry.term members state _ := .vote node
  have same : SameLogs raft ({ raft with vote := m.fromId, electionElapsed := 0 }.push
    (raft.voteResponse m.fromId false)) := ⟨rfl, rfl, rfl, rfl, rfl⟩
  refine ⟨_, .single step, logs.recorded present led step.grows.toRemembers ?_
    (fun _ _ => ⟨rfl, rfl, rfl⟩) rfl same.forward (held_of_push rfl ?_)⟩
  · exact (nodeLogs.of_sameLogs same).of_elsewhere step.grows.toRemembers ⟨rfl, rfl, rfl⟩
      fun _ => rfl
  · exact {
      append := nofun
      heartbeat := nofun
      accepted := nofun
      request := nofun
      granted := by
        intro _ _ candidate found
        change (cluster.place node _).nodes.get? m.fromId = some candidate at found
        rw [get?_place, if_neg other] at found
        rcases request candidate found with ⟨notNewer, described⟩
        refine ⟨current.ge.trans notNewer, fun now standing => ?_⟩
        rcases described (current.trans now) standing with ⟨logTerm, index⟩
        refine ⟨raft.raftLog.entries, .inr ⟨id, nodeLogs.term.symm, nodeLogs.log.symm⟩, ?_⟩
        exact upToDate_of_logOk nodeLogs.contiguous logOk logTerm index }

theorem Logs.tally (delivered : m ∈ cluster.network) (toNode : m.toId = node)
    (answered : m.msgType = .msgRequestVoteResponse) (current : m.term = raft.term) :
    Logs (cluster.place node { raft with votes := raft.votes.insert m.fromId (!m.reject) })
      nextElection state := by
  have nodeLogs := logs.nodes present
  refine logs.still present led ?_ ⟨le_rfl, fun candidate _ => ⟨candidate, rfl⟩⟩ (held_of_eq rfl)
  exact { nodeLogs with
    support := by
      intro candidate voter yes
      change (raft.votes.insert m.fromId (!m.reject)).get? voter = some true at yes
      rw [OrderedMap.get?_insert] at yes
      split_ifs at yes with same
      · subst same
        have accepted : m.reject = false := by simpa using yes
        have granted := (logs.messages (.inl delivered)).granted answered accepted
        rw [toNode] at granted
        rw [← current]
        exact (granted raft present).2 current candidate
      · exact nodeLogs.support candidate yes }

end Voting

end AegisDB.Consensus

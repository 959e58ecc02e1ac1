import AegisDB.Consensus.Replicating

/-! # Moves of the logs

What leaders append, send and commit, and what followers accept, as steps of the
replication protocol. -/

namespace AegisDB.Consensus

open Foundation Function OrderedMap Replication List

variable {members : Finset Nat} {cluster : Cluster} {election nextElection : Election Nat}
  {state next : Replication Nat Entry} {node : Nat} {raft after : Raft} {m : Message}

/-! ## Single nodes -/

theorem NodeLogs.committed (logs : NodeLogs state node raft)
    (invariant : state.Invariant Entry.term members) :
    raft.raftLog.committed ≤ raft.raftLog.entries.length := by
  rw [← logs.commit, ← logs.log]
  exact (invariant.commits node).1

theorem NodeLogs.noop (logs : NodeLogs state node raft)
    (invariant : state.Invariant Entry.term members)
    (room : raft.raftLog.lastIndex + 2 < wordSize) :
    Numbered raft.raftLog.entries.length [raft.noopEntry] ∧
      raft.raftLog.append [raft.noopEntry] =
        .ok { raft.raftLog with entries := raft.raftLog.entries ++ [raft.noopEntry] } := by
  have numbered : Numbered raft.raftLog.entries.length [raft.noopEntry] := by
    intro position entry found
    obtain ⟨rfl, rfl⟩ : position = 0 ∧ raft.noopEntry = entry := by
      cases position with
      | zero => simpa using found
      | succ position => simp at found
    change wrap (raft.raftLog.lastIndex + 1) = _
    rw [wrap_of_lt (by omega), logs.contiguous.lastIndex]
  exact ⟨numbered, logs.contiguous.append_end (logs.committed invariant) numbered⟩

theorem NodeLogs.setCommit (logs : NodeLogs state node raft) (commit : Nat) :
    NodeLogs (state.setCommit node commit) node
      { raft with raftLog := { raft.raftLog with committed := commit } } :=
  { logs with
    contiguous := logs.contiguous.of_entries logs.contiguous.numbered logs.contiguous.small
    commit := update_self _ _ _ }

theorem Raft.proposedEntries_spec (raft : Raft) (entries : List Entry)
    (small : raft.raftLog.lastIndex + entries.length < wordSize) :
    (∀ entry ∈ raft.proposedEntries entries, entry.term = raft.term) ∧
      Numbered raft.raftLog.lastIndex (raft.proposedEntries entries) := by
  have each : ∀ position entry, (raft.proposedEntries entries)[position]? = some entry →
      entry.term = raft.term ∧ entry.index = raft.raftLog.lastIndex + position + 1 := by
    intro position entry found
    rw [Raft.proposedEntries, getElem?_mapIdx] at found
    rcases Option.map_eq_some_iff.mp found with ⟨old, original, rfl⟩
    have within := (List.getElem?_eq_some_iff.mp original).1
    have index : wrap (raft.raftLog.lastIndex + 1 + position) =
        raft.raftLog.lastIndex + position + 1 := by
      rw [wrap_of_lt (by omega)]
      omega
    rw [Raft.proposedEntry_eq]
    exact ⟨rfl, index⟩
  constructor
  · intro entry member
    rcases getElem?_of_mem member with ⟨position, found⟩
    exact (each position entry found).1
  · exact fun position entry found => (each position entry found).2

variable {nextIndex peer : Nat} {entries : List Entry} {raftLog : RaftLog} {network : List Message}
  {before : List Entry}

theorem Raft.entriesFrom_eq (contiguous : raft.raftLog.Contiguous)
    (near : nextIndex ≤ wrap (raft.raftLog.lastIndex + 1))
    (sliced : raft.entriesFrom nextIndex = .ok entries) :
    0 < nextIndex ∧ nextIndex ≤ raft.raftLog.entries.length + 1 ∧
      entries = raft.raftLog.entries.drop (nextIndex - 1) := by
  have small := contiguous.small
  rw [contiguous.lastIndex, wrap_of_lt small] at near
  rw [Raft.entriesFrom] at sliced
  rw [contiguous.lastIndex, contiguous.firstIndex] at sliced
  split_ifs at sliced with within
  · rw [slice] at sliced
    split at sliced
    · rename_i bounds
      rw [← Except.ok.inj sliced]
      rcases Nat.eq_zero_or_pos nextIndex with rfl | positive
      · -- Index zero wraps around to beyond the log.
        have wrapped : wrappingSub 0 1 = wordSize - 1 := rfl
        omega
      · have count : wrap (wrappingSub raft.raftLog.entries.length 1 + 1) =
            raft.raftLog.entries.length := by
          rw [wrappingSub_of_le (by omega) (by omega), Nat.sub_add_cancel (by omega),
            wrap_of_lt (by omega)]
        refine ⟨positive, near, ?_⟩
        rw [wrappingSub_of_le positive (by omega), count, min_self]
        apply take_of_length_le
        rw [length_drop]
    · cases sliced
  · cases sliced
    exact ⟨by omega, near, (drop_of_length_le (by omega)).symm⟩

theorem appendMessage_offers (logs : NodeLogs state node raft) (leader : raft.state = .leader)
    (near : nextIndex ≤ wrap (raft.raftLog.lastIndex + 1))
    (sliced : raft.entriesFrom nextIndex = .ok entries)
    (announced : state.announced raft.term raft.raftLog.committed) :
    OfferLogs state (raft.appendMessage peer nextIndex entries)
      (raft.raftLog.entries.take (nextIndex - 1)) := by
  rcases Raft.entriesFrom_eq logs.contiguous near sliced with ⟨positive, bounded, rfl⟩
  have small := logs.contiguous.small
  have previous := wrappingSub_of_le positive (by omega)
  have length : (raft.raftLog.entries.take (nextIndex - 1)).length = nextIndex - 1 := by
    rw [length_take]
    omega
  refine ⟨length.trans previous.symm, ?_, ?_, announced⟩
  · change _ ++ raft.raftLog.entries.drop (nextIndex - 1) <+: state.leaderLog raft.term
    rw [take_append_drop, (logs.leads leader).1]
  · change (if nextIndex > 0 then _ else 0) = _
    rw [if_pos positive, previous]
    rcases Nat.eq_zero_or_pos (nextIndex - 1) with atStart | later
    · rw [atStart]
      rfl
    · rw [logs.contiguous.termSync later, lastTerm, getLast?_eq_getElem?, length,
        getElem?_take_of_lt (by omega)]

theorem lt_countP_of_descending {numbers : List Nat} {position number : Nat}
    (found : ((numbers.insertionSort (· ≤ ·)).reverse)[position]? = some number) :
    position < numbers.countP fun other => decide (number ≤ other) := by
  have descending : ((numbers.insertionSort (· ≤ ·)).reverse).Pairwise (· ≥ ·) :=
    pairwise_reverse.mpr (pairwise_insertionSort (· ≤ ·) numbers)
  have count : ((numbers.insertionSort (· ≤ ·)).reverse).countP
      (fun other => decide (number ≤ other)) =
      numbers.countP fun other => decide (number ≤ other) :=
    ((reverse_perm _).trans (perm_insertionSort (· ≤ ·) numbers)).countP_eq _
  rw [← count]
  generalize (numbers.insertionSort (· ≤ ·)).reverse = sorted at found descending
  rcases List.getElem?_eq_some_iff.mp found with ⟨within, rfl⟩
  have reached : ∀ other ∈ sorted.take (position + 1),
      decide (sorted[position] ≤ other) = true := by
    intro other member
    rcases mem_take_iff_getElem.mp member with ⟨earlier, bound, rfl⟩
    rcases Nat.lt_or_ge earlier position with before | notBefore
    · simpa using pairwise_iff_getElem.mp descending _ _ _ within before
    · have same : earlier = position := by omega
      simp [same]
  calc position < (sorted.take (position + 1)).length := by
        rw [length_take]
        omega
    _ = (sorted.take (position + 1)).countP fun other => decide (sorted[position] ≤ other) :=
        (countP_eq_length.mpr reached).symm
    _ ≤ sorted.countP fun other => decide (sorted[position] ≤ other) :=
        (take_sublist _ _).countP_le

theorem Raft.maybeCommit_cases (raft : Raft) :
    raft.maybeCommit = raft ∨ ∃ commitIndex,
      raft.maybeCommit =
        { raft with raftLog := { raft.raftLog with committed := commitIndex } } ∧
      raft.quorum ≤ raft.prs.values.countP (fun progress => commitIndex ≤ progress.matchIndex) ∧
      raft.raftLog.committed < commitIndex ∧
      (raft.raftLog.termSync commitIndex).getD 0 = raft.term := by
  rw [Raft.maybeCommit]
  split
  · exact .inl rfl
  · dsimp only
    split
    · exact .inl rfl
    · rename_i commitIndex found
      split_ifs with conditions
      · refine .inr ⟨commitIndex, rfl, ?_, conditions.1, conditions.2⟩
        have count := lt_countP_of_descending found
        rw [countP_map] at count
        exact Nat.le_of_pred_lt count
      · exact .inl rfl

structure Locally (members : Finset Nat) (node : Nat) (state next : Replication Nat Entry) :
    Prop where
  steps : Relation.ReflTransGen (Replication.Step Entry.term members) state next
  others : ∀ other, other ≠ node → SameAt state next other
  leaderLogs : next.leaderLog = state.leaderLog

theorem Locally.trans {middle : Replication Nat Entry} (first : Locally members node state middle)
    (second : Locally members node middle next) : Locally members node state next where
  steps := first.steps.trans second.steps
  others := by
    intro other different
    have before := first.others other different
    have now := second.others other different
    exact ⟨now.term.trans before.term, now.log.trans before.log, now.commit.trans before.commit⟩
  leaderLogs := second.leaderLogs.trans first.leaderLogs

theorem NodeLogs.followCommit (members : Finset Nat) (logs : NodeLogs state node raft)
    {commit : Nat} (announced : state.announced raft.term commit)
    (held : raft.raftLog.committed < commit → raft.raftLog.entries.take (min commit
      raft.raftLog.lastIndex) <+: state.leaderLog raft.term) :
    ∃ next, Locally members node state next ∧ NodeLogs next node (raft.followCommit commit) ∧
      next.term = state.term ∧ next.log = state.log := by
  rw [Raft.followCommit]
  split_ifs with above
  · have within : min commit raft.raftLog.lastIndex ≤ (state.log node).length := by
      rw [logs.log, ← logs.contiguous.lastIndex]
      exact min_le_right _ _
    have step : Replication.Step Entry.term members state _ :=
      .learn node (min commit raft.raftLog.lastIndex) commit ⟨by rwa [logs.term],
        min_le_left _ _, within, by rw [logs.log, logs.term]; exact held above⟩
    refine ⟨_, ⟨.single step, ?_, rfl⟩, logs.setCommit _, rfl, rfl⟩
    exact fun other different => ⟨rfl, rfl, update_of_ne different _ _⟩
  · exact ⟨state, ⟨.refl, fun _ _ => ⟨rfl, rfl, rfl⟩, rfl⟩, logs, rfl, rfl⟩

theorem Raft.forward_followCommit (raft : Raft) (commit : Nat) :
    Forward raft (raft.followCommit commit) := by
  constructor
  · rw [Raft.followCommit_eq]
  · rw [Raft.entries_followCommit, Raft.followCommit_eq]
    exact fun candidate _ => ⟨candidate, rfl⟩

theorem OfferLogs.numbered (offer : OfferLogs state m before)
    (numbered : Numbered 0 (state.leaderLog m.term)) : Numbered m.index m.entries := by
  have part := (numbered.of_isPrefix offer.offered).of_append
  rwa [Nat.zero_add, offer.length] at part

theorem NodeLogs.appended
    (nodeLogs : NodeLogs state node raft) (invariant : state.Invariant Entry.term members)
    (numbered : Numbered m.index m.entries) (offered : m.msgType = .msgAppend)
    (accepts : raft.raftLog.Accepts m) (fit : raft.raftLog.FitFor network node m)
    (appended : raft.raftLog.append m.entries = .ok raftLog) :
    raft.raftLog.committed ≤ m.index ∧
      raftLog = { raft.raftLog with
        entries := raft.raftLog.entries.take m.index ++ m.entries } := by
  rcases fit.2.1 offered accepts with ⟨atStart, cut⟩
  have lastIndex := nodeLogs.contiguous.lastIndex
  by_cases isEmpty : m.entries = []
  · have whole : raft.raftLog.lastIndex ≤ m.index := by
      by_contra shorter
      rcases cut (by simp [isEmpty]; omega) with ⟨entry, member, _⟩
      simp [isEmpty] at member
    have committed := nodeLogs.committed invariant
    rw [isEmpty] at appended
    cases appended
    rw [isEmpty, append_nil, take_of_length_le (by omega)]
    exact ⟨by omega, rfl⟩
  · rcases nodeLogs.contiguous.append isEmpty numbered appended with ⟨committed, result⟩
    refine ⟨committed, result.trans ?_⟩
    split_ifs with first
    · rw [atStart first, take_nil]
    · rfl

theorem OfferLogs.matched (offer : OfferLogs state m before)
    (nodeLogs : NodeLogs state node raft) (accepts : raft.raftLog.Accepts m) :
    ∀ last ∈ before.getLast?, ∃ entry ∈ (state.log node)[before.length - 1]?,
      entry.term = last.term := by
  intro last isLast
  have notEmpty : before ≠ [] := by
    rintro rfl
    simp at isLast
  have positive : 0 < m.index := by
    rw [← offer.length]
    exact length_pos_iff.mpr notEmpty
  have term := accepts.2 positive
  rw [nodeLogs.contiguous.termSync positive, offer.logTerm, lastTerm, isLast] at term
  rcases Option.map_eq_some_iff.mp term with ⟨entry, found, same⟩
  rw [nodeLogs.log, offer.length]
  exact ⟨entry, found, same⟩

theorem OfferLogs.conflict (offer : OfferLogs state m before)
    (numbered : Numbered m.index m.entries) (contiguous : raft.raftLog.Contiguous)
    (contradicts : raft.raftLog.Contradicts m) :
    Conflict Entry.term (before ++ m.entries) raft.raftLog.entries := by
  rcases contradicts with ⟨entry, member, within, differs⟩
  rcases getElem?_of_mem member with ⟨position, found⟩
  have index := numbered position entry found
  rw [contiguous.lastIndex] at within
  have inLog : m.index + position < raft.raftLog.entries.length := by omega
  rw [contiguous.termSync (by omega), index, Nat.add_sub_cancel, List.getElem?_eq_getElem inLog]
    at differs
  refine ⟨m.index + position, entry, raft.raftLog.entries[m.index + position], ?_,
    List.getElem?_eq_getElem inLog, fun same => differs (congrArg some same.symm)⟩
  rw [← offer.length, getElem?_append_right (Nat.le_add_right _ _), Nat.add_sub_cancel_left,
    found]

theorem NodeLogs.accept
    (nodeLogs : NodeLogs state node raft) (invariant : state.Invariant Entry.term members)
    (offer : OfferLogs state m before) (leaderNumbered : Numbered 0 (state.leaderLog m.term))
    (leaderSmall : (state.leaderLog m.term).length + 1 < wordSize)
    (offered : m.msgType = .msgAppend) (current : m.term = raft.term)
    (follower : raft.state = .follower) (accepts : raft.raftLog.Accepts m)
    (fit : raft.raftLog.FitFor network node m)
    (appended : raft.raftLog.append m.entries = .ok raftLog) :
    ∃ next, Locally members node state next ∧ NodeLogs next node { raft with raftLog } ∧
      raftLog.entries <+: state.leaderLog m.term := by
  have numbered := offer.numbered leaderNumbered
  rcases nodeLogs.appended invariant numbered offered accepts fit appended with ⟨kept, rfl⟩
  have matched := offer.matched nodeLogs accepts
  have inLeader : before ++ m.entries <+: state.leaderLog (state.term node) := by
    rw [nodeLogs.term, ← current]
    exact offer.offered
  have within : before.length ≤ (state.log node).length := by
    rw [offer.length, nodeLogs.log, ← nodeLogs.contiguous.lastIndex]
    exact accepts.1
  have agreed := invariant.take_eq_of_matched ((prefix_append _ _).trans inLeader) within
    matched
  have cut : before.length + m.entries.length < (state.log node).length →
      Conflict Entry.term (before ++ m.entries) (state.log node) := by
    rw [offer.length, nodeLogs.log, ← nodeLogs.contiguous.lastIndex]
    intro shorter
    exact offer.conflict numbered nodeLogs.contiguous ((fit.2.1 offered accepts).2 shorter)
  have step : Replication.Step Entry.term members state _ :=
    .accept node before m.entries
      ⟨inLeader, within, matched, by rw [nodeLogs.commit, offer.length]; exact kept, cut⟩
  rw [offer.length, nodeLogs.log] at agreed
  have isPrefix : raft.raftLog.entries.take m.index ++ m.entries <+: state.leaderLog m.term := by
    rw [agreed]
    exact offer.offered
  refine ⟨_, ⟨.single step, ?_, rfl⟩, ?_, isPrefix⟩
  · exact fun other different => ⟨rfl, update_of_ne different _ _, rfl⟩
  · exact { nodeLogs with
      contiguous := nodeLogs.contiguous.of_entries (leaderNumbered.of_isPrefix isPrefix)
        (lt_of_le_of_lt (Nat.succ_le_succ isPrefix.length_le) leaderSmall)
      log := by
        rw [offer.length, nodeLogs.log]
        exact update_self _ _ _
      leads := by simp [follower]
      progress := by simp [follower]
      support := by simp [follower] }

/-! ## The cluster -/

section Placing

variable (logs : Logs cluster election state) (present : cluster.nodes.get? node = some raft)
  (led : ∀ leader term, election.led leader term → nextElection.led leader term)

include logs present led

theorem Logs.lead (remembers : Replication.Remembers state next) {own : List Entry}
    (nextVotes : Votes members (cluster.place node after) nextElection)
    (nextElected : nextElection.Invariant members)
    (logsNow : next.log = update state.log node (raft.raftLog.entries ++ own))
    (leaderLogs : next.leaderLog = update state.leaderLog raft.term (raft.raftLog.entries
      ++ own)) (terms : next.term = state.term) (commits : next.commit = state.commit)
    (raftLog : after.raftLog = { raft.raftLog with entries := raft.raftLog.entries ++ own })
    (term : after.term = raft.term) (leader : after.state = .leader) (positive : 0 < raft.term)
    (held : after.msgs = raft.msgs) (numbered : Numbered raft.raftLog.entries.length own)
    (small : (raft.raftLog.entries ++ own).length + 1 < wordSize)
    (notEmpty : raft.raftLog.entries ++ own ≠ [])
    (progress : ∀ {peer progress}, after.prs.get? peer = some progress → progress.matchIndex = 0 ∨
      next.acked peer raft.term progress.matchIndex) :
    Logs (cluster.place node after) nextElection next := by
  have nodeLogs := logs.nodes present
  have allNumbered := nodeLogs.contiguous.numbered.append (by rwa [Nat.zero_add])
  have ownLed := (nextVotes.nodes (Cluster.get?_place_self cluster node after)).led leader
  rw [term] at ownLed
  have nodeAfter : NodeLogs next node after := {
    contiguous := by
      rw [raftLog]
      exact nodeLogs.contiguous.of_entries allNumbered small
    term := by rw [terms, nodeLogs.term, term]
    log := by rw [logsNow, update_self, raftLog]
    commit := by rw [commits, nodeLogs.commit, raftLog]
    positive := by
      rw [term]
      exact fun _ => positive
    leads := by
      rw [leaderLogs, term, update_self, raftLog]
      exact fun _ => ⟨rfl, notEmpty⟩
    progress := by
      rw [term]
      exact fun _ => progress
    support := by simp [leader] }
  apply logs.place present led remembers nodeAfter
  · intro other different
    refine ⟨by rw [terms], ?_, by rw [commits]⟩
    rw [logsNow, update_of_ne different]
  · intro other otherRaft different found otherLeader
    rw [leaderLogs]
    apply update_of_ne
    intro sameTerm
    have found' : (cluster.place node after).nodes.get? other = some otherRaft := by
      rw [Cluster.get?_place, if_neg different, found]
    have otherLed := (nextVotes.nodes found').led otherLeader
    rw [sameTerm] at otherLed
    exact different (nextElected.leader_unique otherLed ownLed)
  · exact ⟨term.ge, by simp [leader]⟩
  · exact held_of_eq held
  · intro other
    by_cases same : other = raft.term
    · subst same
      rw [leaderLogs, update_self]
      exact .inr ⟨allNumbered, small, node, ownLed⟩
    · rw [leaderLogs, update_of_ne same]
      exact .inl rfl

theorem Logs.vacant (votes : Votes members cluster election) (elected : election.Invariant members)
    (nextElected : nextElection.Invariant members) (candidate : raft.state = .candidate)
    (ownLed : nextElection.led node raft.term) : state.leaderLog raft.term = [] := by
  by_contra notEmpty
  rcases logs.leaders notEmpty with ⟨leader, leads⟩
  have same := nextElected.leader_unique (led leader _ leads) ownLed
  subst same
  have nodeVotes := votes.nodes present
  rw [← nodeVotes.term] at leads
  have role := elected.ledLeader leads
  rw [nodeVotes.role, candidate] at role
  cases role

theorem Logs.win (votes : Votes members cluster election)
    (elected : election.Invariant members) (invariant : state.Invariant Entry.term members)
    (nextVotes : Votes members (cluster.place node { raft.takeLead with raftLog }) nextElection)
    (nextElected : nextElection.Invariant members) (candidate : raft.state = .candidate)
    (enough : raft.quorum ≤ raft.countVotes true) (room : raft.raftLog.lastIndex + 2 < wordSize)
    (appended : raft.raftLog.append [raft.noopEntry] = .ok raftLog) :
    Reaches members state (cluster.place node { raft.takeLead with raftLog }) nextElection := by
  have nodeLogs := logs.nodes present
  rcases nodeLogs.noop invariant room with ⟨numbered, result⟩
  rw [appended] at result
  cases result
  have positive := nodeLogs.positive (by simp [candidate])
  have ownLed := (nextVotes.nodes (Cluster.get?_place_self cluster node _)).led rfl
  have vacant := logs.vacant present led votes elected nextElected candidate ownLed
  have support : ∀ voter ∈ raft.supporters, ∃ log, state.ballot voter (state.term node) log ∧
      UpToDate Entry.term (state.log node) log := by
    intro voter supporter
    rw [nodeLogs.term, nodeLogs.log]
    exact nodeLogs.support candidate (mem_supporters.mp supporter)
  have majority := (votes.nodes present).majority elected candidate enough
  have step : Replication.Step Entry.term members state _ :=
    .win node raft.noopEntry raft.supporters ⟨by rwa [nodeLogs.term], by rwa [nodeLogs.term],
      by rw [nodeLogs.term]; rfl, majority, support⟩
  refine ⟨_, .single step, logs.lead present led step.grows.toRemembers nextVotes nextElected
    ?_ ?_ rfl rfl rfl rfl rfl positive rfl numbered ?_ (by simp) ?_⟩
  · simp only [leadWith, setLog, nodeLogs.log]
  · simp only [leadWith, setLog, nodeLogs.log, nodeLogs.term]
  · rw [nodeLogs.contiguous.lastIndex] at room
    simpa using room
  · intro peer progress found
    change (raft.prs.mapValues _).get? peer = some progress at found
    rw [get?_mapValues] at found
    rcases Option.map_eq_some_iff.mp found with ⟨_, _, rfl⟩
    exact .inl rfl

theorem Logs.extend (invariant : state.Invariant Entry.term members)
    (nextVotes : Votes members (cluster.place node { raft with raftLog }) nextElection)
    (nextElected : nextElection.Invariant members) (leader : raft.state = .leader)
    (room : raft.raftLog.lastIndex + m.entries.length + 2 < wordSize)
    (appended : raft.raftLog.append (raft.proposedEntries m.entries) = .ok raftLog) :
    Reaches members state (cluster.place node { raft with raftLog }) nextElection := by
  have nodeLogs := logs.nodes present
  have lastIndex := nodeLogs.contiguous.lastIndex
  rcases raft.proposedEntries_spec m.entries (by omega) with ⟨own, numbered⟩
  rw [lastIndex] at numbered
  have result := nodeLogs.contiguous.append_end (nodeLogs.committed invariant) numbered
  rw [appended] at result
  cases result
  rcases nodeLogs.leads leader with ⟨leads, notEmpty⟩
  have step : Replication.Step Entry.term members state _ :=
    .extend node (raft.proposedEntries m.entries) (by rw [nodeLogs.term, leads, nodeLogs.log])
      (by rwa [nodeLogs.log]) (by rwa [nodeLogs.term])
  refine ⟨_, .single step, logs.lead present led step.grows.toRemembers nextVotes nextElected
    ?_ ?_ rfl rfl rfl rfl leader (nodeLogs.positive (by simp [leader])) rfl numbered ?_ ?_ ?_⟩
  · simp only [leadWith, setLog, nodeLogs.log]
  · simp only [leadWith, nodeLogs.log, nodeLogs.term]
  · have length : (raft.proposedEntries m.entries).length = m.entries.length := by
      simp [Raft.proposedEntries]
    rw [length_append, length]
    omega
  · simp [notEmpty]
  · exact fun found => nodeLogs.progress leader found

theorem Logs.send (leader : raft.state = .leader)
    (fine : ∀ {next : Replication Nat Entry}, NodeLogs next node raft → next.announced raft.term
      raft.raftLog.committed → MessageLogs (cluster.place node (raft.push m)) next m) :
    Reaches members state (cluster.place node (raft.push m)) nextElection := by
  have nodeLogs := logs.nodes present
  have step : Replication.Step Entry.term members state _ :=
    .announce node (by rw [nodeLogs.term, (nodeLogs.leads leader).1, nodeLogs.log])
  have same : SameLogs raft (raft.push m) := ⟨rfl, rfl, rfl, rfl, rfl⟩
  have nodeNow := nodeLogs.of_elsewhere step.grows.toRemembers ⟨rfl, rfl, rfl⟩ fun _ => rfl
  refine ⟨_, .single step, logs.recorded present led step.grows.toRemembers
    (nodeNow.of_sameLogs same) (fun _ _ => ⟨rfl, rfl, rfl⟩) rfl same.forward
    (held_of_push rfl (fine nodeNow ?_))⟩
  exact .inr ⟨nodeLogs.term.symm, nodeLogs.commit.symm⟩

theorem Logs.offer
    (leader : raft.state = .leader) (near : nextIndex ≤ wrap (raft.raftLog.lastIndex + 1))
    (sliced : raft.entriesFrom nextIndex = .ok entries) :
    Reaches members state
      (cluster.place node (raft.push (raft.appendMessage peer nextIndex entries)))
      nextElection := by
  apply logs.send present led leader
  intro next nodeLogs announced
  exact {
    append := fun _ => ⟨_, appendMessage_offers nodeLogs leader near sliced announced⟩
    heartbeat := nofun
    accepted := nofun
    request := nofun
    granted := nofun }

theorem Logs.beat (leader : raft.state = .leader) :
    Reaches members state (cluster.place node (raft.push (raft.heartbeatMessage peer)))
      nextElection := by
  apply logs.send present led leader
  intro next nodeLogs announced
  exact {
    append := nofun
    heartbeat := fun _ => announced
    accepted := nofun
    request := nofun
    granted := nofun }

theorem Logs.note (delivered : m ∈ cluster.network) (answered : m.msgType = .msgAppendResponse)
    (current : m.term = raft.term) :
    Logs (cluster.place node (raft.noteResponse m)) nextElection state := by
  have nodeLogs := logs.nodes present
  rw [Raft.noteResponse_eq]
  refine logs.still present led ?_ ⟨le_rfl, fun candidate _ => ⟨candidate, rfl⟩⟩ (held_of_eq rfl)
  exact { nodeLogs with
    progress := by
      intro leader peer progress found
      change (raft.noteResponse m).prs.get? peer = some progress at found
      rw [Raft.noteResponse] at found
      split at found
      · exact nodeLogs.progress leader found
      · rename_i old known
        dsimp only at found
        rw [get?_insert] at found
        split at found
        · rename_i same
          cases found
          subst same
          split
          · rw [Progress.matchIndex_decreaseNext]
            exact nodeLogs.progress leader known
          · rename_i accepted
            have acked := (logs.messages (.inl delivered)).accepted answered
              (by simpa using accepted)
            rw [current] at acked
            exact .inr acked
        · exact nodeLogs.progress leader found }

theorem Logs.choose (votes : Votes members cluster election) (leader : raft.state = .leader) :
    Reaches members state (cluster.place node raft.maybeCommit) nextElection := by
  have nodeLogs := logs.nodes present
  have nodeVotes := votes.nodes present
  rcases raft.maybeCommit_cases with same | ⟨commitIndex, result, enough, above, termNow⟩
  · rw [same]
    exact ⟨state, .refl, logs.still present led nodeLogs
      ⟨le_rfl, fun candidate _ => ⟨candidate, rfl⟩⟩ (held_of_eq rfl)⟩
  · have positive : 0 < commitIndex := by omega
    have leaderTerm := nodeLogs.positive (by simp [leader])
    obtain ⟨entry, found, own⟩ : ∃ entry, raft.raftLog.entries[commitIndex - 1]? = some entry ∧
        entry.term = raft.term := by
      rw [nodeLogs.contiguous.termSync positive] at termNow
      cases found : raft.raftLog.entries[commitIndex - 1]? with
      | none =>
        rw [found] at termNow
        simp only [Option.map_none, Option.getD_none] at termNow
        omega
      | some entry =>
        rw [found] at termNow
        exact ⟨entry, rfl, termNow⟩
    have majority : Majority members (raft.prs.keysWhere fun progress =>
        decide (commitIndex ≤ progress.matchIndex)).toFinset := by
      constructor
      · intro peer member
        rcases mem_keysWhere.mp (mem_toFinset.mp member) with ⟨progress, known, _⟩
        exact ((nodeVotes.peers peer).mp (by simp [known])).1
      · rw [toFinset_card_of_nodup (raft.prs.keysWhere_nodup _),
          length_keysWhere]
        have card := nodeVotes.card
        rw [Raft.quorum] at enough
        omega
    have support : ∀ voter ∈
        (raft.prs.keysWhere fun progress => decide (commitIndex ≤ progress.matchIndex)).toFinset,
        ∃ most, commitIndex ≤ most ∧ state.acked voter (state.term node) most := by
      intro peer member
      rcases mem_keysWhere.mp (mem_toFinset.mp member) with
        ⟨progress, known, reached⟩
      have reached := of_decide_eq_true reached
      rw [nodeLogs.term]
      exact ⟨progress.matchIndex, reached,
        (nodeLogs.progress leader known).resolve_left (by omega)⟩
    have step : Replication.Step Entry.term members state _ :=
      .choose node commitIndex entry _
        ⟨by rw [nodeLogs.term, (nodeLogs.leads leader).1, nodeLogs.log], positive,
          by rw [nodeLogs.log, found], by rw [nodeLogs.term, own], majority, support⟩
    rw [result]
    exact ⟨_, .single step, logs.recorded present led step.grows.toRemembers
      (nodeLogs.setCommit commitIndex)
      (fun other different => ⟨rfl, rfl, update_of_ne different _ _⟩) rfl
      ⟨le_rfl, fun candidate _ => ⟨candidate, rfl⟩⟩ (held_of_eq rfl)⟩

theorem Logs.locally (locally : Locally members node state next)
    (nodeAfter : NodeLogs next node after) (forward : Forward raft after)
    (pushed : ∀ m ∈ after.msgs, m ∈ raft.msgs ∨ MessageLogs (cluster.place node after) next m) :
    Reaches members state (cluster.place node after) nextElection :=
  ⟨next, locally.steps, logs.recorded present led (remembers_of_steps locally.steps)
    nodeAfter locally.others locally.leaderLogs forward pushed⟩

theorem Logs.learn
    (invariant : state.Invariant Entry.term members) (kept : network ⊆ cluster.network)
    (fit : raft.raftLog.FitFor network node m) (delivered : m ∈ cluster.network)
    (beaten : m.msgType = .msgHeartbeat) (current : m.term = raft.term) :
    Reaches members state (cluster.place node (raft.followCommit m.commit)) nextElection := by
  have nodeLogs := logs.nodes present
  have announced := (logs.messages (.inl delivered)).heartbeat beaten
  rw [current] at announced
  have held : raft.raftLog.committed < m.commit →
      raft.raftLog.entries.take (min m.commit raft.raftLog.lastIndex) <+:
        state.leaderLog raft.term := by
    intro above
    rcases fit.2.2 beaten above with ⟨ack, inNetwork, answered, accepted, rfl, term, enough⟩
    have acked := (logs.messages (.inl (kept inNetwork))).accepted answered accepted
    rw [term, current, ← nodeLogs.term] at acked
    rcases invariant.acks ⟨ack.index, enough, acked⟩ with ⟨_, within, covered⟩
    rcases covered with has | ⟨later, after, before, _⟩
    · rw [nodeLogs.term, nodeLogs.log] at has
      rw [nodeLogs.term] at within
      have length : ((state.leaderLog raft.term).take
          (min m.commit raft.raftLog.lastIndex)).length =
          min m.commit raft.raftLog.lastIndex := by simp [within]
      rw [take_eq_of_isPrefix has length.ge, take_take, min_self]
      exact take_prefix _ _
    · omega
  rcases nodeLogs.followCommit members announced held with ⟨next, locally, nodeAfter, _⟩
  exact logs.locally present led locally nodeAfter (raft.forward_followCommit m.commit)
    (held_of_eq (by rw [Raft.followCommit_eq]))

theorem Logs.accept (invariant : state.Invariant Entry.term members)
    (id : raft.id = node) (delivered : m ∈ cluster.network) (offered : m.msgType = .msgAppend)
    (current : m.term = raft.term) (follower : raft.state = .follower)
    (accepts : raft.raftLog.Accepts m) (fit : raft.raftLog.FitFor network node m)
    (appended : raft.raftLog.append m.entries = .ok raftLog) :
    Reaches members state
      (cluster.place node (({ raft with raftLog }.followCommit m.commit).push
        (raft.appendResponse m.fromId false raftLog.lastIndex))) nextElection := by
  rcases (logs.messages (.inl delivered)).append offered with ⟨before, offer⟩
  obtain ⟨accepted, acceptedLocally, nodeAccepted, isPrefix⟩ :=
    (logs.nodes present).accept invariant offer (logs.numbered _) (logs.small _) offered current
      follower accepts fit appended
  have lastIndex := nodeAccepted.contiguous.lastIndex
  have inLeader : raftLog.entries <+: accepted.leaderLog raft.term := by
    rw [acceptedLocally.leaderLogs, ← current]
    exact isPrefix
  have announced : accepted.announced raft.term m.commit := by
    rw [← current]
    exact (remembers_of_steps acceptedLocally.steps).announced offer.announced
  rcases nodeAccepted.followCommit members announced
      fun _ => ( take_prefix _ _).trans inLeader with
    ⟨told, toldLocally, nodeTold, terms, logsTold⟩
  have term : told.term node = raft.term := by
    rw [terms]
    exact nodeAccepted.term
  have log : told.log node = raftLog.entries := by
    rw [logsTold]
    exact nodeAccepted.log
  have step : Replication.Step Entry.term members told _ :=
    .acknowledge node raftLog.entries.length (by rw [log]) (by
      rw [log, term, take_length, toldLocally.leaderLogs]
      exact inLeader)
  have same : SameLogs ({ raft with raftLog }.followCommit m.commit)
      (({ raft with raftLog }.followCommit m.commit).push
        (raft.appendResponse m.fromId false raftLog.lastIndex)) := ⟨rfl, rfl, rfl, rfl, rfl⟩
  have nodeAfter := (nodeTold.of_elsewhere step.grows.toRemembers ⟨rfl, rfl, rfl⟩
    fun _ => rfl).of_sameLogs same
  have held : (({ raft with raftLog }.followCommit m.commit).push
      (raft.appendResponse m.fromId false raftLog.lastIndex)).msgs =
      raft.msgs ++ [raft.appendResponse m.fromId false raftLog.lastIndex] := by
    rw [Raft.followCommit_eq]
    rfl
  refine logs.locally present led ((acceptedLocally.trans toldLocally).trans
    ⟨.single step, fun _ _ => ⟨rfl, rfl, rfl⟩, rfl⟩) nodeAfter ?_ (held_of_push held ?_)
  · rw [Raft.followCommit_eq]
    exact ⟨le_rfl, by simp [Raft.push, follower]⟩
  · exact {
      append := nofun
      heartbeat := nofun
      accepted := fun _ _ => .inr ⟨id, term.symm, lastIndex⟩
      request := nofun
      granted := nofun }

end Placing

/-! ## Every move -/

theorem Logs.move (logs : Logs cluster election state)
    (votes : Votes members cluster election) (elected : election.Invariant members)
    (invariant : state.Invariant Entry.term members) (kept : network ⊆ cluster.network)
    (moved : cluster.Moved node m (fun node m log => log.FitFor network node m) raft after) :
    ∃ nextElection, nextElection.Invariant members ∧
      Votes members (cluster.place node after) nextElection ∧
      Reaches members state (cluster.place node after) nextElection := by
  rcases votes.move elected moved with ⟨nextElection, electionStep, nextVotes⟩
  have nextElected : nextElection.Invariant members := by
    cases electionStep with
    | refl => exact elected
    | single step => exact step.invariant elected
  have led : ∀ leader term, election.led leader term → nextElection.led leader term := by
    cases electionStep with
    | refl => exact fun _ _ => id
    | single step => exact fun _ _ => step.led
  refine ⟨nextElection, nextElected, nextVotes, ?_⟩
  rcases moved with ⟨present, handled, move⟩
  have nodeLogs := logs.nodes present
  have nodeVotes := votes.nodes present
  have still : ∀ {after : Raft}, Logs (cluster.place node after) nextElection state →
      Reaches members state (cluster.place node after) nextElection :=
    fun same => ⟨state, .refl, same⟩
  cases move with
  | settle lead electionElapsed heartbeatElapsed =>
    have same : SameLogs raft { raft with lead, electionElapsed, heartbeatElapsed } :=
      ⟨rfl, rfl, rfl, rfl, rfl⟩
    exact still (logs.still present led (nodeLogs.of_sameLogs same) same.forward (held_of_eq rfl))
  | post message inert =>
    have same : SameLogs raft (raft.push message) := ⟨rfl, rfl, rfl, rfl, rfl⟩
    exact still (logs.still present led (nodeLogs.of_sameLogs same) same.forward
      (held_of_push rfl (.of_inert inert)))
  | adopt draw lead newer => exact logs.becomeFollower present led newer.le
  | concede => exact logs.becomeFollower present led le_rfl
  | stand draw room => exact logs.becomeCandidate present led room nodeVotes.id
  | request peer lastTerm candidate other last =>
    exact still (logs.request present led nodeVotes.id last)
  | grant asked current free upToDate =>
    have inNetwork := handled.resolve_right (by simp [Message.Local, asked])
    have different : m.fromId ≠ node := by
      rw [← inNetwork.2]
      exact ((votes.messages (.inl inNetwork.1)).request asked).1
    exact logs.giveVote present led nodeVotes.id inNetwork.1 different asked current upToDate
  | tally answered current =>
    have inNetwork := handled.resolve_right (by simp [Message.Local, answered])
    exact still (logs.tally present led inNetwork.1 inNetwork.2 answered current)
  | win raftLog safely candidate majority appended =>
    have room := safely.1
    exact logs.win present led votes elected invariant nextVotes nextElected candidate majority
      (by omega) appended
  | stall fault safely candidate majority failed =>
    have room := safely.1
    have appended := (nodeLogs.noop invariant (by omega)).2
    rw [failed] at appended
    cases appended
  | extend raftLog safely leader proposed appended =>
    exact logs.extend present led invariant nextVotes nextElected leader safely.1 appended
  | offer peer progress entries leader near sliced =>
    exact logs.offer present led leader near sliced
  | beat peer leader => exact logs.beat present led leader
  | accept raftLog safely offered current follower within matched appended =>
    have inNetwork := handled.resolve_right (by simp [Message.Local, offered])
    exact logs.accept present led invariant nodeVotes.id inNetwork.1 offered current follower
      ⟨within, matched⟩ safely appended
  | learn safely beaten current follower =>
    have inNetwork := handled.resolve_right (by simp [Message.Local, beaten])
    exact logs.learn present led invariant kept safely inNetwork.1 beaten current
  | note answered current leader =>
    have inNetwork := handled.resolve_right (by simp [Message.Local, answered])
    exact still (logs.note present led inNetwork.1 answered current)
  | choose leader => exact logs.choose present led votes leader

end AegisDB.Consensus

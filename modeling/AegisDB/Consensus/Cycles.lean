import AegisDB.Consensus.LogChanges
import AegisDB.Consensus.RawNode
import AegisDB.Foundation.Transition

/-! # Applying what is committed

The entries that `next_entries` hands out run one past the commit index, and the slice
has no such entry if everything is committed. So a node whose commit index is ahead of
what it has applied either panics in its next cycle or applies an entry too many. -/

namespace AegisDB.Consensus

open Foundation RawNode List

/-! ## What `ready` hands out -/

namespace RaftLog

structure InRange (log : RaftLog) : Prop where
  committed : log.committed < wordSize
  applied : log.applied < wordSize
  stabled : log.stabled < wordSize

instance decidableInRange (log : RaftLog) : Decidable log.InRange :=
  decidable_of_iff
    (log.committed < wordSize ∧ log.applied < wordSize ∧ log.stabled < wordSize)
    ⟨fun ⟨committed, applied, stabled⟩ => ⟨committed, applied, stabled⟩,
      fun ⟨committed, applied, stabled⟩ => ⟨committed, applied, stabled⟩⟩

def Gapless (log : RaftLog) : Prop := (∃ before, log.Consecutive before) ∧ log.InRange

namespace Consecutive

variable {before : Nat} {log : RaftLog}

variable (consecutive : log.Consecutive before)

include consecutive

theorem offset {index : Nat} (small : index < wordSize) :
    (if index ≥ log.firstIndex then wrap (index - log.firstIndex + 1) else 0) =
      index - before := by
  rw [consecutive.firstIndex]
  split
  · rw [wrap_of_lt (by omega)]
    omega
  · omega

theorem unstableEntries (small : log.stabled < wordSize) :
    log.unstableEntries =
      slice log.entries (log.stabled - before) log.entries.length := by
  rw [RaftLog.unstableEntries, consecutive.offset small]

theorem nextEntries (applied : log.applied < wordSize) (committed : log.committed < wordSize) :
    log.nextEntries = slice log.entries (log.applied - before)
      (min (log.committed - before) log.entries.length + 1) := by
  rw [RaftLog.nextEntries, consecutive.offset applied, consecutive.offset committed]

theorem beyond_committed (inRange : log.InRange) (ahead : log.applied < log.committed)
    {entries : List Entry} (next : log.nextEntries = .ok entries) :
    ∃ last, entries.getLast? = some last ∧ log.committed < last.index := by
  rw [consecutive.nextEntries inRange.applied inRange.committed, slice] at next
  split at next
  · rename_i bounds
    have short : log.committed - before < log.entries.length := by omega
    have found : entries.getLast? = log.entries[log.committed - before]? := by
      rw [← Except.ok.inj next, getLast?_eq_getElem?, length_take, length_drop,
        getElem?_take, if_pos (by omega), getElem?_drop]
      congr 1
      omega
    have present :
        log.entries[log.committed - before]? = some log.entries[log.committed - before] :=
      getElem?_eq_getElem short
    refine ⟨_, found.trans present, ?_⟩
    have index := consecutive.numbered _ _ present
    omega
  · cases next

end Consecutive

end RaftLog

namespace RawNode

theorem raftLog_advance {node : RawNode} {ready : Ready} (noSnapshot : ready.snapshot = none) :
    (node.advance ready).raft.raftLog =
      { node.raft.raftLog with
        stabled := (ready.entries.getLast?.map Entry.index).getD node.raft.raftLog.stabled
        applied :=
          (ready.committedEntries.getLast?.map Entry.index).getD node.raft.raftLog.applied } := by
  rw [advance]
  simp only [noSnapshot]
  cases ready.softState <;> cases ready.hardState.isEmpty <;> cases ready.entries.getLast? <;>
    cases ready.committedEntries.getLast? <;> rfl

theorem entriesToApply_eq_error {node : RawNode} {fault : Fault}
    (failed : node.entriesToApply = .error fault) : ∃ message, fault = .panic message := by
  rw [entriesToApply] at failed
  split at failed
  · exact slice_eq_error failed
  · cases failed

end RawNode

namespace Session

structure Cycled (session after : Session) (entries committed : List Entry) : Prop where
  log : after.log =
    { session.log with
      stabled := (entries.getLast?.map Entry.index).getD session.log.stabled
      applied := (committed.getLast?.map Entry.index).getD session.log.applied }
  handedOut : after.handedOut = session.handedOut ++ committed
  disk : after.disk = writeOver session.disk entries

variable {session : Session} {entries committed : List Entry}

theorem ready_eq_ok (unstable : session.log.unstableEntries = .ok entries)
    (next : session.node.entriesToApply = .ok committed) :
    session.node.ready = .ok (session.node.readyWith entries committed,
      { session.node with raft := { session.node.raft with msgs := [] } }) := by
  rw [RawNode.ready]
  simp only [unstable, next, bind, Except.bind, pure, Except.pure]

theorem eq_ok_of_ready (noPanic : Fallible.NoPanic session.node.ready) :
    ∃ entries committed, session.log.unstableEntries = .ok entries ∧
      session.node.entriesToApply = .ok committed := by
  rw [RawNode.ready] at noPanic
  cases unstable : session.log.unstableEntries with
  | error fault =>
    rcases slice_eq_error unstable with ⟨message, rfl⟩
    simp only [unstable, bind, Except.bind] at noPanic
    exact absurd rfl (noPanic message)
  | ok entries =>
    cases next : session.node.entriesToApply with
    | error fault =>
      rcases entriesToApply_eq_error next with ⟨message, rfl⟩
      simp only [unstable, next, bind, Except.bind] at noPanic
      exact absurd rfl (noPanic message)
    | ok committed => exact ⟨entries, committed, rfl, rfl⟩

theorem cycled (noSnapshot : session.log.snapshotToApply = none)
    (unstable : session.log.unstableEntries = .ok entries)
    (next : session.node.entriesToApply = .ok committed) :
    Cycled session session.cycle entries committed := by
  have done := ready_eq_ok unstable next
  refine ⟨?_, ?_, ?_⟩
  · rw [cycle, done]
    exact raftLog_advance noSnapshot
  · rw [cycle, done]
    rfl
  · rw [cycle, done]
    rfl

end Session

/-! ## What the other inputs change -/

def NodeInput.Feeds (input : NodeInput) (m : Message) : Prop :=
  m.msgType.isLocal = true ∧ m.entries.length ≤ 1 ∨
    m.msgType.isLocal = false ∧ ∃ draw, input = .step draw m

theorem Raft.tick_effect (raft : Raft) (draw : Nat) :
    ∃ m, (m.msgType.isLocal = true ∧ m.entries.length ≤ 1) ∧
      LogEffect m (raft.Hears m) raft.raftLog (raft.tick draw).raft.raftLog := by
  rw [Raft.tick]
  split
  · refine ⟨{ msgType := .msgBeat, fromId := raft.id }, ⟨rfl, Nat.zero_le 1⟩, ?_⟩
    split
    · rw [Outcome.raft_ignoreError]
      exact Raft.step_effect { raft with heartbeatElapsed := 0 } draw _
    · exact .of_eq rfl
  · refine ⟨{ msgType := .msgHup, fromId := raft.id }, ⟨rfl, Nat.zero_le 1⟩, ?_⟩
    split
    · rw [Outcome.raft_ignoreError]
      exact Raft.step_effect { raft with electionElapsed := 0 } draw _
    · exact .of_eq rfl

theorem Session.act_effect (session : Session) {input : NodeInput} (notCycle : input ≠ .cycle) :
    ∃ m, input.Feeds m ∧
      LogEffect m (session.node.raft.Hears m) session.log (session.act input).log := by
  have idle : NodeInput.Feeds input {} := .inl ⟨rfl, Nat.zero_le 1⟩
  cases input with
  | cycle => exact absurd rfl notCycle
  | step draw m =>
    rw [Session.act, RawNode.step]
    split
    · exact ⟨{}, idle, .of_eq rfl⟩
    · rename_i notLocal
      split
      · exact ⟨{}, idle, .of_eq rfl⟩
      · exact ⟨m, .inr ⟨by simpa using notLocal, draw, rfl⟩, session.node.raft.step_effect draw m⟩
  | tick draw =>
    rcases session.node.raft.tick_effect draw with ⟨m, isLocal, effect⟩
    exact ⟨m, .inl isLocal, effect⟩
  | propose entryType data draw =>
    exact ⟨_, .inl ⟨rfl, le_rfl⟩, session.node.raft.step_effect draw _⟩

theorem Session.act_only_node {session : Session} {input : NodeInput} (notCycle : input ≠ .cycle) :
    (session.act input).handedOut = session.handedOut ∧
      (session.act input).disk = session.disk := by
  cases input with
  | cycle => exact absurd rfl notCycle
  | step draw m => exact ⟨rfl, rfl⟩
  | tick draw => exact ⟨rfl, rfl⟩
  | propose entryType data draw => exact ⟨rfl, rfl⟩

namespace RaftLog

variable {before : Nat} {log after : RaftLog}

theorem Consecutive.of_committed {committed : Nat}
    (consecutive : { log with committed }.Consecutive before) : log.Consecutive before :=
  ⟨consecutive.noSnapshot, consecutive.numbered, consecutive.atStart, consecutive.small⟩

theorem committed_lt_of_append {entries : List Entry} (appended : log.append entries = .ok after)
    (consecutive : after.Consecutive before) :
    after = log ∨ log.committed < after.lastIndex ∧ after.committed = log.committed ∧
      after.applied = log.applied := by
  rcases append_eq_ok appended with same | ⟨entry, rest, kept, rfl, above, _, rfl⟩
  · exact .inl same
  · refine .inr ⟨?_, rfl, rfl⟩
    have found : (kept ++ entry :: rest)[kept.length]? = some entry := by simp
    have index := consecutive.numbered _ _ found
    have last := consecutive.lastIndex
    simp only [length_append, length_cons] at last
    omega

end RaftLog

theorem LogEffect.applied {m : Message} {heard : Prop} {before : Nat} {log after : RaftLog}
    (effect : LogEffect m heard log after) (consecutive : after.Consecutive before)
    (applied : log.applied ≤ log.committed) (within : log.applied ≤ log.lastIndex) :
    after.applied = log.applied ∧ after.applied ≤ after.committed ∧
      after.applied ≤ after.lastIndex := by
  rcases effect with ⟨middle, change, commit⟩
  have changed : middle.Consecutive before → middle.applied = log.applied ∧
      middle.applied ≤ middle.committed ∧ middle.applied ≤ middle.lastIndex := by
    intro consecutive
    have append : ∀ {entries}, log.append entries = .ok middle →
        middle.applied = log.applied ∧ middle.applied ≤ middle.committed ∧
          middle.applied ≤ middle.lastIndex := by
      intro entries appended
      rcases RaftLog.committed_lt_of_append appended consecutive with same | ⟨last, same, still⟩
      · rw [same]
        exact ⟨rfl, applied, within⟩
      · exact ⟨still, by omega, by omega⟩
    cases change with
    | keep => exact ⟨rfl, applied, within⟩
    | extend _ _ _ _ appended => exact append appended
    | accept _ _ _ _ appended => exact append appended
    | restore snapshot _ _ restored =>
      rw [RaftLog.applySnapshot] at restored
      split at restored
      · rw [← Except.ok.inj restored]
        exact ⟨rfl, applied, within⟩
      · split at restored
        · cases restored
        · have pending := consecutive.noSnapshot
          rw [← Except.ok.inj restored] at pending
          cases pending
  cases commit with
  | keep => exact changed consecutive
  | raise index above =>
    rcases changed consecutive.of_committed with ⟨same, committed, last⟩
    exact ⟨same, by dsimp only; omega, last⟩
  | follow index above =>
    rcases changed consecutive.of_committed with ⟨same, committed, last⟩
    exact ⟨same, by dsimp only; omega, last⟩

/-! ## Applying -/

namespace Session

/-- Entries of the log have been handed out, each once, up to what is applied and committed. -/
structure AppliesOnce (start : RawNode) (session : Session) : Prop where
  indexes : session.handedOut.map Entry.index =
    List.range' (start.raft.raftLog.applied + 1)
      (session.log.applied - start.raft.raftLog.applied)
  entries : session.handedOut ⊆ session.log.entries
  applied : session.log.applied ≤ session.log.committed

def UpToDate (session : Session) (input : NodeInput) : Prop :=
  input = .cycle → session.log.committed ≤ session.log.applied ∧
    session.log.stabled ≤ session.log.lastIndex

instance decidableUpToDate (session : Session) (input : NodeInput) :
    Decidable (session.UpToDate input) :=
  inferInstanceAs (Decidable (_ → _))

structure Idle (start : RawNode) (session : Session) : Prop where
  handedOut : session.handedOut = []
  same : session.log.applied = start.raft.raftLog.applied
  committed : session.log.applied ≤ session.log.committed
  within : session.log.applied ≤ session.log.lastIndex

variable {start : RawNode} {session : Session}

theorem Idle.appliesOnce (idle : Idle start session) : AppliesOnce start session where
  indexes := by rw [idle.handedOut, idle.same, Nat.sub_self]; rfl
  entries := by rw [idle.handedOut]; exact nil_subset _
  applied := idle.committed

theorem unstableEntries_ok (gapless : session.log.Gapless)
    (within : session.log.stabled ≤ session.log.lastIndex) :
    ∃ entries, session.log.unstableEntries = .ok entries ∧
      (session.log.entries = [] → entries = []) := by
  rcases gapless with ⟨⟨before, consecutive⟩, inRange⟩
  rw [consecutive.lastIndex] at within
  rw [consecutive.unstableEntries inRange.stabled, slice_eq_ok (by omega) le_rfl]
  refine ⟨_, rfl, fun isEmpty => ?_⟩
  rw [isEmpty, drop_nil, take_nil]

theorem lastIndex_of_stabled {log : RaftLog} {stabled applied : Nat}
    (same : log.entries = [] → stabled = log.stabled) :
    { log with stabled, applied }.lastIndex = log.lastIndex := by
  cases entries : log.entries with
  | nil => simp [RaftLog.lastIndex, RaftLog.snapshotToApply, entries, same entries]
  | cons first rest =>
    simp [RaftLog.lastIndex, RaftLog.snapshotToApply, entries, getLast?_cons]

theorem Idle.cycle (idle : Idle start session) (gapless : session.log.Gapless)
    (upToDate : session.UpToDate .cycle) :
    Fallible.NoPanic session.node.ready ∧ Idle start session.cycle := by
  rcases upToDate rfl with ⟨applied, stable⟩
  rcases unstableEntries_ok gapless stable with ⟨entries, unstable, isEmpty⟩
  have next : session.node.entriesToApply = .ok [] := if_neg (not_lt.mpr applied)
  have cycled := cycled gapless.1.choose_spec.snapshotToApply unstable next
  have last : session.cycle.log.lastIndex = session.log.lastIndex := by
    rw [cycled.log]
    apply lastIndex_of_stabled
    intro none
    rw [isEmpty none]
    rfl
  refine ⟨ready_eq_ok unstable next ▸ Fallible.noPanic_ok _, ?_, ?_, ?_, ?_⟩
  · rw [cycled.handedOut, idle.handedOut]
    rfl
  · rw [cycled.log]
    exact idle.same
  · rw [cycled.log]
    exact idle.committed
  · rw [last, cycled.log]
    exact idle.within

theorem Idle.act (idle : Idle start session) (gapless : session.log.Gapless) {input : NodeInput}
    (upToDate : session.UpToDate input) (still : (session.act input).log.Gapless) :
    Idle start (session.act input) := by
  by_cases isCycle : input = .cycle
  · subst isCycle
    exact (idle.cycle gapless upToDate).2
  · rcases session.act_effect isCycle with ⟨m, _, effect⟩
    rcases still.1 with ⟨before, consecutive⟩
    rcases effect.applied consecutive idle.committed idle.within with ⟨same, committed, within⟩
    refine ⟨?_, same.trans idle.same, committed, within⟩
    rw [(act_only_node isCycle).1, idle.handedOut]

theorem overshoots (gapless : session.log.Gapless) (noPanic : Fallible.NoPanic session.node.ready) :
    session.log.stabled ≤ session.log.lastIndex ∧
      (session.log.applied < session.log.committed →
        session.cycle.log.committed < session.cycle.log.applied) := by
  rcases gapless with ⟨⟨before, consecutive⟩, inRange⟩
  rcases eq_ok_of_ready noPanic with ⟨entries, committed, unstable, next⟩
  have cycled := cycled consecutive.snapshotToApply unstable next
  constructor
  · rw [consecutive.unstableEntries inRange.stabled, slice] at unstable
    rw [consecutive.lastIndex]
    split at unstable
    · omega
    · cases unstable
  · intro ahead
    rw [entriesToApply, if_pos ahead] at next
    rcases consecutive.beyond_committed inRange ahead next with ⟨last, isLast, beyond⟩
    rw [cycled.log, isLast]
    exact beyond

end Session

open Session in
/-- Cycles do not panic and apply every entry once exactly if nothing is left to apply when one
begins. -/
theorem appliesOnce_iff {start : RawNode} {inputs : List NodeInput}
    (gapless : ∀ past, past <+: inputs → ((Session.start start).run past).log.Gapless)
    (applied : start.raft.raftLog.applied ≤ start.raft.raftLog.committed)
    (within : start.raft.raftLog.applied ≤ start.raft.raftLog.lastIndex) :
    ((∀ past, past ++ [.cycle] <+: inputs →
        Fallible.NoPanic ((Session.start start).run past).node.ready) ∧
      ∀ past, past <+: inputs → AppliesOnce start ((Session.start start).run past)) ↔
    Guarded Session.act UpToDate (Session.start start) inputs := by
  constructor
  · intro ⟨noPanic, once⟩
    refine guarded_of_holds fun past input isPrefix isCycle => ?_
    subst isCycle
    have shorter : past <+: inputs := (prefix_append past _).trans isPrefix
    rcases overshoots (gapless past shorter) (noPanic past isPrefix) with ⟨stable, beyond⟩
    refine ⟨not_lt.mp fun ahead => ?_, stable⟩
    have applied := (once _ isPrefix).applied
    rw [Session.run, foldl_append] at applied
    exact absurd applied (not_le.mpr (beyond ahead))
  · intro guarded
    have idle : ∀ past, past <+: inputs → Idle start ((Session.start start).run past) := by
      intro past isPrefix
      refine (guarded.of_isPrefix isPrefix).induction
        (motive := fun past => Idle start ((Session.start start).run past))
        ⟨rfl, rfl, applied, within⟩ ?_
      intro earlier input shorter upToDate idle
      have longer := shorter.trans isPrefix
      have still := gapless _ longer
      rw [Session.run, foldl_append] at still ⊢
      exact idle.act (gapless _ ((prefix_append earlier _).trans longer)) upToDate still
    refine ⟨fun past isPrefix => ?_, fun past isPrefix => (idle past isPrefix).appliesOnce⟩
    have shorter : past <+: inputs := (prefix_append past _).trans isPrefix
    exact ((idle past shorter).cycle (gapless past shorter) (guarded.holds isPrefix)).1

def follower : Raft where
  id := 1
  term := 1
  vote := NONE
  raftLog :=
    { committed := 0, applied := 0, stabled := 0, entries := [], pendingSnapshot := none }
  prs := OrderedMap.empty.insert 2 (Progress.new 1)
  state := .follower
  votes := .empty
  msgs := []
  lead := 2
  heartbeatTimeout := 1
  electionTimeout := 2
  heartbeatElapsed := 0
  electionElapsed := 0
  randomElectionTimeout := 2

def firstAppend : Message where
  msgType := .msgAppend
  toId := 1
  fromId := 2
  term := 1
  entries := [Entry.newNormal 1 1 []]

def firstCommit : Message where
  msgType := .msgHeartbeat
  toId := 1
  fromId := 2
  term := 1
  commit := 1

/-- A follower that takes an entry and persists it before it is committed. -/
theorem appliesOnce_follower :
    Session.AppliesOnce (RawNode.new follower)
      ((Session.start (RawNode.new follower)).run [.step 0 firstAppend, .cycle, .tick 0]) := by
  refine ((appliesOnce_iff ?_ (by decide) (by decide)).mpr (by decide +kernel)).2 _ prefix_rfl
  simp only [forall_isPrefix_cons, forall_isPrefix_nil]
  refine ⟨⟨⟨0, ?_⟩, ?_⟩, ⟨⟨0, ?_⟩, ?_⟩, ⟨⟨0, ?_⟩, ?_⟩, ⟨⟨0, ?_⟩, ?_⟩⟩ <;> decide +kernel

/-- A heartbeat commits the only entry of the follower, and the next cycle panics. -/
theorem applying_panics :
    ∃ start inputs, (∀ past, past <+: inputs → ((Session.start start).run past).log.Gapless) ∧
      start.raft.raftLog.applied ≤ start.raft.raftLog.committed ∧
      start.raft.raftLog.applied ≤ start.raft.raftLog.lastIndex ∧
      ∃ past, past ++ [.cycle] <+: inputs ∧
        ¬ Fallible.NoPanic ((Session.start start).run past).node.ready := by
  refine ⟨RawNode.new follower, [.step 0 firstAppend, .cycle, .step 0 firstCommit, .cycle],
    ?_, by decide, by decide, [.step 0 firstAppend, .cycle, .step 0 firstCommit],
    prefix_rfl, fun noPanic => noPanic "slice index out of range" rfl⟩
  simp only [forall_isPrefix_cons, forall_isPrefix_nil]
  refine ⟨⟨⟨0, ?_⟩, ?_⟩, ⟨⟨0, ?_⟩, ?_⟩, ⟨⟨0, ?_⟩, ?_⟩, ⟨⟨0, ?_⟩, ?_⟩, ⟨⟨0, ?_⟩, ?_⟩⟩ <;>
    decide +kernel

end AegisDB.Consensus

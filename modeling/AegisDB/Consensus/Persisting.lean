import AegisDB.Consensus.Cycles

/-! # Persisting the log

`unstable_entries` takes everything up to the stable index to be on disk, and appending
does not lower that index. So a leader that replaces entries which are on disk leaves
the old ones there. -/

namespace AegisDB.Consensus

open Foundation List

def RaftLog.Continues (log : RaftLog) (entries : List Entry) : Prop :=
  match entries with
  | [] => True
  | first :: _ =>
    log.committed < first.index →
      Numbered (first.index - 1) entries ∧ first.index + entries.length < wordSize ∧
      (if log.entries = [] then log.stabled < first.index
        else log.firstIndex < first.index ∧ first.index ≤ log.lastIndex + 1) ∧
      ∀ entry ∈ log.entries, first.index ≤ entry.index → entry.index ≤ log.stabled →
        entry ∈ entries

instance decidableContinues (log : RaftLog) (entries : List Entry) :
    Decidable (log.Continues entries) := by
  cases entries <;> unfold RaftLog.Continues <;> infer_instance

structure Stores (before : Nat) (disk : List Entry) (log : RaftLog) : Prop where
  consecutive : log.Consecutive before
  within : log.stabled ≤ before + log.entries.length
  disk : disk = log.entries.take (log.stabled - before)

namespace Stores

variable {before : Nat} {disk : List Entry} {log after : RaftLog}

variable (stores : Stores before disk log)

include stores

theorem stabled_small : log.stabled < wordSize := by
  have := stores.consecutive.small
  have := stores.within
  omega

theorem stabled_of_drop :
    ((log.entries.drop (log.stabled - before)).getLast?.map Entry.index).getD log.stabled =
      before + log.entries.length := by
  have within := stores.within
  rw [getLast?_drop]
  split
  · cases isEmpty : log.entries with
    | nil => exact stores.consecutive.atStart isEmpty
    | cons first rest =>
      rename_i allStable
      rw [isEmpty, length_cons] at allStable within
      simp only [Option.map_none, Option.getD_none, length_cons]
      omega
  · have short : log.entries.length - 1 < log.entries.length := by omega
    have last := List.getElem?_eq_getElem short
    have index := stores.consecutive.numbered _ _ last
    rw [getLast?_eq_getElem?, last]
    simp only [Option.map_some, Option.getD_some]
    omega

theorem of_committed (committed : Nat) :
    Stores before disk { log with committed } :=
  ⟨⟨stores.consecutive.noSnapshot, stores.consecutive.numbered, stores.consecutive.atStart,
    stores.consecutive.small⟩, stores.within, stores.disk⟩

variable {entries : List Entry}

theorem replaceAfter {position : Nat}
    (inside : position ≤ log.entries.length) (notEmpty : entries ≠ [])
    (numbered : Numbered (before + position) entries)
    (small : before + position + entries.length + 1 < wordSize)
    (keeps : ∀ entry ∈ log.entries, before + position < entry.index →
      entry.index ≤ log.stabled → entry ∈ entries) :
    Stores before disk { log with entries := log.entries.take position ++ entries } := by
  have within := stores.within
  have kept : (log.entries.take position).length = position := by simp [inside]
  -- An entry on disk behind the prefix is found among the new ones at its own place.
  have aligned : ∀ offset, position + offset < log.stabled - before →
      entries[offset]? = log.entries[position + offset]? := by
    intro offset stable
    have present := List.getElem?_eq_getElem (l := log.entries) (i := position + offset) (by omega)
    have index := stores.consecutive.numbered _ _ present
    have member := keeps _ (mem_of_getElem? present) (by omega) (by omega)
    rcases mem_iff_getElem?.mp member with ⟨place, found⟩
    have placed := numbered _ _ found
    have same : place = offset := by omega
    rw [present, ← found, same]
  refine ⟨⟨stores.consecutive.noSnapshot, ?_, ?_, ?_⟩, ?_, ?_⟩
  · apply (stores.consecutive.numbered.of_isPrefix ( take_prefix _ _)).append
    rw [kept]
    exact numbered
  · intro isEmpty
    exact absurd (append_eq_nil_iff.mp isEmpty).2 notEmpty
  · rw [length_append, kept]
    omega
  · dsimp only
    rw [length_append, kept]
    by_contra beyond
    have outside := aligned entries.length (by omega)
    rw [List.getElem?_eq_none le_rfl, eq_comm, List.getElem?_eq_none_iff] at outside
    omega
  · dsimp only
    rw [stores.disk]
    apply ext_getElem?
    intro place
    by_cases stable : place < log.stabled - before
    · rw [getElem?_take_of_lt stable, getElem?_take_of_lt stable]
      by_cases before : place < position
      · rw [getElem?_append_left (by omega), getElem?_take_of_lt before]
      · rw [getElem?_append_right (by omega), kept, aligned _ (by omega)]
        congr 1
        omega
    · rw [getElem?_take_eq_none (by omega), getElem?_take_eq_none (by omega)]

theorem extend
    (numbered : ∀ position entry, entries[position]? = some entry →
      entry.index = wrap (log.lastIndex + 1 + position))
    (room : log.lastIndex + entries.length + 1 < wordSize)
    (appended : log.append entries = .ok after) : Stores before disk after := by
  by_cases isEmpty : entries = []
  · subst isEmpty
    rw [← Except.ok.inj appended]
    exact stores
  · have last := stores.consecutive.lastIndex
    have following : Numbered (before + log.entries.length) entries := by
      intro position entry found
      have := (List.getElem?_eq_some_iff.mp found).1
      rw [numbered position entry found, wrap_of_lt (by omega)]
      omega
    have extended :
        after = { log with entries := log.entries.take log.entries.length ++ entries } := by
      rw [(stores.consecutive.append isEmpty following appended).2]
      split
      · rw [take_length]
      · rfl
    rw [extended]
    refine stores.replaceAfter le_rfl isEmpty following (by omega) ?_
    intro entry member beyond
    rcases mem_iff_getElem?.mp member with ⟨place, found⟩
    have index := stores.consecutive.numbered _ _ found
    have := (List.getElem?_eq_some_iff.mp found).1
    omega

theorem acceptFirst {index : Nat}
    (isEmpty : log.entries = []) (notEmpty : entries ≠ []) (beyond : log.stabled ≤ index)
    (numbered : Numbered index entries) (small : index + entries.length + 1 < wordSize) :
    Stores index disk { log with entries } := by
  refine ⟨⟨stores.consecutive.noSnapshot, numbered, fun none => absurd none notEmpty, small⟩,
    ?_, ?_⟩
  · dsimp only
    omega
  · rw [stores.disk, isEmpty, take_nil, Nat.sub_eq_zero_of_le beyond, take_zero]

theorem accept (continues : log.Continues entries) (appended : log.append entries = .ok after) :
    ∃ before, Stores before disk after := by
  rcases RaftLog.append_eq_ok appended with same | ⟨first, rest, kept, rfl, above, isPrefix, eq⟩
  · exact ⟨before, same ▸ stores⟩
  · rcases continues above with ⟨numbered, small, place, keeps⟩
    have notEmpty : first :: rest ≠ [] := cons_ne_nil first rest
    split_ifs at place with isEmpty
    · rw [isEmpty, prefix_nil] at isPrefix
      rw [eq, isPrefix, nil_append]
      exact ⟨first.index - 1, stores.acceptFirst isEmpty notEmpty (by omega) numbered (by omega)⟩
    · rw [stores.consecutive.firstIndex, stores.consecutive.lastIndex] at place
      have start : first.index - 1 = before + (first.index - 1 - before) := by omega
      rw [start] at numbered
      rw [(stores.consecutive.append notEmpty numbered appended).2, if_neg (by omega)]
      refine ⟨before, stores.replaceAfter (by omega) notEmpty numbered (by omega) ?_⟩
      intro entry member behind stable
      exact keeps entry member (by omega) stable

theorem effect {m : Message} {heard : Prop}
    (effect : LogEffect m heard log after) (noSnapshot : m.msgType ≠ .msgSnapshot)
    (room : ∀ {entries : List Entry}, entries.length = 1 ∨
      m.msgType = .msgPropose ∧ entries.length = m.entries.length →
      log.lastIndex + entries.length + 1 < wordSize)
    (continues : m.msgType = .msgAppend → heard → log.Accepts m → log.Continues m.entries) :
    ∃ before, Stores before disk after := by
  rcases effect with ⟨middle, change, commit⟩
  have changed : ∃ before, Stores before disk middle := by
    cases change with
    | keep => exact ⟨before, stores⟩
    | extend entries _ count numbered appended =>
      exact ⟨before, stores.extend numbered (room count) appended⟩
    | accept _ offered hears accepted appended =>
      exact stores.accept (continues offered hears accepted) appended
    | restore snapshot _ sent _ => exact absurd sent noSnapshot
  rcases changed with ⟨before, changed⟩
  cases commit with
  | keep => exact ⟨before, changed⟩
  | raise index _ => exact ⟨before, changed.of_committed index⟩
  | follow index _ => exact ⟨before, changed.of_committed _⟩

end Stores

/-! ## Sessions -/

variable {before count : Nat} {entries : List Entry} {entry : Entry}

theorem Numbered.index_of_mem_take
    (numbered : Numbered before entries) (member : entry ∈ entries.take count) :
    before < entry.index ∧ entry.index ≤ before + count := by
  rcases mem_iff_getElem?.mp member with ⟨place, found⟩
  have short := (List.getElem?_eq_some_iff.mp found).1
  rw [length_take] at short
  rw [getElem?_take_of_lt (by omega)] at found
  have := numbered _ _ found
  omega

theorem Numbered.index_of_mem_drop
    (numbered : Numbered before entries) (member : entry ∈ entries.drop count) :
    before + count < entry.index := by
  rcases mem_iff_getElem?.mp member with ⟨place, found⟩
  rw [getElem?_drop] at found
  have := numbered _ _ found
  omega

theorem Numbered.filter_index_le (numbered : Numbered before entries) (bound : Nat) :
    (entries.filter fun entry => entry.index ≤ bound) = entries.take (bound - before) := by
  have kept : ((entries.take (bound - before)).filter fun entry => entry.index ≤ bound) =
      entries.take (bound - before) := by
    apply filter_eq_self.mpr
    intro entry member
    have := numbered.index_of_mem_take member
    simp only [decide_eq_true_eq]
    omega
  have dropped : ((entries.drop (bound - before)).filter fun entry => entry.index ≤ bound) =
      [] := by
    apply filter_eq_nil_iff.mpr
    intro entry member
    have := numbered.index_of_mem_drop member
    simp only [decide_eq_true_eq]
    omega
  have parts := filter_append
    (entries.take (bound - before)) (entries.drop (bound - before)) (p := (·.index ≤ bound))
  rwa [take_append_drop, kept, dropped, append_nil] at parts

def NodeInput.isSnapshot : NodeInput → Bool
  | .step _ m => m.msgType == .msgSnapshot
  | _ => false

namespace Session

/-- Entries to apply are there, and an accepted message continues the log. -/
def Persistable (session : Session) : NodeInput → Prop
  | .cycle => session.log.applied < session.log.committed →
      session.log.committed < session.log.lastIndex ∧ session.log.entries ≠ []
  | .step _ m => session.log.lastIndex + 2 < wordSize ∧
      (m.msgType = .msgAppend → session.node.raft.Hears m → session.log.Accepts m →
        session.log.Continues m.entries)
  | .tick _ | .propose _ _ _ => session.log.lastIndex + 2 < wordSize

instance decidablePersistable (session : Session) (input : NodeInput) :
    Decidable (session.Persistable input) := by
  cases input <;> unfold Persistable <;> infer_instance

variable {before : Nat} {session : Session}

theorem writeOver_drop {entries : List Entry} (numbered : Numbered before entries) (count : Nat) :
    writeOver (entries.take count) (entries.drop count) = entries := by
  cases following : entries.drop count with
  | nil =>
    rw [drop_eq_nil_iff] at following
    exact take_of_length_le following
  | cons first rest =>
    have found : entries[count]? = some first := by
      rw [← head?_drop, following, head?_cons]
    have index := numbered _ _ found
    have below : ∀ entry ∈ entries.take count, entry.index < first.index := by
      intro entry member
      have := numbered.index_of_mem_take member
      omega
    rw [writeOver, filter_eq_self.mpr (by simpa using below), ← following,
      take_append_drop]

theorem entriesToApply_ok (consecutive : session.log.Consecutive before)
    (persistable : session.Persistable .cycle) :
    ∃ committed, session.node.entriesToApply = .ok committed := by
  rw [RawNode.entriesToApply]
  split_ifs with ahead
  · rcases persistable ahead with ⟨below, notEmpty⟩
    rw [consecutive.lastIndex] at below
    have small := consecutive.small
    have positive := length_pos_iff.mpr notEmpty
    have applied : session.log.applied < session.log.committed := ahead
    rw [consecutive.nextEntries (by omega) (by omega), slice_eq_ok (by omega) (by omega)]
    exact ⟨_, rfl⟩
  · exact ⟨[], rfl⟩

theorem persists_cycle (stores : Stores before session.disk session.log)
    (persistable : session.Persistable .cycle) :
    Fallible.NoPanic session.node.ready ∧ session.cycle.disk = session.cycle.log.entries ∧
      Stores before session.cycle.disk session.cycle.log := by
  have consecutive := stores.consecutive
  have within := stores.within
  rcases entriesToApply_ok consecutive persistable with ⟨committed, next⟩
  have unstable : session.log.unstableEntries =
      .ok (session.log.entries.drop (session.log.stabled - before)) := by
    rw [consecutive.unstableEntries stores.stabled_small, slice_eq_ok (by omega) le_rfl,
      take_of_length_le (by simp)]
  have cycled := cycled consecutive.snapshotToApply unstable next
  have entries : session.cycle.log.entries = session.log.entries := by rw [cycled.log]
  have written : session.cycle.disk = session.log.entries := by
    rw [cycled.disk, stores.disk, writeOver_drop consecutive.numbered]
  have stabled : session.cycle.log.stabled = before + session.log.entries.length := by
    rw [cycled.log]
    exact stores.stabled_of_drop
  refine ⟨ready_eq_ok unstable next ▸ Fallible.noPanic_ok _, written.trans entries.symm,
    ⟨?_, ?_, ?_, ?_⟩, ?_, ?_⟩
  · rw [cycled.log]
    exact consecutive.noSnapshot
  · rw [entries]
    exact consecutive.numbered
  · intro isEmpty
    rw [entries] at isEmpty
    rw [stabled, isEmpty]
    rfl
  · rw [entries]
    exact consecutive.small
  · rw [stabled, entries]
  · rw [written, entries, stabled, Nat.add_sub_cancel_left, take_length]

theorem persists_act (stores : Stores before session.disk session.log) {input : NodeInput}
    (noSnapshot : input.isSnapshot = false) (persistable : session.Persistable input) :
    ∃ before, Stores before (session.act input).disk (session.act input).log := by
  by_cases isCycle : input = .cycle
  · subst isCycle
    exact ⟨before, (persists_cycle stores persistable).2.2⟩
  · rcases session.act_effect isCycle with ⟨m, feeds, effect⟩
    rw [(act_only_node isCycle).2]
    have room : session.log.lastIndex + 2 < wordSize := by
      cases input with
      | cycle => exact absurd rfl isCycle
      | step draw m => exact persistable.1
      | tick draw => exact persistable
      | propose entryType data draw => exact persistable
    rcases feeds with ⟨isLocal, count⟩ | ⟨notLocal, draw, rfl⟩
    · refine stores.effect effect ?_ ?_ ?_
      · intro sent
        simp [sent, MessageType.isLocal] at isLocal
      · intro entries either
        omega
      · intro offered
        simp [offered, MessageType.isLocal] at isLocal
    · refine stores.effect effect (by simpa [NodeInput.isSnapshot] using noSnapshot) ?_
        persistable.2
      intro entries either
      rcases either with single | ⟨proposed, _⟩
      · omega
      · simp [proposed, MessageType.isLocal] at notLocal

theorem stores_start {node : RawNode} (consecutive : node.raft.raftLog.Consecutive before)
    (stable : node.raft.raftLog.stabled ≤ node.raft.raftLog.lastIndex) :
    Stores before (start node).disk (start node).log := by
  exact ⟨consecutive, consecutive.lastIndex ▸ stable, consecutive.numbered.filter_index_le _⟩

end Session

open Session in
/-- After a cycle the disk holds the log, if accepted messages continue what is on disk. -/
theorem disk_eq_log {start : RawNode} {before : Nat} {inputs : List NodeInput}
    (consecutive : start.raft.raftLog.Consecutive before)
    (stable : start.raft.raftLog.stabled ≤ start.raft.raftLog.lastIndex)
    (noSnapshots : ∀ input ∈ inputs, input.isSnapshot = false)
    (guarded : Guarded Session.act Persistable (Session.start start) inputs) :
    ∀ past, past ++ [.cycle] <+: inputs →
      Fallible.NoPanic ((Session.start start).run past).node.ready ∧
      ((Session.start start).run (past ++ [.cycle])).disk =
        ((Session.start start).run (past ++ [.cycle])).log.entries := by
  intro past isPrefix
  have shorter : past <+: inputs := (prefix_append past _).trans isPrefix
  have stores : ∃ before, Stores before ((Session.start start).run past).disk
      ((Session.start start).run past).log := by
    refine (guarded.of_isPrefix shorter).induction
      (motive := fun past => ∃ before, Stores before ((Session.start start).run past).disk
        ((Session.start start).run past).log) ⟨before, stores_start consecutive stable⟩ ?_
    rintro earlier input isEarlier persistable ⟨before, stores⟩
    rw [Session.run, foldl_append]
    refine persists_act stores (noSnapshots input ?_) persistable
    exact (isEarlier.trans shorter).subset (mem_append_right _ mem_cons_self)
  rcases stores with ⟨_, stores⟩
  rcases persists_cycle stores (guarded.holds isPrefix) with ⟨noPanic, same, _⟩
  rw [Session.run, Session.run, foldl_append]
  exact ⟨noPanic, same⟩

def twoEntries : Message where
  msgType := .msgAppend
  toId := 1
  fromId := 2
  term := 1
  entries := [Entry.newNormal 1 1 [], Entry.newNormal 1 2 []]

def otherSecond : Message where
  msgType := .msgAppend
  toId := 1
  fromId := 2
  term := 2
  logTerm := 1
  index := 1
  entries := [Entry.newNormal 2 2 []]

/-- The second entry comes after the first has been persisted. -/
theorem disk_eq_log_follower :
    ((Session.start (RawNode.new follower)).run
        [.step 0 firstAppend, .cycle, .step 0 otherSecond, .cycle]).disk =
      [Entry.newNormal 1 1 [], Entry.newNormal 2 2 []] :=
  (@disk_eq_log (RawNode.new follower) 0 _ (by decide) (by decide) (by decide)
    (by decide +kernel) [.step 0 firstAppend, .cycle, .step 0 otherSecond]
    prefix_rfl).2.trans (by decide +kernel)

/-- The second entry is replaced after it has been persisted, and stays on disk. -/
theorem replaced_entry_on_disk :
    ∃ start before inputs, start.raft.raftLog.Consecutive before ∧
      start.raft.raftLog.stabled ≤ start.raft.raftLog.lastIndex ∧
      (∀ input ∈ inputs, input.isSnapshot = false) ∧
      ∃ past, past ++ [.cycle] <+: inputs ∧
        ((Session.start start).run (past ++ [.cycle])).disk ≠
          ((Session.start start).run (past ++ [.cycle])).log.entries := by
  refine ⟨RawNode.new follower, 0, [.step 0 twoEntries, .cycle, .step 0 otherSecond, .cycle],
    by decide, by decide, by decide,
    [.step 0 twoEntries, .cycle, .step 0 otherSecond], prefix_rfl, by decide +kernel⟩

end AegisDB.Consensus

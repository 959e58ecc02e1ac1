import AegisDB.Foundation.Replication

/-! # Committed entries stay

What a majority has acknowledged to a leader is in the log of every later leader, so
that nodes agree on whatever they know to be committed. -/

namespace Foundation

open Function List

namespace Replication

variable {ν ε : Type}

/-! ## What is recorded -/

section Records

variable (termOf : ε → Nat) (members : Finset ν) (state : Replication ν ε)

def Matching (log : List ε) : Prop :=
  ∀ (position : Nat) (entry : ε), log[position]? = some entry →
    log.take (position + 1) <+: state.leaderLog (termOf entry)

def Acked (node : ν) (term count : Nat) : Prop :=
  ∃ most, count ≤ most ∧ state.acked node term most

def Skips (term count later : Nat) : Prop :=
  state.leaderLog later ≠ [] ∧ ¬ (state.leaderLog term).take count <+: state.base later

def Covered (term count : Nat) (log : List ε) (bound : Nat) : Prop :=
  (state.leaderLog term).take count <+: log ∨
    ∃ later, term < later ∧ later < bound ∧ state.Skips term count later

structure Voted (voter : ν) (term : Nat) (log : List ε) (bound : Nat) : Prop where
  reached : term ≤ state.term voter
  matching : state.Matching termOf log
  covered : ∀ {earlier count}, earlier < term → state.Acked voter earlier count →
    state.Covered earlier count log bound

structure Chosen (term count : Nat) : Prop where
  positive : 0 < count
  own : ∃ entry, (state.leaderLog term)[count - 1]? = some entry ∧ termOf entry = term
  majority : ∃ quorum, Majority members quorum ∧ ∀ voter ∈ quorum, state.Acked voter term count

def Backed (committed : List ε) : Prop :=
  committed = [] ∨ ∃ term count, state.Chosen termOf members term count ∧
    committed <+: (state.leaderLog term).take count

structure LogsMatch : Prop where
  vacantZero : state.leaderLog 0 = []
  logs : ∀ node, state.Matching termOf (state.log node)
  logTerms : ∀ node, ∀ entry ∈ state.log node, termOf entry ≤ state.term node
  leaderLogs : ∀ term, state.Matching termOf (state.leaderLog term)
  tenure : ∀ term, ∃ own, state.leaderLog term = state.base term ++ own ∧
    ∀ entry ∈ own, termOf entry = term
  baseTerms : ∀ term, ∀ entry ∈ state.base term, termOf entry < term

structure Invariant : Prop extends state.LogsMatch termOf where
  ballots : ∀ {voter term log}, state.ballot voter term log →
    state.Voted termOf voter term log (term + 1)
  elections : ∀ {term}, state.leaderLog term ≠ [] → ∃ quorum, Majority members quorum ∧
    ∀ voter ∈ quorum, ∃ log, UpToDate termOf (state.base term) log ∧
      state.Voted termOf voter term log term
  acks : ∀ {node term count}, state.Acked node term count →
    term ≤ state.term node ∧ count ≤ (state.leaderLog term).length ∧
      state.Covered term count (state.log node) (state.term node + 1)
  announcements : ∀ {term count}, state.announced term count →
    count ≤ (state.leaderLog term).length ∧
      state.Backed termOf members ((state.leaderLog term).take count)
  commits : ∀ node, state.commit node ≤ (state.log node).length ∧
    state.Backed termOf members ((state.log node).take (state.commit node))

theorem invariant_start : (start : Replication ν ε).Invariant termOf members where
  vacantZero := rfl
  logs := fun _ _ _ found => by simp [start] at found
  logTerms := fun _ _ member => nomatch member
  leaderLogs := fun _ _ _ found => by simp [start] at found
  tenure := fun _ => ⟨[], rfl, nofun⟩
  baseTerms := fun _ _ member => nomatch member
  ballots := fun impossible => impossible.elim
  elections := fun led => absurd rfl led
  acks := fun ⟨_, _, impossible⟩ => impossible.elim
  announcements := fun impossible => impossible.elim
  commits := fun _ => ⟨le_rfl, .inl rfl⟩

end Records

variable {termOf : ε → Nat} {members : Finset ν} {state next : Replication ν ε} {node : ν}
  {entry : ε} {log own : List ε} {term count : Nat}

/-! ## Leader completeness -/

theorem take_eq_of_isPrefix {short long : List ε} (isPrefix : short <+: long)
    (within : count ≤ short.length) : long.take count = short.take count := by
  rcases isPrefix with ⟨rest, rfl⟩
  exact take_append_of_le_length within

theorem Matching.of_isPrefix {short long : List ε} (isPrefix : short <+: long)
    (matching : state.Matching termOf long) : state.Matching termOf short := by
  intro position entry found
  have within : position < short.length := (List.getElem?_eq_some_iff.mp found).1
  rw [← take_eq_of_isPrefix isPrefix within]
  rcases isPrefix with ⟨rest, rfl⟩
  exact matching position entry (by rw [getElem?_append_left within, found])

theorem Matching.whole (matching : state.Matching termOf log)
    (notEmpty : log ≠ []) : log <+: state.leaderLog (lastTerm termOf log) := by
  have last : log[log.length - 1]? = some (log.getLast notEmpty) := by
    rw [← getLast?_eq_getElem?, getLast?_eq_some_getLast notEmpty]
  have found := matching _ _ last
  have positive : 0 < log.length := length_pos_iff.mpr notEmpty
  rw [Nat.sub_add_cancel positive, take_length] at found
  simpa [lastTerm, getLast?_eq_some_getLast notEmpty] using found

theorem Matching.take_leaderLog (matching : state.Matching termOf log)
    {position : Nat} (found : log[position]? = some entry) :
    (state.leaderLog (termOf entry)).take (position + 1) = log.take (position + 1) := by
  have within := (List.getElem?_eq_some_iff.mp found).1
  rw [take_eq_of_isPrefix (matching position entry found) (by simp; omega), take_take,
    Nat.min_self]

namespace Invariant

variable (invariant : state.Invariant termOf members)

include invariant

theorem leaderTerms (member : entry ∈ state.leaderLog term) : termOf entry ≤ term := by
  rcases invariant.tenure term with ⟨own, split, terms⟩
  rw [split] at member
  rcases mem_append.mp member with old | new
  · exact (invariant.baseTerms term entry old).le
  · exact (terms entry new).le

theorem base_isPrefix (term : Nat) :
    state.base term <+: state.leaderLog term := by
  rcases invariant.tenure term with ⟨own, split, _⟩
  exact ⟨own, split.symm⟩

theorem positive_term (led : state.leaderLog term ≠ []) : 0 < term := by
  rcases Nat.eq_zero_or_pos term with rfl | positive
  · exact absurd invariant.vacantZero led
  · exact positive

theorem le_lastTerm (matching : state.Matching termOf log) (member : entry ∈ log) :
    termOf entry ≤ lastTerm termOf log :=
  invariant.leaderTerms ((matching.whole (ne_nil_of_mem member)).subset member)

theorem carried
    {newer : List ε} (bound : count ≤ (state.leaderLog term).length)
    (found : (state.leaderLog term)[count - 1]? = some entry) (positive : 0 < count)
    (own : termOf entry = term) (matching : state.Matching termOf log)
    (newerMatching : state.Matching termOf newer)
    (has : (state.leaderLog term).take count <+: log) (upToDate : UpToDate termOf newer log)
    (between : term < lastTerm termOf newer →
      (state.leaderLog term).take count <+: state.leaderLog (lastTerm termOf newer)) :
    (state.leaderLog term).take count <+: newer := by
  have length : ((state.leaderLog term).take count).length = count := by simp [bound]
  have inPart : entry ∈ (state.leaderLog term).take count := by
    apply mem_of_getElem? (i := count - 1)
    rw [getElem?_take_of_lt (by omega), found]
  have started : term ≤ lastTerm termOf log := by
    rw [← own]
    exact invariant.le_lastTerm matching (has.subset inPart)
  have led : state.leaderLog term ≠ [] := ne_nil_of_mem (mem_of_mem_take inPart)
  have notBefore : term ≤ lastTerm termOf newer := by
    rcases upToDate with later | ⟨same, _⟩ <;> omega
  have notEmpty : newer ≠ [] := by
    rintro rfl
    have := invariant.positive_term led
    simp [lastTerm] at notBefore
    omega
  have newerLed := newerMatching.whole notEmpty
  rcases Nat.eq_or_lt_of_le notBefore with same | later
  · -- Both logs end in the term itself, so the longer one has the entries.
    rw [← same] at newerLed
    have longer : log.length ≤ newer.length := by
      rcases upToDate with later | ⟨_, longer⟩
      · omega
      · exact longer
    apply prefix_of_prefix_length_le ( take_prefix _ _) newerLed
    exact has.length_le.trans longer
  · have partLed := between later
    rcases Nat.le_total count newer.length with enough | few
    · exact prefix_of_prefix_length_le partLed newerLed (length.le.trans enough)
    · -- A shorter log would end with an entry of the earlier leader.
      have inside := prefix_of_prefix_length_le newerLed partLed (few.trans length.ge)
      have last := inside.subset (getLast_mem notEmpty)
      have bounded := invariant.leaderTerms (mem_of_mem_take last)
      simp [lastTerm, getLast?_eq_some_getLast notEmpty] at later
      omega

theorem complete [DecidableEq ν] (chosen : state.Chosen termOf members term count) {later : Nat}
    (after : term < later) (led : state.leaderLog later ≠ []) :
    (state.leaderLog term).take count <+: state.base later := by
  induction later using Nat.strong_induction_on with
  | _ later induction =>
    rcases chosen.own with ⟨entry, found, own⟩
    rcases chosen.majority with ⟨ackQuorum, ackMajority, acked⟩
    rcases invariant.elections led with ⟨voteQuorum, voteMajority, voted⟩
    rcases ackMajority.meet voteMajority with ⟨voter, inAcks, inVotes⟩
    rcases voted voter inVotes with ⟨log, upToDate, vote⟩
    have has : (state.leaderLog term).take count <+: log := by
      rcases vote.covered after (acked voter inAcks) with has | ⟨other, above, below, skips⟩
      · exact has
      · exact absurd (induction other below above skips.1) skips.2
    have baseMatching := (invariant.leaderLogs later).of_isPrefix (invariant.base_isPrefix later)
    apply invariant.carried (invariant.acks (acked voter inAcks)).2.1 found chosen.positive own
      vote.matching baseMatching has upToDate
    intro above
    have notEmpty : state.base later ≠ [] := by
      intro isEmpty
      simp [isEmpty, lastTerm] at above
    have below : lastTerm termOf (state.base later) < later := by
      have := invariant.baseTerms later _ (getLast_mem notEmpty)
      simpa [lastTerm, getLast?_eq_some_getLast notEmpty] using this
    have inLog := baseMatching.whole notEmpty
    have otherLed : state.leaderLog (lastTerm termOf (state.base later)) ≠ [] := by
      intro isEmpty
      rw [isEmpty] at inLog
      exact notEmpty (prefix_nil.mp inLog)
    exact (induction _ below above otherLed).trans (invariant.base_isPrefix _)

theorem comparable [DecidableEq ν]
    {left right : List ε} (leftBacked : state.Backed termOf members left)
    (rightBacked : state.Backed termOf members right) : left <+: right ∨ right <+: left := by
  have inOne : ∀ {first second : List ε} {firstTerm secondTerm firstCount secondCount : Nat},
      state.Chosen termOf members firstTerm firstCount →
      state.Chosen termOf members secondTerm secondCount →
      first <+: (state.leaderLog firstTerm).take firstCount →
      second <+: (state.leaderLog secondTerm).take secondCount → firstTerm ≤ secondTerm →
      first <+: second ∨ second <+: first := by
    intro first second firstTerm secondTerm firstCount secondCount firstChosen secondChosen
      firstInside secondInside ordered
    have secondLed := secondInside.trans ( take_prefix _ _)
    have firstLed : first <+: state.leaderLog secondTerm := by
      rcases Nat.eq_or_lt_of_le ordered with rfl | earlier
      · exact firstInside.trans ( take_prefix _ _)
      · rcases secondChosen.own with ⟨entry, found, _⟩
        have led := ne_nil_of_mem (mem_of_getElem? found)
        exact (firstInside.trans (invariant.complete firstChosen earlier led)).trans
          (invariant.base_isPrefix _)
    exact prefix_or_prefix_of_prefix firstLed secondLed
  rcases leftBacked with rfl | ⟨leftTerm, leftCount, leftChosen, leftInside⟩
  · exact .inl nil_prefix
  · rcases rightBacked with rfl | ⟨rightTerm, rightCount, rightChosen, rightInside⟩
    · exact .inr nil_prefix
    · rcases Nat.le_total leftTerm rightTerm with ordered | ordered
      · exact inOne leftChosen rightChosen leftInside rightInside ordered
      · exact (inOne rightChosen leftChosen rightInside leftInside ordered).symm

theorem agree [DecidableEq ν] {left right : ν}
    {position : Nat} (leftCommitted : position < state.commit left)
    (rightCommitted : position < state.commit right) :
    ∃ entry, (state.log left)[position]? = some entry ∧
      (state.log right)[position]? = some entry := by
  rcases invariant.commits left with ⟨leftBound, leftBacked⟩
  rcases invariant.commits right with ⟨rightBound, rightBacked⟩
  have same : ((state.log left).take (state.commit left))[position]? =
      ((state.log right).take (state.commit right))[position]? := by
    rcases invariant.comparable leftBacked rightBacked with ⟨rest, split⟩ | ⟨rest, split⟩
    · rw [← split, getElem?_append_left (by simp; omega)]
    · rw [← split, getElem?_append_left (by simp; omega)]
  rw [getElem?_take_of_lt leftCommitted, getElem?_take_of_lt rightCommitted] at same
  have within : position < (state.log left).length := by omega
  exact ⟨(state.log left)[position], List.getElem?_eq_getElem within,
    same ▸ List.getElem?_eq_getElem within⟩

end Invariant

/-! ## Records only grow -/

section Growth

structure Remembers (state next : Replication ν ε) : Prop where
  term : ∀ node, state.term node ≤ next.term node
  leaderLog : ∀ term, state.leaderLog term <+: next.leaderLog term
  ballot : ∀ {voter term log}, state.ballot voter term log → next.ballot voter term log
  acked : ∀ {node term count}, state.acked node term count → next.acked node term count
  announced : ∀ {term count}, state.announced term count → next.announced term count

theorem Remembers.refl (state : Replication ν ε) : Remembers state state :=
  ⟨fun _ => le_rfl, fun _ => prefix_rfl, id, id, id⟩

theorem Remembers.trans {middle : Replication ν ε} (first : Remembers state middle)
    (second : Remembers middle next) : Remembers state next where
  term := fun node => (first.term node).trans (second.term node)
  leaderLog := fun term => (first.leaderLog term).trans (second.leaderLog term)
  ballot := second.ballot ∘ first.ballot
  acked := second.acked ∘ first.acked
  announced := second.announced ∘ first.announced

structure Grows (state next : Replication ν ε) : Prop extends Remembers state next where
  base : ∀ term, state.leaderLog term ≠ [] → next.base term = state.base term
  newAcks : ∀ {node term count}, next.acked node term count →
    state.acked node term count ∨ term = state.term node

variable (grows : Grows state next)

include grows

theorem Acked.grow (acked : state.Acked node term count) : next.Acked node term count := by
  rcases acked with ⟨most, bound, recorded⟩
  exact ⟨most, bound, grows.acked recorded⟩

theorem Acked.before (acked : next.Acked node term count) (earlier : term < state.term node) :
    state.Acked node term count := by
  rcases acked with ⟨most, bound, recorded⟩
  rcases grows.newAcks recorded with old | now
  · exact ⟨most, bound, old⟩
  · omega

theorem Matching.grow (matching : state.Matching termOf log) : next.Matching termOf log :=
  fun position entry found => (matching position entry found).trans (grows.leaderLog _)

theorem Grows.take (bound : count ≤ (state.leaderLog term).length) :
    (next.leaderLog term).take count = (state.leaderLog term).take count :=
  take_eq_of_isPrefix (grows.leaderLog term) bound

theorem Grows.led (led : state.leaderLog term ≠ []) :
    next.leaderLog term ≠ [] := by
  intro isEmpty
  have inside := grows.leaderLog term
  rw [isEmpty] at inside
  exact led (prefix_nil.mp inside)

theorem Covered.grow {bound further : Nat}
    (within : count ≤ (state.leaderLog term).length) (wider : bound ≤ further)
    (covered : state.Covered term count log bound) : next.Covered term count log further := by
  rw [Covered, grows.take within]
  refine covered.imp_right ?_
  rintro ⟨later, above, below, led, skipped⟩
  refine ⟨later, above, by omega, grows.led led, ?_⟩
  rw [grows.take within, grows.base later led]
  exact skipped

omit grows

theorem Covered.longer {bound : Nat} {long : List ε} (isPrefix : log <+: long)
    (covered : state.Covered term count log bound) : state.Covered term count long bound :=
  covered.imp_left fun has => has.trans isPrefix

theorem Chosen.grow (grows : Grows state next) (chosen : state.Chosen termOf members term count) :
    next.Chosen termOf members term count where
  positive := chosen.positive
  own := by
    rcases chosen.own with ⟨entry, found, own⟩
    rcases grows.leaderLog term with ⟨rest, split⟩
    refine ⟨entry, ?_, own⟩
    rw [← split, getElem?_append_left (List.getElem?_eq_some_iff.mp found).1, found]
  majority := by
    rcases chosen.majority with ⟨quorum, majority, acked⟩
    exact ⟨quorum, majority, fun voter inside => (acked voter inside).grow grows⟩

theorem Chosen.within (chosen : state.Chosen termOf members term count) :
    count ≤ (state.leaderLog term).length := by
  rcases chosen.own with ⟨entry, found, _⟩
  have := (List.getElem?_eq_some_iff.mp found).1
  omega

theorem Backed.grow (grows : Grows state next) {committed : List ε}
    (backed : state.Backed termOf members committed) : next.Backed termOf members committed := by
  refine backed.imp_right ?_
  rintro ⟨term, count, chosen, inside⟩
  refine ⟨term, count, chosen.grow grows, ?_⟩
  rw [grows.take chosen.within]
  exact inside

theorem Backed.of_isPrefix {short committed : List ε} (isPrefix : short <+: committed)
    (backed : state.Backed termOf members committed) : state.Backed termOf members short := by
  rcases backed with rfl | ⟨term, count, chosen, inside⟩
  · exact .inl (prefix_nil.mp isPrefix)
  · exact .inr ⟨term, count, chosen, isPrefix.trans inside⟩

theorem Voted.grow (grows : Grows state next) (invariant : state.Invariant termOf members)
    {voter : ν} {bound : Nat} (voted : state.Voted termOf voter term log bound) :
    next.Voted termOf voter term log bound where
  reached := voted.reached.trans (grows.term voter)
  matching := voted.matching.grow grows
  covered := by
    intro earlier count before acked
    have old := acked.before grows (before.trans_le voted.reached)
    exact (voted.covered before old).grow grows (invariant.acks old).2.1 le_rfl

end Growth

namespace Invariant

variable (invariant : state.Invariant termOf members)

include invariant

theorem grow (grows : Grows state next) (logsMatch : next.LogsMatch termOf)
    (ballots : ∀ {voter term log}, next.ballot voter term log →
      state.ballot voter term log ∨ next.Voted termOf voter term log (term + 1))
    (elections : ∀ {term}, next.leaderLog term ≠ [] → state.leaderLog term ≠ [] ∨
      ∃ quorum, Majority members quorum ∧ ∀ voter ∈ quorum, ∃ log,
        UpToDate termOf (next.base term) log ∧ next.Voted termOf voter term log term)
    (acks : ∀ {node term count}, next.Acked node term count → state.Acked node term count ∨
      term ≤ next.term node ∧ (next.leaderLog term).take count <+: next.log node ∧
        count ≤ (next.leaderLog term).length)
    (covered : ∀ {node term count}, state.Acked node term count →
      next.Covered term count (next.log node) (next.term node + 1))
    (announcements : ∀ {term count}, next.announced term count → state.announced term count ∨
      count ≤ (next.leaderLog term).length ∧
        next.Backed termOf members ((next.leaderLog term).take count))
    (commits : ∀ node, next.commit node ≤ (next.log node).length ∧
      next.Backed termOf members ((next.log node).take (next.commit node))) :
    next.Invariant termOf members where
  toLogsMatch := logsMatch
  ballots := by
    intro voter term log voted
    rcases ballots voted with old | new
    · exact (invariant.ballots old).grow grows invariant
    · exact new
  elections := by
    intro term led
    rcases elections led with old | new
    · rcases invariant.elections old with ⟨quorum, majority, support⟩
      refine ⟨quorum, majority, fun voter inside => ?_⟩
      rcases support voter inside with ⟨log, upToDate, voted⟩
      rw [grows.base term old]
      exact ⟨log, upToDate, voted.grow grows invariant⟩
    · exact new
  acks := by
    intro node term count acked
    rcases acks acked with old | ⟨reached, has, within⟩
    · rcases invariant.acks old with ⟨reached, within, _⟩
      exact ⟨reached.trans (grows.term node), within.trans (grows.leaderLog term).length_le,
        covered old⟩
    · exact ⟨reached, within, .inl has⟩
  announcements := by
    intro term count announced
    rcases announcements announced with old | new
    · rcases invariant.announcements old with ⟨within, backed⟩
      rw [grows.take within]
      exact ⟨within.trans (grows.leaderLog term).length_le, backed.grow grows⟩
    · exact new
  commits := commits

theorem covered_of_longer (grows : Grows state next) (longer : state.log node <+: next.log node)
    (acked : state.Acked node term count) :
    next.Covered term count (next.log node) (next.term node + 1) := by
  rcases invariant.acks acked with ⟨_, within, covered⟩
  exact (covered.grow grows within (Nat.succ_le_succ (grows.term node))).longer longer

theorem commits_of_longer (grows : Grows state next) (longer : state.log node <+: next.log node)
    (same : next.commit node = state.commit node) :
    next.commit node ≤ (next.log node).length ∧
      next.Backed termOf members ((next.log node).take (next.commit node)) := by
  rcases invariant.commits node with ⟨within, backed⟩
  rw [same, take_eq_of_isPrefix longer within]
  exact ⟨within.trans longer.length_le, backed.grow grows⟩

theorem matching_append (grows : Grows state next)
    (terms : ∀ entry ∈ own, termOf entry = state.term node)
    (led : next.leaderLog (state.term node) = state.log node ++ own) :
    next.Matching termOf (state.log node ++ own) := by
  intro position entry found
  by_cases old : position < (state.log node).length
  · rw [getElem?_append_left old] at found
    rw [take_append_of_le_length old]
    exact (invariant.logs node).grow grows position entry found
  · rw [getElem?_append_right (not_lt.mp old)] at found
    rw [terms entry (mem_of_getElem? found), led]
    exact take_prefix _ _

theorem vacant_terms (vacant : state.leaderLog (state.term node) = [])
    (member : entry ∈ state.log node) : termOf entry < state.term node := by
  apply lt_of_le_of_ne (invariant.logTerms node entry member)
  intro same
  rcases getElem?_of_mem member with ⟨position, found⟩
  have inside := invariant.logs node position entry found
  rw [same, vacant] at inside
  have isEmpty := prefix_nil.mp inside
  have within := (List.getElem?_eq_some_iff.mp found).1
  simp only [take_eq_nil_iff, Nat.add_eq_zero_iff, one_ne_zero, and_false, false_or] at isEmpty
  simp [isEmpty] at within

theorem take_eq_of_matched
    {before : List ε} (offered : before <+: state.leaderLog term)
    (within : before.length ≤ (state.log node).length)
    (matched : ∀ last ∈ before.getLast?, ∃ entry ∈ (state.log node)[before.length - 1]?,
      termOf entry = termOf last) : (state.log node).take before.length = before := by
  rcases eq_nil_or_concat' before with rfl | ⟨front, last, rfl⟩
  · simp
  · rcases matched last (by simp) with ⟨entry, found, same⟩
    rw [length_append, length_singleton] at within found ⊢
    have leaderPart : front ++ [last] <+: state.leaderLog (termOf last) := by
      have part := (invariant.leaderLogs term).of_isPrefix offered front.length last (by simp)
      rwa [take_of_length_le (by simp)] at part
    have nodePart := invariant.logs node _ entry found
    rw [same, Nat.add_sub_cancel] at nodePart
    apply (prefix_of_prefix_length_le nodePart leaderPart _).eq_of_length
    · simp [within]
    · simp [within]

theorem covered_accept (offered : log <+: state.leaderLog (state.term node))
    (cut : log.length < (state.log node).length → Conflict termOf log (state.log node))
    (acked : state.Acked node term count) :
    state.Covered term count log (state.term node + 1) := by
  rcases invariant.acks acked with ⟨reached, within, covered⟩
  rcases covered with has | skipped
  · have inLeader : (state.leaderLog term).take count <+: state.leaderLog (state.term node) ∨
        term < state.term node ∧ state.Skips term count (state.term node) := by
      rcases Nat.eq_or_lt_of_le reached with same | earlier
      · rw [same]
        exact .inl ( take_prefix _ _)
      · by_cases inBase : (state.leaderLog term).take count <+: state.base (state.term node)
        · exact .inl (inBase.trans (invariant.base_isPrefix _))
        · by_cases led : state.leaderLog (state.term node) = []
          · -- Without a leader nothing was offered, and the log of the node was empty.
            rw [led] at offered
            rw [prefix_nil.mp offered] at cut
            have isEmpty : state.log node = [] := by
              by_contra notEmpty
              rcases cut (length_pos_iff.mpr notEmpty) with ⟨position, first, second, found, _⟩
              simp at found
            rw [isEmpty, prefix_nil] at has
            rw [has]
            exact .inl nil_prefix
          · exact .inr ⟨earlier, led, inBase⟩
    rcases inLeader with inLeader | ⟨earlier, skips⟩
    · left
      apply prefix_of_prefix_length_le inLeader offered
      by_contra tooLong
      rw [not_le] at tooLong
      rcases cut (tooLong.trans_le has.length_le) with
        ⟨position, first, second, inLog, inOld, differ⟩
      have inside := (List.getElem?_eq_some_iff.mp inLog).1
      rcases has with ⟨oldRest, oldSplit⟩
      rcases inLeader with ⟨leaderRest, leaderSplit⟩
      rcases offered with ⟨rest, split⟩
      rw [← oldSplit, getElem?_append_left (by omega)] at inOld
      have inTaken : ((state.leaderLog term).take count)[position]? = some first := by
        have inLeader : ((state.leaderLog term).take count ++ leaderRest)[position]? =
            some first := by
          rw [leaderSplit, ← split, getElem?_append_left inside, inLog]
        rwa [getElem?_append_left (by omega)] at inLeader
      rw [inTaken] at inOld
      cases inOld
      exact differ rfl
    · exact .inr ⟨_, earlier, Nat.lt_succ_self _, skips⟩
  · exact .inr skipped

end Invariant

/-! ## Steps -/

section Steps

variable [DecidableEq ν]

theorem leaderLog_isPrefix_leadWith
    (longer : state.leaderLog (state.term node) <+: log) (term : Nat) :
    state.leaderLog term <+: (state.leadWith node log).leaderLog term := by
  rw [leadWith]
  by_cases same : term = state.term node
  · subst same
    simpa using longer
  · simp [same]

theorem Step.grows (step : Step termOf members state next) : Grows state next := by
  cases step with
  | advance node term newer =>
    refine ⟨⟨?_, fun _ => prefix_rfl, id, id, id⟩, fun _ _ => rfl, .inl⟩
    intro other
    by_cases same : other = node
    · subst same
      simpa using newer
    · simp [same]
  | vote =>
    exact ⟨⟨fun _ => le_rfl, fun _ => prefix_rfl, .inl, id, id⟩, fun _ _ => rfl, .inl⟩
  | win node entry quorum elects =>
    refine ⟨⟨fun _ => le_rfl, leaderLog_isPrefix_leadWith ?_, id, id, id⟩, ?_, .inl⟩
    · rw [elects.vacant]
      exact nil_prefix
    · intro term led
      have different : term ≠ state.term node := by
        rintro rfl
        exact led elects.vacant
      exact update_of_ne different _ _
  | extend node entries leads led own =>
    refine ⟨⟨fun _ => le_rfl, leaderLog_isPrefix_leadWith ?_, id, id, id⟩, fun _ _ => rfl, .inl⟩
    rw [leads]
    exact prefix_append _ _
  | accept =>
    exact ⟨⟨fun _ => le_rfl, fun _ => prefix_rfl, id, id, id⟩, fun _ _ => rfl, .inl⟩
  | acknowledge node count within held =>
    refine ⟨⟨fun _ => le_rfl, fun _ => prefix_rfl, id, .inl, id⟩, fun _ _ => rfl, ?_⟩
    rintro other term most (old | ⟨rfl, rfl, _⟩)
    · exact .inl old
    · exact .inr rfl
  | announce =>
    exact ⟨⟨fun _ => le_rfl, fun _ => prefix_rfl, id, id, .inl⟩, fun _ _ => rfl, .inl⟩
  | choose =>
    exact ⟨⟨fun _ => le_rfl, fun _ => prefix_rfl, id, id, id⟩, fun _ _ => rfl, .inl⟩
  | learn =>
    exact ⟨⟨fun _ => le_rfl, fun _ => prefix_rfl, id, id, id⟩, fun _ _ => rfl, .inl⟩

namespace Invariant

variable (invariant : state.Invariant termOf members)

include invariant

theorem advance (newer : state.term node ≤ term) :
    Invariant termOf members { state with term := update state.term node term } := by
  have grows := (Step.advance node term newer : Step termOf members state _).grows
  refine invariant.grow grows { invariant with logTerms := ?_ } .inl .inl .inl
    (invariant.covered_of_longer grows prefix_rfl) .inl
    fun other => invariant.commits_of_longer grows prefix_rfl rfl
  intro other entry member
  exact (invariant.logTerms other entry member).trans (grows.term other)

theorem vote : (state.castBallot node).Invariant termOf members := by
  have grows := (Step.vote node : Step termOf members state _).grows
  refine invariant.grow grows { invariant with } ?_ .inl .inl
    (invariant.covered_of_longer grows prefix_rfl) .inl
    fun other => invariant.commits_of_longer grows prefix_rfl rfl
  rintro voter term log (old | ⟨rfl, rfl, rfl⟩)
  · exact .inl old
  · exact .inr ⟨le_rfl, invariant.logs voter, fun _ acked => (invariant.acks acked).2.2⟩

theorem acknowledge (within : count ≤ (state.log node).length)
    (held : (state.log node).take count <+: state.leaderLog (state.term node)) :
    (state.recordAck node count).Invariant termOf members := by
  have grows := (Step.acknowledge node count within held : Step termOf members state _).grows
  refine invariant.grow grows { invariant with } .inl .inl ?_
    (invariant.covered_of_longer grows prefix_rfl) .inl
    fun other => invariant.commits_of_longer grows prefix_rfl rfl
  rintro other term fewer ⟨most, bound, old | ⟨rfl, rfl, rfl⟩⟩
  · exact .inl ⟨most, bound, old⟩
  · have length : ((state.log other).take most).length = most := by simp [within]
    have agreed := take_eq_of_isPrefix held (bound.trans length.ge)
    refine .inr ⟨le_rfl, ?_, bound.trans (length.symm.le.trans held.length_le)⟩
    dsimp only [recordAck]
    rw [agreed]
    exact ( take_prefix _ _).trans ( take_prefix _ _)

theorem announce (leads : state.leaderLog (state.term node) = state.log node) :
    (state.recordAnnounced node).Invariant termOf members := by
  have grows := (Step.announce node leads : Step termOf members state _).grows
  refine invariant.grow grows { invariant with } .inl .inl .inl
    (invariant.covered_of_longer grows prefix_rfl) ?_
    fun other => invariant.commits_of_longer grows prefix_rfl rfl
  rintro term count (old | ⟨rfl, rfl⟩)
  · exact .inl old
  · dsimp only [recordAnnounced]
    rw [leads]
    exact .inr ⟨(invariant.commits node).1, (invariant.commits node).2.grow grows⟩

theorem setCommit
    (grows : Grows state (state.setCommit node count)) (within : count ≤ (state.log node).length)
    (backed : state.Backed termOf members ((state.log node).take count)) :
    (state.setCommit node count).Invariant termOf members := by
  refine invariant.grow grows { invariant with } .inl .inl .inl
    (invariant.covered_of_longer grows prefix_rfl) .inl ?_
  intro other
  by_cases same : other = node
  · subst same
    simp only [Replication.setCommit, update_self]
    exact ⟨within, backed.grow grows⟩
  · exact invariant.commits_of_longer grows prefix_rfl (update_of_ne same _ _)

theorem lead {base : Nat → List ε} (positive : 0 < state.term node)
    (isNext : next = { state.leadWith node (state.log node ++ own) with base })
    (grows : Grows state next) (terms : ∀ entry ∈ own, termOf entry = state.term node)
    (tenure : ∃ rest, state.log node ++ own = base (state.term node) ++ rest ∧
      ∀ entry ∈ rest, termOf entry = state.term node)
    (baseTerms : ∀ entry ∈ base (state.term node), termOf entry < state.term node)
    (otherBase : ∀ term, term ≠ state.term node → base term = state.base term)
    (election : state.leaderLog (state.term node) ≠ [] ∨
      ∃ quorum, Majority members quorum ∧ ∀ voter ∈ quorum, ∃ log,
        UpToDate termOf (base (state.term node)) log ∧
        state.Voted termOf voter (state.term node) log (state.term node)) :
    next.Invariant termOf members := by
  have led : next.leaderLog (state.term node) = state.log node ++ own := by
    rw [isNext]
    exact update_self _ _ _
  have otherLed : ∀ term, term ≠ state.term node → next.leaderLog term = state.leaderLog term := by
    intro term different
    rw [isNext]
    exact update_of_ne different _ _
  have ownLog : next.log node = state.log node ++ own := by
    rw [isNext]
    exact update_self _ _ _
  have otherLog : ∀ other, other ≠ node → next.log other = state.log other := by
    intro other different
    rw [isNext]
    exact update_of_ne different _ _
  have longer : ∀ other, state.log other <+: next.log other := by
    intro other
    by_cases same : other = node
    · rw [same, ownLog]
      exact prefix_append _ _
    · rw [otherLog other same]
  subst isNext
  refine invariant.grow grows ⟨?_, ?_, ?_, ?_, ?_, ?_⟩ .inl ?_ .inl
    (fun {other} => invariant.covered_of_longer grows (longer other)) .inl
    fun other => invariant.commits_of_longer grows (longer other) rfl
  · rw [otherLed 0 positive.ne]
    exact invariant.vacantZero
  · intro other
    by_cases same : other = node
    · rw [same, ownLog]
      exact invariant.matching_append grows terms led
    · rw [otherLog other same]
      exact (invariant.logs other).grow grows
  · intro other entry member
    by_cases same : other = node
    · rw [same, ownLog] at member
      rw [same]
      rcases mem_append.mp member with old | new
      · exact invariant.logTerms node entry old
      · exact (terms entry new).le
    · rw [otherLog other same] at member
      exact invariant.logTerms other entry member
  · intro term
    by_cases same : term = state.term node
    · rw [same, led]
      exact invariant.matching_append grows terms led
    · rw [otherLed term same]
      exact (invariant.leaderLogs term).grow grows
  · intro term
    by_cases same : term = state.term node
    · rw [same, led]
      exact tenure
    · rw [otherLed term same]
      dsimp only
      rw [otherBase term same]
      exact invariant.tenure term
  · intro term
    by_cases same : term = state.term node
    · rw [same]
      exact baseTerms
    · dsimp only
      rw [otherBase term same]
      exact invariant.baseTerms term
  · intro term newLed
    by_cases same : term = state.term node
    · subst same
      refine election.imp_right ?_
      rintro ⟨quorum, majority, support⟩
      refine ⟨quorum, majority, fun voter inside => ?_⟩
      rcases support voter inside with ⟨log, upToDate, voted⟩
      exact ⟨log, upToDate, voted.grow grows invariant⟩
    · rw [otherLed term same] at newLed
      exact .inl newLed

theorem win {quorum : Finset ν} (elects : state.Elects termOf members node entry quorum) :
    Invariant termOf members
      { state.leadWith node (state.log node ++ [entry]) with
        base := update state.base (state.term node) (state.log node) } := by
  have grows := (Step.win node entry quorum elects : Step termOf members state _).grows
  have terms : ∀ other ∈ [entry], termOf other = state.term node := by simp [elects.own]
  apply invariant.lead elects.positive rfl grows terms
  · rw [update_self]
    exact ⟨[entry], rfl, terms⟩
  · rw [update_self]
    exact fun other member => invariant.vacant_terms elects.vacant member
  · exact fun term different => update_of_ne different _ _
  · rw [update_self]
    refine .inr ⟨quorum, elects.majority, fun voter inside => ?_⟩
    rcases elects.support voter inside with ⟨log, voted, upToDate⟩
    rcases invariant.ballots voted with ⟨reached, matching, covered⟩
    refine ⟨log, upToDate, reached, matching, ?_⟩
    intro earlier count before acked
    refine (covered before acked).imp_right ?_
    rintro ⟨later, above, below, skips⟩
    -- The term itself has no leader yet, so it is not the one in between.
    have different : later ≠ state.term node := by
      rintro rfl
      exact skips.1 elects.vacant
    exact ⟨later, above, by omega, skips⟩

theorem extend {entries : List ε} (leads : state.leaderLog (state.term node) = state.log node)
    (led : state.log node ≠ []) (own : ∀ entry ∈ entries, termOf entry = state.term node) :
    (state.leadWith node (state.log node ++ entries)).Invariant termOf members := by
  have grows := (Step.extend node entries leads led own : Step termOf members state _).grows
  have positive : 0 < state.term node := invariant.positive_term (leads ▸ led)
  apply invariant.lead positive rfl grows own
  · rcases invariant.tenure (state.term node) with ⟨rest, split, terms⟩
    refine ⟨rest ++ entries, ?_, ?_⟩
    · rw [← leads, split, append_assoc]
      rfl
    · intro entry member
      rcases mem_append.mp member with old | new
      · exact terms entry old
      · exact own entry new
  · exact invariant.baseTerms _
  · exact fun _ _ => rfl
  · exact .inl (leads ▸ led)

theorem accept {before entries : List ε} (accepts : state.Accepts termOf node before entries) :
    (state.setLog node ((state.log node).take before.length ++ entries)).Invariant
      termOf members := by
  have grows := (Step.accept node before entries accepts : Step termOf members state _).grows
  rcases accepts with ⟨offered, within, matched, kept, cut⟩
  have agreed := invariant.take_eq_of_matched ((prefix_append _ _).trans offered) within
    matched
  have ownLog : (state.setLog node ((state.log node).take before.length ++ entries)).log node =
      before ++ entries := by
    simp [Replication.setLog, agreed]
  have otherLog : ∀ other, other ≠ node →
      (state.setLog node ((state.log node).take before.length ++ entries)).log other =
        state.log other := fun other different => update_of_ne different _ _
  refine invariant.grow grows { invariant with logs := ?_, logTerms := ?_ } .inl .inl .inl ?_
    .inl ?_
  · intro other
    by_cases same : other = node
    · rw [same, ownLog]
      exact ((invariant.leaderLogs _).of_isPrefix offered).grow grows
    · rw [otherLog other same]
      exact (invariant.logs other).grow grows
  · intro other entry member
    by_cases same : other = node
    · rw [same, ownLog] at member
      rw [same]
      exact invariant.leaderTerms (offered.subset member)
    · rw [otherLog other same] at member
      exact invariant.logTerms other entry member
  · intro other term count acked
    by_cases same : other = node
    · subst same
      rw [ownLog]
      exact invariant.covered_accept offered (by simpa using cut) acked
    · apply invariant.covered_of_longer grows _ acked
      rw [otherLog other same]
  · intro other
    by_cases same : other = node
    · subst same
      rw [ownLog]
      have sameCommitted : (before ++ entries).take (state.commit other) =
          (state.log other).take (state.commit other) := by
        rw [take_append_of_le_length kept, ← agreed, take_take, min_eq_left kept]
      refine ⟨kept.trans (by simp), ?_⟩
      change Backed _ _ _ ((before ++ entries).take (state.commit other))
      rw [sameCommitted]
      exact (invariant.commits other).2.grow grows
    · apply invariant.commits_of_longer grows _ rfl
      rw [otherLog other same]

theorem choose {quorum : Finset ν}
    (chooses : state.Chooses termOf members node count entry quorum) :
    (state.setCommit node count).Invariant termOf members := by
  have grows := (Step.choose node count entry quorum chooses : Step termOf members state _).grows
  rcases chooses with ⟨leads, positive, found, own, majority, support⟩
  have chosen : state.Chosen termOf members (state.term node) count :=
    ⟨positive, ⟨entry, leads ▸ found, own⟩, quorum, majority, support⟩
  apply invariant.setCommit grows
  · rw [← leads]
    exact chosen.within
  · rw [← leads]
    exact .inr ⟨_, count, chosen, prefix_rfl⟩

theorem learn {told : Nat} (learns : state.Learns node count told) :
    (state.setCommit node count).Invariant termOf members := by
  have grows := (Step.learn node count told learns : Step termOf members state _).grows
  rcases learns with ⟨announced, bounded, within, held⟩
  apply invariant.setCommit grows within
  rcases invariant.announcements announced with ⟨toldWithin, backed⟩
  apply backed.of_isPrefix
  apply prefix_of_prefix_length_le held ( take_prefix _ _)
  simp only [length_take]
  omega

end Invariant

theorem Step.invariant (step : Step termOf members state next)
    (invariant : state.Invariant termOf members) : next.Invariant termOf members := by
  cases step with
  | advance node term newer => exact invariant.advance newer
  | vote node => exact invariant.vote
  | win node entry quorum elects => exact invariant.win elects
  | extend node entries leads led own => exact invariant.extend leads led own
  | accept node before entries accepts => exact invariant.accept accepts
  | acknowledge node count within held => exact invariant.acknowledge within held
  | announce node leads => exact invariant.announce leads
  | choose node count entry quorum chooses => exact invariant.choose chooses
  | learn node count told learns => exact invariant.learn learns

/-! ## Runs -/

theorem remembers_of_steps (steps : Relation.ReflTransGen (Step termOf members) state next) :
    Remembers state next := by
  induction steps with
  | refl => exact .refl state
  | tail _ step induction => exact induction.trans step.grows.toRemembers

theorem invariant_of_steps (steps : Relation.ReflTransGen (Step termOf members) state next)
    (invariant : state.Invariant termOf members) : next.Invariant termOf members := by
  induction steps with
  | refl => exact invariant
  | tail _ step induction => exact step.invariant induction

end Steps

end Replication

end Foundation

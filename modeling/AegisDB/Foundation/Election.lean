import Mathlib.Data.Finset.Card
import Mathlib.Logic.Function.Basic
import Mathlib.Logic.Relation

/-! # Elections by majority

Nodes move through numbered terms. In a term a node follows, stands as a candidate or
leads; a follower grants its vote to at most one candidate of its term, and a candidate
leads once a majority is on its side. What was granted and who led is remembered, so
that facts about past terms can be stated. -/

namespace Foundation

open Function

/-! ## Majorities -/

def Majority (members quorum : Finset ν) : Prop :=
  quorum ⊆ members ∧ members.card < 2 * quorum.card

theorem Majority.meet [DecidableEq ν] {members left right : Finset ν}
    (leftMajority : Majority members left) (rightMajority : Majority members right) :
    ∃ node, node ∈ left ∧ node ∈ right := by
  have overlap : (left ∩ right).Nonempty := by
    apply Finset.inter_nonempty_of_card_lt_card_add_card leftMajority.1 rightMajority.1
    have := leftMajority.2
    have := rightMajority.2
    omega
  rcases overlap with ⟨node, member⟩
  exact ⟨node, Finset.mem_inter.mp member⟩

/-! ## The protocol -/

inductive Role where
  | follower
  | candidate
  | leader
deriving DecidableEq, Repr

structure Election (ν : Type) where
  term : ν → Nat
  role : ν → Role
  granted : ν → ν → Nat → Prop
  led : ν → Nat → Prop

namespace Election

variable {ν : Type} [DecidableEq ν]

def start : Election ν where
  term := fun _ => 0
  role := fun _ => .follower
  granted := fun _ _ _ => False
  led := fun _ _ => False

def become (election : Election ν) (node : ν) (term : Nat) (role : Role) : Election ν :=
  { election with
    term := update election.term node term
    role := update election.role node role }

def grant (election : Election ν) (voter candidate : ν) : Election ν :=
  { election with
    granted := fun left right term => election.granted left right term ∨
      left = voter ∧ right = candidate ∧ term = election.term voter }

def lead (election : Election ν) (node : ν) : Election ν :=
  { election.become node (election.term node) .leader with
    led := fun other term => election.led other term ∨
      other = node ∧ term = election.term node }

inductive Step (members : Finset ν) : Election ν → Election ν → Prop where
  | adopt (node : ν) (term : Nat) (newer : election.term node < term) :
      Step members election (election.become node term .follower)
  | concede (node : ν) (candidate : election.role node = .candidate) :
      Step members election (election.become node (election.term node) .follower)
  | stand (node : ν) (term : Nat) (newer : election.term node < term) :
      Step members election (election.become node term .candidate)
  | grant (voter candidate : ν) (member : voter ∈ members)
      (follower : election.role voter = .follower)
      (once : ∀ other, election.granted voter other (election.term voter) → other = candidate) :
      Step members election (election.grant voter candidate)
  | win (node : ν) (quorum : Finset ν) (candidate : election.role node = .candidate)
      (majority : Majority members quorum)
      (support : ∀ voter ∈ quorum,
        voter = node ∨ election.granted voter node (election.term node)) :
      Step members election (election.lead node)

/-! ## The invariant -/

structure Invariant (members : Finset ν) (election : Election ν) : Prop where
  grantedMember : ∀ {voter candidate term}, election.granted voter candidate term →
    voter ∈ members
  grantedTerm : ∀ {voter candidate term}, election.granted voter candidate term →
    term ≤ election.term voter
  grantedFollower : ∀ {voter candidate},
    election.granted voter candidate (election.term voter) → election.role voter = .follower
  grantedOnce : ∀ {voter left right term}, election.granted voter left term →
    election.granted voter right term → left = right
  ledTerm : ∀ {node term}, election.led node term → term ≤ election.term node
  ledLeader : ∀ {node}, election.led node (election.term node) → election.role node = .leader
  ledOnly : ∀ {node candidate term}, election.led node term →
    ¬ election.granted node candidate term
  ledMajority : ∀ {node term}, election.led node term → ∃ quorum, Majority members quorum ∧
    ∀ voter ∈ quorum, voter = node ∨ election.granted voter node term

omit [DecidableEq ν] in
theorem invariant_start (members : Finset ν) : Invariant members (start : Election ν) where
  grantedMember := False.elim
  grantedTerm := False.elim
  grantedFollower := False.elim
  grantedOnce := fun impossible => impossible.elim
  ledTerm := False.elim
  ledLeader := False.elim
  ledOnly := fun impossible => impossible.elim
  ledMajority := False.elim

theorem Invariant.leader_unique {members : Finset ν} {election : Election ν}
    (invariant : Invariant members election) {left right : ν} {term : Nat}
    (leftLed : election.led left term) (rightLed : election.led right term) : left = right := by
  rcases invariant.ledMajority leftLed with ⟨leftQuorum, leftMajority, leftSupport⟩
  rcases invariant.ledMajority rightLed with ⟨rightQuorum, rightMajority, rightSupport⟩
  rcases leftMajority.meet rightMajority with ⟨voter, inLeft, inRight⟩
  rcases leftSupport voter inLeft with rfl | grantedLeft
  · rcases rightSupport voter inRight with rfl | grantedRight
    · rfl
    · exact absurd grantedRight (invariant.ledOnly leftLed)
  · rcases rightSupport voter inRight with rfl | grantedRight
    · exact absurd grantedLeft (invariant.ledOnly rightLed)
    · exact invariant.grantedOnce grantedLeft grantedRight

section Preservation

variable {members : Finset ν} {election : Election ν}

variable {node : ν} {term : Nat} {role : Role}

theorem Invariant.become (invariant : Invariant members election)
    (forward : election.term node ≤ term)
    (follows : ∀ candidate, election.granted node candidate term → role = .follower)
    (leads : election.led node term → role = .leader) :
    Invariant members (election.become node term role) where
  grantedMember := invariant.grantedMember
  grantedTerm := by
    intro voter candidate other granted
    have bound := invariant.grantedTerm granted
    by_cases same : voter = node
    · subst same
      simp only [Election.become, update_self]
      omega
    · simpa [Election.become, same] using bound
  grantedFollower := by
    intro voter candidate granted
    by_cases same : voter = node
    · subst same
      simp only [Election.become, update_self] at granted ⊢
      exact follows candidate granted
    · simp only [Election.become, update_of_ne same] at granted ⊢
      exact invariant.grantedFollower granted
  grantedOnce := invariant.grantedOnce
  ledTerm := by
    intro leader other led
    have bound := invariant.ledTerm led
    by_cases same : leader = node
    · subst same
      simp only [Election.become, update_self]
      omega
    · simpa [Election.become, same] using bound
  ledLeader := by
    intro leader led
    by_cases same : leader = node
    · subst same
      simp only [Election.become, update_self] at led ⊢
      exact leads led
    · simp only [Election.become, update_of_ne same] at led ⊢
      exact invariant.ledLeader led
  ledOnly := invariant.ledOnly
  ledMajority := invariant.ledMajority

theorem Invariant.become_newer (invariant : Invariant members election)
    (newer : election.term node < term) :
    Invariant members (election.become node term role) := by
  apply invariant.become newer.le
  · intro candidate granted
    have := invariant.grantedTerm granted
    omega
  · intro led
    have := invariant.ledTerm led
    omega

omit [DecidableEq ν] in
theorem Invariant.grant (invariant : Invariant members election) {voter candidate : ν}
    (member : voter ∈ members) (follower : election.role voter = .follower)
    (once : ∀ other, election.granted voter other (election.term voter) → other = candidate) :
    Invariant members (election.grant voter candidate) where
  grantedMember := by
    rintro other chosen term (old | ⟨rfl, rfl, rfl⟩)
    · exact invariant.grantedMember old
    · exact member
  grantedTerm := by
    rintro other chosen term (old | ⟨rfl, rfl, rfl⟩)
    · exact invariant.grantedTerm old
    · exact le_rfl
  grantedFollower := by
    rintro other chosen (old | ⟨rfl, rfl, _⟩)
    · exact invariant.grantedFollower old
    · exact follower
  grantedOnce := by
    rintro other left right term (leftOld | ⟨rfl, rfl, rfl⟩) (rightOld | ⟨same, rfl, sameTerm⟩)
    · exact invariant.grantedOnce leftOld rightOld
    · subst same sameTerm
      exact once left leftOld
    · exact (once right rightOld).symm
    · rfl
  ledTerm := invariant.ledTerm
  ledLeader := invariant.ledLeader
  ledOnly := by
    rintro leader chosen term led (old | ⟨rfl, rfl, rfl⟩)
    · exact invariant.ledOnly led old
    · have leader := invariant.ledLeader led
      rw [follower] at leader
      cases leader
  ledMajority := by
    intro leader term led
    rcases invariant.ledMajority led with ⟨quorum, majority, support⟩
    exact ⟨quorum, majority, fun other inside => (support other inside).imp_right .inl⟩

theorem Invariant.lead (invariant : Invariant members election) {quorum : Finset ν}
    (candidate : election.role node = .candidate) (majority : Majority members quorum)
    (support : ∀ voter ∈ quorum, voter = node ∨ election.granted voter node (election.term node)) :
    Invariant members (election.lead node) := by
  -- A candidate has neither granted a vote nor led in its own term.
  have notGranted : ∀ other, ¬ election.granted node other (election.term node) := by
    intro other granted
    have follower := invariant.grantedFollower granted
    rw [candidate] at follower
    cases follower
  have notLed : ¬ election.led node (election.term node) := by
    intro led
    have leader := invariant.ledLeader led
    rw [candidate] at leader
    cases leader
  have become : Invariant members (election.become node (election.term node) .leader) :=
    invariant.become le_rfl (fun other granted => absurd granted (notGranted other))
      fun led => absurd led notLed
  exact {
    grantedMember := become.grantedMember
    grantedTerm := become.grantedTerm
    grantedFollower := become.grantedFollower
    grantedOnce := become.grantedOnce
    ledTerm := by
      rintro other term (old | ⟨rfl, rfl⟩)
      · exact become.ledTerm old
      · simp [Election.lead, Election.become]
    ledLeader := by
      rintro other (old | ⟨rfl, _⟩)
      · exact become.ledLeader old
      · simp [Election.lead, Election.become]
    ledOnly := by
      rintro other chosen term (old | ⟨rfl, rfl⟩)
      · exact become.ledOnly old
      · exact notGranted chosen
    ledMajority := by
      rintro other term (old | ⟨rfl, rfl⟩)
      · exact become.ledMajority old
      · exact ⟨quorum, majority, support⟩ }

variable {next : Election ν}

theorem Step.invariant (step : Step members election next)
    (invariant : Invariant members election) : Invariant members next := by
  cases step with
  | adopt node term newer => exact invariant.become_newer newer
  | concede node candidate =>
    apply invariant.become le_rfl
    · intro other granted
      rfl
    · intro led
      have leader := invariant.ledLeader led
      rw [candidate] at leader
      cases leader
  | stand node term newer => exact invariant.become_newer newer
  | grant voter candidate member follower once => exact invariant.grant member follower once
  | win node quorum candidate majority support =>
    exact invariant.lead candidate majority support

theorem Step.led (step : Step members election next)
    (led : election.led node term) : next.led node term := by
  cases step with
  | win => exact .inl led
  | _ => exact led

end Preservation

end Election

end Foundation

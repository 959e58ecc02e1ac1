import AegisDB.Foundation.Transition
import AegisDB.Latches

/-! # Waiting for latches

`wait_for_latches` of `transaction/latches/latches.rs`, step by step: a handler that finds a
key taken is told the notifier of the holder, creates a future on it and sleeps. A release
signals the futures that exist at that moment and no others. A notifier is named by the
handler that created it. -/

namespace AegisDB

open Foundation Function Latches

inductive WaitPhase (ι : Type) where
  | acquiring
  | told (notify : ι)
  | created (notify : ι)
  | sleeping (notify : ι)
  | holding
  | finished
deriving DecidableEq, Repr

namespace WaitPhase

variable {ι : Type} [DecidableEq ι]

def wake (signalled : Option ι) : WaitPhase ι → WaitPhase ι
  | .created notify => if signalled = some notify then .acquiring else .created notify
  | .sleeping notify => if signalled = some notify then .acquiring else .sleeping notify
  | phase => phase

def Awaits (phase : WaitPhase ι) (notify : ι) : Prop :=
  phase = .created notify ∨ phase = .sleeping notify

variable {signalled : Option ι} {phase : WaitPhase ι}

theorem wake_eq_holding_iff :
    phase.wake signalled = .holding ↔ phase = .holding := by
  cases phase with
  | created notify =>
    rw [wake]
    split <;> simp
  | sleeping notify =>
    rw [wake]
    split <;> simp
  | _ => simp [wake]

theorem awaits_wake_iff {notify : ι} :
    (phase.wake signalled).Awaits notify ↔ phase.Awaits notify ∧ signalled ≠ some notify := by
  cases phase with
  | created other =>
    rw [wake]
    split <;> grind [Awaits]
  | sleeping other =>
    rw [wake]
    split <;> grind [Awaits]
  | _ => simp [wake, Awaits]

end WaitPhase

inductive WaitEvent (ι : Type) where
  | acquire (handler : ι)
  | create (handler : ι)
  | sleep (handler : ι)
  | release (handler : ι)
deriving DecidableEq, Repr

structure WaitState (ι : Type) where
  latches : Latches ι
  phase : ι → WaitPhase ι

def Latches.Stores (latches : Latches ν) (notify : ν) : Prop :=
  ∃ entry ∈ latches.latchMap.entries, entry.2 = notify

instance [DecidableEq ν] (latches : Latches ν) (notify : ν) : Decidable (latches.Stores notify) :=
  inferInstanceAs (Decidable (∃ entry ∈ latches.latchMap.entries, entry.2 = notify))

theorem Latches.stores_iff {latches : Latches ν} {notify : ν} :
    latches.Stores notify ↔ ∃ key, latches.latchMap.get? key = some notify := by
  constructor
  · intro stores
    rcases stores with ⟨entry, member, rfl⟩
    exact ⟨entry.1, OrderedMap.get?_eq_some_iff.mpr member⟩
  · intro stores
    rcases stores with ⟨key, present⟩
    exact ⟨(key, notify), OrderedMap.get?_eq_some_iff.mp present, rfl⟩

theorem Latches.releaseLatches_fst {latches : Latches ν} {keys : List Bytes} {notify : ν}
    (held : ∀ key ∈ keys, latches.latchMap.get? key = some notify) (nonempty : keys ≠ []) :
    (latches.releaseLatches keys).1 = some notify := by
  cases keys with
  | nil => exact absurd rfl nonempty
  | cons first rest => exact held first List.mem_cons_self

namespace WaitState

variable {ι : Type}

def new : WaitState ι := { latches := .new, phase := fun _ => .acquiring }

section Steps

variable [DecidableEq ι]

def enter (state : WaitState ι) (handler : ι) (phase : WaitPhase ι) : WaitState ι :=
  { state with phase := update state.phase handler phase }

@[simp] theorem latches_enter (state : WaitState ι) (handler : ι) (phase : WaitPhase ι) :
    (state.enter handler phase).latches = state.latches := rfl

@[simp] theorem phase_enter_self (state : WaitState ι) (handler : ι) (phase : WaitPhase ι) :
    (state.enter handler phase).phase handler = phase :=
  update_self ..

theorem phase_enter_of_ne (state : WaitState ι) {handler other : ι} (phase : WaitPhase ι)
    (different : other ≠ handler) : (state.enter handler phase).phase other = state.phase other :=
  update_of_ne different ..

def step (keys : ι → List Bytes) (state : WaitState ι) : WaitEvent ι → WaitState ι
  | .acquire handler =>
    match state.phase handler with
    | .acquiring =>
      match state.latches.acquireLatches handler (keys handler) with
      | (some notify, _) => state.enter handler (.told notify)
      | (none, latches) => { state.enter handler .holding with latches }
    | _ => state
  | .create handler =>
    match state.phase handler with
    | .told notify => state.enter handler (.created notify)
    | _ => state
  | .sleep handler =>
    match state.phase handler with
    | .created notify => state.enter handler (.sleeping notify)
    | _ => state
  | .release handler =>
    match state.phase handler with
    | .holding =>
      let (signalled, latches) := state.latches.releaseLatches (keys handler)
      { latches
        phase := update (fun other => (state.phase other).wake signalled) handler
          .finished }
    | _ => state

end Steps

def NoneStranded (state : WaitState ι) : Prop :=
  ∀ handler notify, state.phase handler = .sleeping notify → state.latches.Stores notify

/-- A future is created only while the holder still has its latches. -/
def InTime (state : WaitState ι) : WaitEvent ι → Prop
  | .create handler =>
    ∀ notify, state.phase handler = .told notify → state.latches.Stores notify
  | _ => True

structure Orderly (keys : ι → List Bytes) (state : WaitState ι) : Prop where
  held : ∀ {handler}, state.phase handler = .holding → ∀ key ∈ keys handler,
    state.latches.latchMap.get? key = some handler
  owned : ∀ {key handler}, state.latches.latchMap.get? key = some handler →
    state.phase handler = .holding ∧ key ∈ keys handler
  awaited : ∀ {handler notify}, (state.phase handler).Awaits notify →
    state.latches.Stores notify

namespace Orderly

variable {keys : ι → List Bytes} {state : WaitState ι} {handler notify : ι}

theorem new (keys : ι → List Bytes) : Orderly keys WaitState.new where
  held holds := by cases holds
  owned present := by cases present
  awaited awaits := by simp [WaitState.new, WaitPhase.Awaits] at awaits

variable (orderly : Orderly keys state)

include orderly

theorem noneStranded : state.NoneStranded :=
  fun _ _ sleeping => orderly.awaited (.inr sleeping)

variable [DecidableEq ι]

theorem enter {phase : WaitPhase ι}
    (notHolding : state.phase handler ≠ .holding) (still : phase ≠ .holding)
    (awaited : ∀ notify, phase.Awaits notify → state.latches.Stores notify) :
    Orderly keys (state.enter handler phase) where
  held {other} holds := by
    by_cases same : other = handler
    · rw [same, phase_enter_self] at holds
      exact absurd holds still
    · rw [phase_enter_of_ne state phase same] at holds
      exact orderly.held holds
  owned {key other} present := by
    rcases orderly.owned present with ⟨holds, member⟩
    refine ⟨?_, member⟩
    rw [phase_enter_of_ne]
    · exact holds
    · intro same
      exact notHolding (same ▸ holds)
  awaited {other notify} awaits := by
    by_cases same : other = handler
    · rw [same, phase_enter_self] at awaits
      exact awaited notify awaits
    · rw [phase_enter_of_ne state phase same] at awaits
      exact orderly.awaited awaits

theorem acquire {latches : Latches ι} (notYet : state.phase handler = .acquiring)
    (acquired : state.latches.tryLatches handler (keys handler) = some latches) :
    Orderly keys { state.enter handler .holding with latches } := by
  have free {key : Bytes} (member : key ∈ keys handler) :
      state.latches.latchMap.get? key = none :=
    Latches.table.free acquired key member
  have kept {key : Bytes} {other : ι} (present : state.latches.latchMap.get? key = some other) :
      latches.latchMap.get? key = some other := by
    refine (Latches.table.untouched acquired key ?_).trans present
    intro member
    rw [free member] at present
    cases present
  refine ⟨?_, ?_, ?_⟩
  · intro other holds key member
    by_cases same : other = handler
    · subst same
      exact Latches.table.taken acquired key member
    · exact kept (orderly.held ((phase_enter_of_ne state _ same).symm.trans holds) key member)
  · intro key other present
    by_cases member : key ∈ keys handler
    · have isHandler := (Latches.table.taken acquired key member).symm.trans present
      rcases Option.some.inj isHandler with rfl
      exact ⟨phase_enter_self state handler _, member⟩
    · rcases orderly.owned ((Latches.table.untouched acquired key member).symm.trans present) with
        ⟨holds, otherMember⟩
      refine ⟨(phase_enter_of_ne state _ ?_).trans holds, otherMember⟩
      intro same
      rw [same, notYet] at holds
      cases holds
  · intro other notify awaits
    by_cases same : other = handler
    · subst same
      simp [phase_enter_self, WaitPhase.Awaits] at awaits
    · rw [phase_enter_of_ne state _ same] at awaits
      rcases stores_iff.mp (orderly.awaited awaits) with ⟨key, present⟩
      exact stores_iff.mpr ⟨key, kept present⟩

theorem release (holds : state.phase handler = .holding) :
    Orderly keys
      { latches := (state.latches.releaseLatches (keys handler)).2
        phase := update (fun other => (state.phase other).wake
          (state.latches.releaseLatches (keys handler)).1) handler .finished } := by
  have kept {key : Bytes} {other : ι} (different : other ≠ handler)
      (present : state.latches.latchMap.get? key = some other) :
      (state.latches.releaseLatches (keys handler)).2.latchMap.get? key = some other := by
    refine (Latches.table.kept state.latches (keys handler) key ?_).trans present
    intro member
    rw [orderly.held holds key member] at present
    exact different (Option.some.inj present).symm
  refine ⟨?_, ?_, ?_⟩
  · intro other otherHolds key member
    by_cases same : other = handler
    · subst same
      simp only [update_self] at otherHolds
      cases otherHolds
    · simp only [update_of_ne same, WaitPhase.wake_eq_holding_iff] at otherHolds
      exact kept same (orderly.held otherHolds key member)
  · intro key other present
    by_cases member : key ∈ keys handler
    · have gone := Latches.table.released state.latches (keys handler) key member
      cases gone.symm.trans present
    · rcases orderly.owned
          ((Latches.table.kept state.latches (keys handler) key member).symm.trans present) with
        ⟨otherHolds, otherMember⟩
      have different : other ≠ handler := by
        intro same
        rw [same] at otherMember
        exact member otherMember
      refine ⟨?_, otherMember⟩
      simp only [update_of_ne different, WaitPhase.wake_eq_holding_iff]
      exact otherHolds
  · intro other notify awaits
    by_cases same : other = handler
    · subst same
      simp [WaitPhase.Awaits] at awaits
    · simp only [update_of_ne same] at awaits
      rcases WaitPhase.awaits_wake_iff.mp awaits with ⟨awaited, notSignalled⟩
      rcases stores_iff.mp (orderly.awaited awaited) with ⟨key, present⟩
      refine stores_iff.mpr ⟨key, kept ?_ present⟩
      -- the handler's own notifier is the one that is signalled
      intro isHandler
      subst isHandler
      have member := (orderly.owned present).2
      exact notSignalled
        (releaseLatches_fst (orderly.held holds) (List.ne_nil_of_mem member))

theorem step {event : WaitEvent ι} (inTime : state.InTime event) :
    Orderly keys (state.step keys event) := by
  cases event with
  | acquire handler =>
    rw [WaitState.step]
    cases current : state.phase handler with
    | acquiring =>
      dsimp only
      cases acquired : state.latches.acquireLatches handler (keys handler) with
      | mk told latches =>
        cases told with
        | some notify =>
          refine orderly.enter (by simp [current]) (by simp) ?_
          simp [WaitPhase.Awaits]
        | none =>
          exact orderly.acquire current (by rw [tryLatches, acquired])
    | _ => exact orderly
  | create handler =>
    rw [WaitState.step]
    cases current : state.phase handler with
    | told notify =>
      refine orderly.enter (by simp [current]) (by simp) ?_
      intro other awaits
      rcases awaits with created | sleeping
      · cases created
        exact inTime notify current
      · cases sleeping
    | _ => exact orderly
  | sleep handler =>
    rw [WaitState.step]
    cases current : state.phase handler with
    | created notify =>
      refine orderly.enter (by simp [current]) (by simp) ?_
      intro other awaits
      rcases awaits with created | sleeping
      · cases created
      · cases sleeping
        exact orderly.awaited (.inl current)
    | _ => exact orderly
  | release handler =>
    rw [WaitState.step]
    cases current : state.phase handler with
    | holding => exact orderly.release current
    | _ => exact orderly

end Orderly

/-- Along a run, no handler sleeps or could go to sleep on a notifier that has left the latch
map, exactly if every future is created while the notifier is still there. -/
theorem noneStranded_iff {ι : Type} [DecidableEq ι] (keys : ι → List Bytes)
    (events : List (WaitEvent ι)) :
    (∀ past, past <+: events → ((past.foldl (step keys) new).NoneStranded ∧
        ∀ handler, ((past ++ [WaitEvent.sleep handler]).foldl (step keys) new).NoneStranded)) ↔
      Guarded (step keys) InTime new events := by
  constructor
  · intro always
    refine guarded_of_forall_isPrefix
      (fun state => ∀ handler, (state.step keys (.sleep handler)).NoneStranded) (Orderly.new keys)
      (fun _ orderly inTime => orderly.step inTime) ?_ ?_
    · intro state event _ _ stays
      cases event with
      | create handler =>
        intro notify told
        have slept := stays handler handler notify
        simpa [step, told] using slept
      | _ => trivial
    · intro past isPrefix handler
      have stays := (always past isPrefix).2 handler
      rw [List.foldl_append] at stays
      exact stays
  · intro guarded past isPrefix
    have orderly : Orderly keys (past.foldl (step keys) new) := guarded.invariant (Orderly.new keys)
      (fun _ orderly inTime => orderly.step inTime) isPrefix
    refine ⟨orderly.noneStranded, ?_⟩
    intro handler
    have inTime : InTime (past.foldl (step keys) new) (WaitEvent.sleep handler) := trivial
    rw [List.foldl_append]
    exact (orderly.step inTime).noneStranded

/-- A holder that gives its latches back between `acquire_latches` and `notified()` of a
waiter. -/
theorem stranded_after_late_future :
    ¬ ([WaitEvent.acquire false, .acquire true, .release false, .create true,
      .sleep true].foldl (step fun _ => [[1]]) new).NoneStranded := by
  intro noneStranded
  exact absurd (noneStranded true false rfl) (by decide)

end WaitState

end AegisDB

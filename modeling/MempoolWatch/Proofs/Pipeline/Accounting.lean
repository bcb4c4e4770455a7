import MempoolWatch.Proofs.Pipeline.Delivery
import MempoolWatch.Proofs.Pipeline.Schedule

/-! The account of a run. Every hash that was read ends up as an event in the
statistics, as a crash or as an invocation that was aborted. The number of aborted
invocations that the run reports is taken when the wait for them is given up, of all
invocations that were not taken notice of yet; it exceeds the true one by those among
them that come to an end of their own. -/
namespace MempoolWatch.Pipeline

namespace State

variable {σ : Type}

/-- The loop takes notice of an end that nobody brought about, after it has given up
waiting for it. -/
def overlooks (state : State σ) (action : Action) : Bool :=
  match action, state.phase with
  | .join index, .aborting _ _ =>
    (state.invocations[index]?).any fun invocation => ! invocation.stage.isEndedBy .aborted
  | _, _ => false

/-- How many of the ends that a run takes notice of after it has given up waiting were
not brought about by that. -/
def overlooked [Report.Sink σ] (setup : Setup) : State σ → List Action → Nat
  | _, [] => 0
  | state, action :: actions =>
    (state.overlooks action).toNat +
      match state.step? setup action with
      | some next => overlooked setup next actions
      | none => 0

end State

/-- The number of aborted invocations that a phase reports, beside the invocations that
are not taken notice of, the aborted ones among the others, all aborted ones, and the
ends overlooked so far. -/
def Phase.Tallies (unjoined joined aborted overlooked : Nat) : Phase → Prop
  | .aborting _ reported => reported = unjoined + joined + overlooked
  | .closing _ reported | .returned _ reported => reported = aborted + overlooked
  | _ => aborted = 0 ∧ overlooked = 0

section Counts

def abortedCount (invocations : List Invocation) : Nat :=
  invocations.countP fun invocation => invocation.stage.isEndedBy .aborted

/-- The aborted invocations that the loop has taken notice of. -/
def joinedAbortedCount (invocations : List Invocation) : Nat :=
  invocations.countP fun invocation =>
    invocation.joined && invocation.stage.isEndedBy .aborted

def unjoinedCount (invocations : List Invocation) : Nat :=
  invocations.countP fun invocation => ! invocation.joined

theorem joinedAbortedCount_le (invocations : List Invocation) :
    joinedAbortedCount invocations ≤ abortedCount invocations := by
  apply List.countP_mono_left
  intro invocation _ both
  exact (Bool.and_eq_true_iff.mp both).2

theorem joinedAbortedCount_of_joined {invocations : List Invocation}
    (joined : unjoinedCount invocations = 0) :
    joinedAbortedCount invocations = abortedCount invocations := by
  apply List.countP_congr
  intro invocation member
  have : invocation.joined = true := by
    simpa using List.countP_eq_zero.mp joined invocation member
  simp [this]

end Counts

variable {σ : Type} {setup : Setup} {state next : State σ} {action : Action}

/-- The reported number of aborted invocations fits the invocations. -/
def State.Tallies (overlooked : Nat) (state : State σ) : Prop :=
  state.phase.Tallies (unjoinedCount state.invocations) (joinedAbortedCount state.invocations)
    (abortedCount state.invocations) overlooked

theorem State.tallies_cutShort {why : Termination} {deadline : Nat} {overlooked : Nat}
    (tallies : state.Tallies overlooked) (draining : state.phase = .draining why deadline) :
    (state.cutShort why).Tallies overlooked := by
  simp only [Tallies, draining, Phase.Tallies] at tallies
  obtain ⟨none, rfl⟩ := tallies
  have noneJoined : joinedAbortedCount state.invocations = 0 :=
    Nat.le_zero.mp (none ▸ joinedAbortedCount_le _)
  by_cases joined : state.unjoined = 0
  · simp only [State.cutShort, if_pos joined, Tallies, Phase.Tallies, none]
  · simp only [State.cutShort, if_neg joined, Tallies, Phase.Tallies, noneJoined]
    rfl

theorem State.tallies_atStage {overlooked : Nat} {before after : List Invocation}
    {invocation : Invocation} (split : state.invocations = before ++ invocation :: after)
    (stage : Stage) (aborted : stage.isEndedBy .aborted = invocation.stage.isEndedBy .aborted)
    (tallies : state.Tallies overlooked) :
    { state with invocations := before ++ invocation.atStage stage :: after }.Tallies
      overlooked := by
  have unjoined : unjoinedCount (before ++ invocation.atStage stage :: after) =
      unjoinedCount (before ++ invocation :: after) := countP_replaced before after rfl
  have joinedAborted : joinedAbortedCount (before ++ invocation.atStage stage :: after) =
      joinedAbortedCount (before ++ invocation :: after) :=
    countP_replaced before after (congrArg (invocation.joined && ·) aborted)
  have allAborted : abortedCount (before ++ invocation.atStage stage :: after) =
      abortedCount (before ++ invocation :: after) := countP_replaced before after aborted
  rw [State.Tallies, split] at tallies
  rwa [State.Tallies, unjoined, joinedAborted, allAborted]

/-- Taking notice of an end moves it from one count to another, or is an oversight. -/
theorem State.tallies_noticed {overlooked : Nat} {before after : List Invocation}
    {invocation : Invocation} (split : state.invocations = before ++ invocation :: after)
    (attends : state.attendsJoins = true) (unjoined : invocation.joined = false)
    (tallies : state.Tallies overlooked) :
    { state with invocations := before ++ invocation.noticed :: after }.Tallies
      (overlooked + (state.overlooks (.join before.length)).toNat) := by
  have same : abortedCount (before ++ invocation.noticed :: after) =
      abortedCount state.invocations := by
    rw [split]
    exact countP_replaced before after rfl
  cases phase : state.phase with
  | acquiring | draining =>
    simp only [Tallies, phase] at tallies
    simp only [Tallies, overlooks, phase, same]
    exact tallies
  | listening | closing | returned => simp [attendsJoins, phase] at attends
  | aborting why reported =>
    have found : state.invocations[before.length]? = some invocation := by
      rw [split, getElem?_split]
    simp only [Tallies, phase, Phase.Tallies, split] at tallies
    simp only [Tallies, overlooks, phase, found, Option.any_some, Phase.Tallies]
    cases aborted : invocation.stage.isEndedBy .aborted <;>
      simp [unjoinedCount, joinedAbortedCount, unjoined, aborted] at tallies ⊢ <;> omega

theorem State.tallies_start (ledger : Ledger σ) : (State.start setup ledger).Tallies 0 :=
  ⟨rfl, rfl⟩

variable [Report.Sink σ]

theorem Transition.tallies {overlooked : Nat} (case : Transition setup state action next)
    (attended : state.Attended setup) (tallies : state.Tallies overlooked) :
    next.Tallies (overlooked + (state.overlooks action).toNat) := by
  cases case with
  | advance | signal | record => exact tallies
  | interruptListening pending listens =>
    cases phase : state.phase <;>
      simp_all [State.Tallies, Phase.Tallies, Phase.isOpen, State.stopListening, State.overlooks]
  | acquire phase | readFault phase | readEnd phase | finish phase =>
    simp only [State.Tallies, phase] at tallies
    exact tallies
  | readHash listening =>
    simp only [State.Tallies, listening, Phase.Tallies] at tallies
    have same (hash : Hash) : abortedCount (state.invocations ++ [.spawn hash]) =
        abortedCount state.invocations := by
      simp [abortedCount, Stage.isEndedBy]
    exact ⟨(same _).trans tallies.1, tallies.2⟩
  | interruptDraining pending draining => exact State.tallies_cutShort tallies draining
  | expire draining => exact State.tallies_cutShort tallies draining
  | settleDraining draining quiet settled =>
    simp only [State.Tallies, draining, Phase.Tallies] at tallies
    exact (tallies.1.symm ▸ tallies.2.symm ▸ rfl)
  | settleAborting aborting settled =>
    simp only [State.Tallies, aborting, Phase.Tallies] at tallies
    have none : unjoinedCount state.invocations = 0 := settled
    rw [none, joinedAbortedCount_of_joined none, Nat.zero_add] at tallies
    exact tallies
  | fetch split spawned =>
    have kept := State.tallies_atStage split (.fetching state.clock) (by rw [spawned]; rfl) tallies
    exact kept
  | @analyze before after invocation since event split fetching =>
    have kept := State.tallies_atStage split (.sending event) (by rw [fetching]; rfl) tallies
    exact kept
  | crash split fetching =>
    have kept := State.tallies_atStage split (.ended .crashed) (by rw [fetching]; rfl) tallies
    exact kept
  | deliver split sending =>
    have kept := State.tallies_atStage split (.ended .delivered) (by rw [sending]; rfl) tallies
    exact kept
  | join split attends ended unjoined => exact State.tallies_noticed split attends unjoined tallies
  | @abort before after invocation why reported split aborting running =>
    have unjoined : invocation.joined = false := by
      have fits := attended.fits invocation (by simp [split])
      cases joined : invocation.joined
      · rfl
      · exact absurd (fits.joined joined) (by simp [running])
    simp only [State.Tallies, aborting, Phase.Tallies, split, unjoinedCount, joinedAbortedCount,
      List.countP_append, List.countP_cons, unjoined, Bool.false_and] at tallies
    simp only [State.Tallies, aborting, Phase.Tallies, unjoinedCount, joinedAbortedCount,
      List.countP_append, List.countP_cons, Invocation.atStage_joined, unjoined, Bool.false_and]
    exact tallies

theorem Reaches.tallies {first : State σ} {actions : List Action} {overlooked : Nat}
    (run : Reaches setup first actions state) (attended : first.Attended setup)
    (tallies : first.Tallies overlooked) :
    state.Tallies (overlooked + State.overlooked setup first actions) := by
  induction run generalizing overlooked with
  | refl => exact tallies
  | next step _ ih =>
    have case := Transition.of_step step
    rw [State.overlooked, step, ← Nat.add_assoc]
    exact ih (case.attended attended) (case.tallies attended tallies)

/-- Every ended invocation came to exactly one of the three ends. -/
theorem length_eq_ends {invocations : List Invocation}
    (ended : ∀ invocation ∈ invocations, invocation.stage.isEnded = true) :
    invocations.length = invocations.countP (·.stage.isEndedBy .delivered) +
      invocations.countP (·.stage.isEndedBy .aborted) +
      invocations.countP (·.stage.isEndedBy .crashed) := by
  have stages := length_eq_stages invocations
  rwa [runningCount_eq_zero_iff.mpr ended, Nat.zero_add] at stages

theorem notifications_recordAll (base : Ledger σ) (events : List (TimeOfDay × Event)) :
    (base.recordAll events).stats.notifications = base.stats.notifications + events.length := by
  induction events generalizing base with
  | nil => rfl
  | cons entry rest ih =>
    have recorded : (base.record entry.1 entry.2).stats.notifications =
        base.stats.notifications + 1 := by
      cases entry.2 <;> rfl
    rw [List.length_cons, Nat.add_comm rest.length, ← Nat.add_assoc, ← recorded]
    exact ih (base.record entry.1 entry.2)

/-- As many events are recorded or wait in the queue as were delivered. -/
theorem State.Conserves.length_delivered {base : Ledger σ}
    (conserves : state.Conserves setup base) :
    state.recorded.length + state.queue.length = (state.endedBy .delivered).length := by
  have events := conserves.delivered.length_eq
  rw [List.length_append, List.length_map] at events
  rw [events, deliveredEvents, List.filterMap_length_eq_length.mpr]
  · rfl
  · intro invocation member
    obtain ⟨inside, delivered⟩ := State.mem_endedBy.mp member
    obtain ⟨event, yields⟩ := (conserves.attended.fits invocation inside).delivered delivered
    rw [yields]
    rfl

/-- As many events are recorded at the end as were delivered. -/
theorem State.Conserves.length_recorded {base : Ledger σ}
    (conserves : state.Conserves setup base) (finished : state.phase.isReturned = true) :
    state.recorded.length = (state.endedBy .delivered).length := by
  rw [← conserves.length_delivered, conserves.drained finished, List.length_nil, Nat.add_zero]

/-- Every hash read is a notification in the statistics, a crash or an aborted
invocation. The run reports as aborted also the ends that it has overlooked, so that its
own numbers add up to the hashes read exactly when it has overlooked none. -/
theorem hashes_read_accounted {reporter : Report.Reporter σ} {actions : List Action}
    {why : Termination} {aborted : Nat}
    (run : Reaches setup (.start setup (.new reporter)) actions state)
    (returned : state.phase = .returned why aborted) :
    state.hashes.length = state.ledger.stats.notifications + (state.endedBy .aborted).length +
      (state.endedBy .crashed).length ∧
    aborted = (state.endedBy .aborted).length +
      State.overlooked setup (.start setup (.new reporter)) actions ∧
    (state.hashes.length = state.ledger.stats.notifications + aborted +
        (state.endedBy .crashed).length ↔
      State.overlooked setup (.start setup (.new reporter)) actions = 0) := by
  have conserves := run.conserves
  have finished : state.phase.isReturned = true := by rw [returned]; rfl
  have settled : state.phase.isSettled = true := by rw [returned]; rfl
  have ends := length_eq_ends fun invocation member => conserves.attended.ended settled member
  simp only [← State.length_endedBy] at ends
  have read : state.hashes.length = state.invocations.length := List.length_map _
  have notifications : state.ledger.stats.notifications = (state.endedBy .delivered).length := by
    rw [conserves.written, finished, if_pos rfl, ← conserves.length_recorded finished]
    exact (notifications_recordAll _ _).trans (Nat.zero_add _)
  have tallies := run.tallies (State.attended_start _) (State.tallies_start _)
  simp only [State.Tallies, returned, Phase.Tallies, Nat.zero_add] at tallies
  have reported : aborted = (state.endedBy .aborted).length +
      State.overlooked setup (.start setup (.new reporter)) actions := by
    rw [tallies, State.length_endedBy]
    rfl
  exact ⟨by omega, reported, by omega⟩

/-- One hash is announced, and its transaction is gone. -/
def goneHash : Setup where
  settings := {}
  analyze := fun hash => ⟨some (.notFound hash), 0⟩
  feed := [.ok (.fill 32 1)]
  staysOpen := true

/-- Both stop signals come at once, long after the event was recorded. -/
def goneHashEnd : State Report.Transcript :=
  (Simulation.complete goneHash ⟨[0], [100, 100], fun _ => some 0⟩ ⟨0, 0, 0, 0⟩
    (.new freshTranscript)).state

theorem gone_hash_read_accounted :
    ∃ actions, Reaches goneHash (.start goneHash (.new freshTranscript)) actions goneHashEnd ∧
      goneHashEnd.phase = .returned .interrupted 1 ∧
      goneHashEnd.hashes.length = goneHashEnd.ledger.stats.notifications +
        (goneHashEnd.endedBy .aborted).length + (goneHashEnd.endedBy .crashed).length ∧
      State.overlooked goneHash (.start goneHash (.new freshTranscript)) actions = 1 := by
  obtain ⟨actions, run⟩ : ∃ actions,
      Reaches goneHash (.start goneHash (.new freshTranscript)) actions goneHashEnd :=
    Simulation.complete_reaches _ _ _ _
  have returned : goneHashEnd.phase = .returned .interrupted 1 := by decide +kernel
  have none : (goneHashEnd.endedBy .aborted).length = 0 := by decide +kernel
  obtain ⟨accounted, reported, _⟩ := hashes_read_accounted run returned
  exact ⟨actions, run, returned, accounted, by omega⟩

/-- An event can be recorded and its invocation be reported as aborted all the same. -/
theorem recorded_reported_as_aborted :
    ∃ actions, Reaches goneHash (.start goneHash (.new freshTranscript)) actions goneHashEnd ∧
      goneHashEnd.phase = .returned .interrupted 1 ∧
      goneHashEnd.ledger.stats.notifications = 1 ∧ goneHashEnd.endedBy .crashed = [] ∧
      ¬ goneHashEnd.hashes.length = goneHashEnd.ledger.stats.notifications + 1 +
        (goneHashEnd.endedBy .crashed).length := by
  obtain ⟨actions, run⟩ : ∃ actions,
      Reaches goneHash (.start goneHash (.new freshTranscript)) actions goneHashEnd :=
    Simulation.complete_reaches _ _ _ _
  exact ⟨actions, run, by decide +kernel, by decide +kernel, rfl, by decide +kernel⟩

end MempoolWatch.Pipeline

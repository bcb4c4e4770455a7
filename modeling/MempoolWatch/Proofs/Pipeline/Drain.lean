import MempoolWatch.Proofs.Pipeline.Listening
import MempoolWatch.Proofs.Pipeline.Liveness

/-! How long the end of a run waits for the invocations. From the moment at which listening ended
the loop gives them the time of the settings, unless it takes a stop signal meanwhile. Every signal
that is taken is one that came, so that a run which gets a single one, and has stopped listening by
it, has none left to cut its wait short. -/
namespace MempoolWatch.Pipeline

/-- The loop waits for the invocations until a deadline, or the wait is over with all of them
ended by themselves. -/
def Phase.Patient (deadline : Nat) : Phase → Prop
  | .draining _ actual => actual = deadline
  | .closing _ aborted | .returned _ aborted => aborted = 0
  | _ => False

variable {σ : Type} {setup : Setup} {state next : State σ} {action : Action}

theorem State.endedBy_eq_nil_iff {ending : Ending} :
    state.endedBy ending = [] ↔ state.invocations.countP (·.stage.isEndedBy ending) = 0 := by
  rw [← State.length_endedBy, List.length_eq_zero_iff]

theorem State.Tallies.none_aborted_of_open {overlooked : Nat} (tallies : state.Tallies overlooked)
    (listens : state.phase.isOpen = true) : state.endedBy .aborted = [] := by
  apply State.endedBy_eq_nil_iff.mpr
  cases phase : state.phase with
  | acquiring | listening =>
    rw [State.Tallies, phase] at tallies
    exact tallies.1
  | draining | aborting | closing | returned => simp [phase, Phase.isOpen] at listens

theorem State.Tallies.none_aborted_of_patient {overlooked deadline : Nat}
    (tallies : state.Tallies overlooked) (patient : state.phase.Patient deadline) :
    state.endedBy .aborted = [] := by
  apply State.endedBy_eq_nil_iff.mpr
  cases phase : state.phase with
  | draining =>
    rw [State.Tallies, phase] at tallies
    exact tallies.1
  | closing | returned =>
    rw [State.Tallies, phase, Phase.Tallies] at tallies
    rw [phase, Phase.Patient] at patient
    exact (Nat.add_eq_zero_iff.mp (tallies.symm.trans patient)).1
  | acquiring | listening | aborting => simp [phase, Phase.Patient] at patient

theorem State.Attended.unjoined_of_running (attended : state.Attended setup)
    {invocation : Invocation} (member : invocation ∈ state.invocations)
    (running : invocation.stage.isEnded = false) : state.unjoined ≠ 0 := by
  intro none
  have joined := State.unjoined_eq_zero_iff.mp none invocation member
  have ended := (attended.fits invocation member).joined joined
  rw [running] at ended
  contradiction

variable [Report.Sink σ]

section Clock

theorem Transition.clock_le (case : Transition setup state action next) :
    state.clock ≤ next.clock := by
  cases case with
  | advance milliseconds => exact Nat.le_add_right _ _
  | signal | interruptListening | interruptDraining | join | acquire | readHash | readFault
  | readEnd | fetch | analyze | crash | deliver | abort | expire | settleDraining
  | settleAborting | record | finish => exact Nat.le_refl _

theorem Reaches.clock_le {later : State σ} {more : List Action}
    (run : Reaches setup state more later) : state.clock ≤ later.clock := by
  induction run with
  | refl => exact Nat.le_refl _
  | next step _ ih => exact Nat.le_trans (Transition.of_step step).clock_le ih

end Clock

section Signals

/-- A signal that comes waits until it is taken. -/
theorem Transition.signals_eq (case : Transition setup state action next) :
    state.signals + [action].count .signal = next.signals + [action].count .interrupt := by
  cases case with
  | signal => rfl
  | interruptListening pending | interruptDraining pending =>
    show state.signals + 0 = state.signals - 1 + 1
    omega
  | advance | join | acquire | readHash | readFault | readEnd | fetch | analyze | crash | deliver
  | abort | expire | settleDraining | settleAborting | record | finish => rfl

theorem Reaches.signals_eq {later : State σ} {more : List Action}
    (run : Reaches setup state more later) :
    state.signals + more.count .signal = later.signals + more.count .interrupt := by
  induction run with
  | refl => rfl
  | @next first second last action actions step _ ih =>
    have taken := (Transition.of_step step).signals_eq
    rw [← List.singleton_append, List.count_append, List.count_append]
    omega

/-- No more signals are taken than come. -/
theorem Reaches.interrupts_le {ledger : Ledger σ} {actions : List Action}
    (run : Reaches setup (.start setup ledger) actions state) :
    actions.count .interrupt ≤ actions.count .signal := by
  have taken := run.signals_eq
  have none : (State.start setup ledger).signals = 0 := rfl
  omega

/-- When the only signal of a run was taken, none is taken later. -/
theorem Reaches.uncut_of_single {ledger : Ledger σ} {before after : List Action}
    (run : Reaches setup (.start setup ledger) (before ++ .interrupt :: after) state)
    (single : (before ++ .interrupt :: after).count .signal ≤ 1) : .interrupt ∉ after := by
  have taken := Nat.le_trans run.interrupts_le single
  rw [List.count_append, List.count_cons_self] at taken
  exact List.count_eq_zero.mp (by omega)

/-- A signal ends listening, or the wait for the invocations. -/
theorem Transition.interrupted_or_ending (case : Transition setup state .interrupt next) :
    next.phase.why? = some .interrupted ∨ next.phase.isEnding = true := by
  cases case with
  | interruptListening => exact Or.inl rfl
  | interruptDraining => exact Or.inr (State.isEnding_cutShort _)

theorem Reaches.ending {later : State σ} {more : List Action} (run : Reaches setup state more later)
    (ending : state.phase.isEnding = true) : later.phase.isEnding = true :=
  run.invariant Transition.isEnding ending

theorem Reaches.interrupted_or_ending {later : State σ} {more : List Action}
    (run : Reaches setup state more later) (taken : .interrupt ∈ more) :
    later.phase.why? = some .interrupted ∨ later.phase.isEnding = true := by
  induction run with
  | refl => contradiction
  | next step rest ih =>
    rcases List.mem_cons.mp taken with rfl | behind
    · rcases (Transition.of_step step).interrupted_or_ending with stopped | ending
      · exact Or.inl (rest.of_stopped stopped).1
      · exact Or.inr (rest.ending ending)
    · exact ih behind

end Signals

/-- After some actions an action ends listening. -/
structure EndsListening (setup : Setup) (first : State σ) (before : List Action) (action : Action)
    (stop : State σ) : Prop where
  listened : ∃ last, Reaches setup first before last ∧ last.phase.isOpen = true ∧
    last.step? setup action = some stop
  closed : stop.phase.isOpen = false

/-- Listening ends with a deadline for the invocations, and by a signal exactly when one is
taken. -/
theorem Transition.draining_of_stop (case : Transition setup state action next)
    (listens : state.phase.isOpen = true) (closed : next.phase.isOpen = false) :
    ∃ why, next.phase = .draining why (next.clock + setup.settings.drain) ∧
      (why = .interrupted ↔ action = .interrupt) := by
  cases case with
  | advance | signal | join | fetch | analyze | crash | deliver | abort | record =>
    cases listens.symm.trans closed
  | acquire | readHash => contradiction
  | interruptListening => exact ⟨.interrupted, rfl, by simp⟩
  | @readFault cause => exact ⟨.transport cause.message, rfl, by simp⟩
  | readEnd => exact ⟨.closed, rfl, by simp⟩
  | interruptDraining _ phase | expire phase | settleDraining phase | settleAborting phase
  | finish phase =>
    rw [phase] at listens
    contradiction

namespace EndsListening

variable {first stop : State σ} {before : List Action}

theorem reaches (ends : EndsListening setup first before action stop) :
    Reaches setup first (before ++ [action]) stop := by
  obtain ⟨last, listened, _, step⟩ := ends.listened
  exact listened.trans (.next step (.refl _))

theorem draining (ends : EndsListening setup first before action stop) :
    ∃ why, stop.phase = .draining why (stop.clock + setup.settings.drain) ∧
      (why = .interrupted ↔ action = .interrupt) := by
  obtain ⟨last, _, listens, step⟩ := ends.listened
  exact (Transition.of_step step).draining_of_stop listens ends.closed

end EndsListening

/-- A run that has ended listening did so at some point. -/
theorem Reaches.exists_endsListening {later : State σ} {more : List Action}
    (run : Reaches setup state more later) (listens : state.phase.isOpen = true)
    (closed : later.phase.isOpen = false) :
    ∃ before action after stop, more = before ++ action :: after ∧
      EndsListening setup state before action stop ∧ Reaches setup stop after later := by
  induction run with
  | refl =>
    rw [listens] at closed
    contradiction
  | @next first second _ action actions step rest ih =>
    cases still : second.phase.isOpen with
    | false =>
      have ends : EndsListening setup first [] action second :=
        ⟨⟨first, .refl _, listens, step⟩, still⟩
      exact ⟨[], action, actions, second, rfl, ends, rest⟩
    | true =>
      obtain ⟨before, stopping, after, stop, rfl, ends, drained⟩ := ih still closed
      obtain ⟨last, listened, opened, stops⟩ := ends.listened
      have later : EndsListening setup first (action :: before) stopping stop :=
        ⟨⟨last, .next step listened, opened, stops⟩, ends.closed⟩
      exact ⟨action :: before, stopping, after, stop, rfl, later, drained⟩

/-- Patience ends with a signal, or when the deadline has passed. -/
theorem Transition.patient {deadline : Nat} (case : Transition setup state action next)
    (patient : state.phase.Patient deadline) :
    next.phase.Patient deadline ∨ action = .interrupt ∨ deadline ≤ next.clock := by
  cases case with
  | advance | signal | join | fetch | analyze | crash | deliver | abort | record =>
    exact Or.inl patient
  | interruptListening | interruptDraining => exact Or.inr (Or.inl rfl)
  | settleDraining => exact Or.inl rfl
  | expire phase due =>
    rw [phase, Phase.Patient] at patient
    exact Or.inr (Or.inr (patient ▸ due))
  | finish phase =>
    rw [phase] at patient
    exact Or.inl patient
  | acquire phase | readHash phase | readFault phase | readEnd phase | settleAborting phase =>
    rw [phase] at patient
    contradiction

theorem Reaches.patient {deadline : Nat} {later : State σ} {more : List Action}
    (run : Reaches setup state more later) (patient : state.phase.Patient deadline) :
    later.phase.Patient deadline ∨ .interrupt ∈ more ∨ deadline ≤ later.clock := by
  induction run with
  | refl => exact Or.inl patient
  | next step rest ih =>
    rcases (Transition.of_step step).patient patient with still | rfl | due
    · exact (ih still).imp_right (Or.imp_left (List.mem_cons_of_mem _))
    · exact Or.inr (Or.inl List.mem_cons_self)
    · exact Or.inr (Or.inr (Nat.le_trans due rest.clock_le))

/-- With nothing to cut the wait short, no invocation is aborted before the deadline. -/
theorem Reaches.none_aborted {ledger : Ledger σ} {actions more : List Action} {deadline : Nat}
    {later : State σ} (run : Reaches setup (.start setup ledger) actions state)
    (patient : state.phase.Patient deadline) (behind : Reaches setup state more later)
    (uncut : .interrupt ∉ more) (early : later.clock < deadline) :
    later.endedBy .aborted = [] := by
  have tallies := (run.trans behind).tallies (State.attended_start _) (State.tallies_start _)
  rcases behind.patient patient with still | cut | due
  · exact tallies.none_aborted_of_patient still
  · exact absurd cut uncut
  · exact absurd due (Nat.not_le_of_lt early)

/-- However many signals there are, invocations are aborted when the time for them has passed since
listening ended, or when a signal is taken after that. -/
theorem EndsListening.aborted_in_time {ledger : Ledger σ} {before after : List Action}
    {stop : State σ} (ends : EndsListening setup (.start setup ledger) before action stop)
    (drained : Reaches setup stop after state) (aborted : state.endedBy .aborted ≠ []) :
    stop.clock + setup.settings.drain ≤ state.clock ∨ .interrupt ∈ after := by
  obtain ⟨why, draining, _⟩ := ends.draining
  have patient : stop.phase.Patient (stop.clock + setup.settings.drain) := by
    rw [draining]
    rfl
  by_contra! early
  exact aborted (ends.reaches.none_aborted patient drained early.2 early.1)

/-- When the only signal of a run ended listening, none cuts the wait for the invocations short. -/
theorem Reaches.uncut_of_interrupted {ledger : Ledger σ} {actions more : List Action}
    {deadline : Nat} {later : State σ} (run : Reaches setup (.start setup ledger) actions state)
    (draining : state.phase = .draining .interrupted deadline)
    (behind : Reaches setup state more later) (single : (actions ++ more).count .signal ≤ 1) :
    .interrupt ∉ more := by
  obtain ⟨before, action, after, stop, rfl, ends, drained⟩ :=
    run.exists_endsListening rfl (by rw [draining]; rfl)
  obtain ⟨why, stopped, byAction⟩ := ends.draining
  obtain ⟨reason, _⟩ := drained.of_stopped (by rw [stopped]; rfl)
  rw [draining] at reason
  obtain rfl := byAction.mp (Option.some.inj reason).symm
  have whole := run.trans behind
  rw [List.append_assoc, List.cons_append] at whole single
  intro cut
  exact whole.uncut_of_single single (List.mem_append_right _ cut)

/-- A signal that is there while invocations are waited for can abort one at once. -/
theorem State.aborts_at_once {why : Termination} {deadline : Nat} (attended : state.Attended setup)
    (draining : state.phase = .draining why deadline) (pending : 0 < state.signals)
    (running : 0 < runningCount state.invocations) :
    ∃ index later, Reaches setup state [.interrupt, .abort index] later ∧
      later.clock = state.clock ∧ later.endedBy .aborted ≠ [] := by
  obtain ⟨before, invocation, after, split, stage⟩ := exists_running running
  have waited : state.unjoined ≠ 0 := attended.unjoined_of_running (by simp [split]) stage
  let taken : State σ := { state with signals := state.signals - 1 }
  have cut : Transition setup state .interrupt (taken.cutShort why) :=
    .interruptDraining pending draining
  have aborting : (taken.cutShort why).phase = .aborting why state.unjoined := if_neg waited
  have aborted : Transition setup (taken.cutShort why) (.abort before.length) _ :=
    .abort split aborting stage
  refine ⟨before.length, _, .next cut.possible (.next aborted.possible (.refl _)), rfl, ?_⟩
  apply List.ne_nil_of_mem
  exact State.mem_endedBy.mpr ⟨List.mem_append_right _ List.mem_cons_self, rfl⟩

/-- While the loop waits for the invocations, and was not stopped by a signal, none was taken. -/
theorem Reaches.no_interrupt {ledger : Ledger σ} {actions : List Action} {why : Termination}
    {deadline : Nat} (run : Reaches setup (.start setup ledger) actions state)
    (draining : state.phase = .draining why deadline) (other : why ≠ .interrupted) :
    .interrupt ∉ actions := by
  intro taken
  rcases run.interrupted_or_ending taken with stopped | ending
  · rw [draining] at stopped
    exact other (Option.some.inj stopped)
  · rw [draining] at ending
    contradiction

/-- A signal that is still to come, or to be taken, aborts an invocation before the deadline. -/
theorem Reaches.exists_abort {ledger : Ledger σ} {actions : List Action} {why : Termination}
    {deadline : Nat} (run : Reaches setup (.start setup ledger) actions state)
    (single : actions.count .signal ≤ 1) (draining : state.phase = .draining why deadline)
    (running : 0 < runningCount state.invocations) (other : why ≠ .interrupted) :
    ∃ more later, Reaches setup state more later ∧ (actions ++ more).count .signal ≤ 1 ∧
      later.clock = state.clock ∧ later.endedBy .aborted ≠ [] := by
  have untaken : actions.count .interrupt = 0 :=
    List.count_eq_zero.mpr (run.no_interrupt draining other)
  have signals : (State.start setup ledger).signals + actions.count .signal =
      state.signals + actions.count .interrupt := run.signals_eq
  have none : (State.start setup ledger).signals = 0 := rfl
  by_cases quiet : state.signals = 0
  · let signalled : State σ := { state with signals := state.signals + 1 }
    have arrives : Transition setup state .signal signalled := .signal
    have attended := arrives.attended run.attended
    obtain ⟨index, later, cut, clock, aborted⟩ :=
      State.aborts_at_once attended draining (Nat.succ_pos _) running
    refine ⟨_, later, .next arrives.possible cut, ?_, clock, aborted⟩
    rw [List.count_append]
    have one : [Action.signal, .interrupt, .abort index].count .signal = 1 := rfl
    omega
  · obtain ⟨index, later, cut, clock, aborted⟩ :=
      State.aborts_at_once run.attended draining (Nat.pos_of_ne_zero quiet) running
    refine ⟨_, later, cut, ?_, clock, aborted⟩
    rw [List.count_append]
    have zero : [Action.interrupt, .abort index].count .signal = 0 := rfl
    omega

/-- When the run has returned, the event of an invocation that was not aborted is recorded. -/
theorem State.Conserves.recorded_of_returned {base : Ledger σ}
    (conserves : state.Conserves setup base) (returned : state.phase.isReturned = true)
    {invocation : Invocation} {event : Event} (member : invocation ∈ state.invocations)
    (kept : invocation.stage ≠ .ended .aborted) (yields : setup.event? invocation = some event) :
    event ∈ state.recorded.map Prod.snd := by
  have settled := Phase.isSettled_of_isReturned returned
  obtain ⟨ending, stage⟩ := Stage.isEnded_iff.mp (conserves.attended.ended settled member)
  have delivered : invocation.stage.isEndedBy .delivered = true := by
    cases ending with
    | delivered => exact Stage.isEndedBy_iff.mpr stage
    | aborted => exact absurd stage kept
    | crashed =>
      have crashes := (conserves.attended.fits invocation member).crashed stage
      rw [yields] at crashes
      contradiction
  have same := conserves.delivered
  rw [conserves.drained returned, List.append_nil] at same
  exact same.mem_iff.mpr
    (List.mem_filterMap.mpr ⟨invocation, List.mem_filter.mpr ⟨member, delivered⟩, yields⟩)

/-- A run that gets one stop signal at most aborts nothing while it listens. Afterwards, whatever
ended listening, it aborts invocations only when the time for them has passed since then, or when
something else than the signal ended listening and the loop took the signal later. This is exact:
with an invocation still at work before the deadline, no order of the steps to come aborts one
early if the signal ended listening, and some order does if not. What was not aborted is recorded
before the summary. -/
theorem drain_lasts_unless_cut_by_late_signal {ledger : Ledger σ} {actions : List Action}
    (run : Reaches setup (.start setup ledger) actions state)
    (single : actions.count .signal ≤ 1) :
    (state.phase.isOpen = true → state.endedBy .aborted = []) ∧
    (state.phase.isOpen = false → ∃ before action after stop why,
      actions = before ++ action :: after ∧
      EndsListening setup (.start setup ledger) before action stop ∧
      Reaches setup stop after state ∧
      stop.phase = .draining why (stop.clock + setup.settings.drain) ∧
      state.phase.why? = some why ∧
      (state.endedBy .aborted ≠ [] → stop.clock + setup.settings.drain ≤ state.clock ∨
        (why ≠ .interrupted ∧ .interrupt ∈ after))) ∧
    (∀ why deadline, state.phase = .draining why deadline → state.clock < deadline →
      0 < runningCount state.invocations →
      (why = .interrupted ↔ ∀ more later, Reaches setup state more later →
        (actions ++ more).count .signal ≤ 1 → later.clock < deadline →
        later.endedBy .aborted = [])) ∧
    (state.phase.isReturned = true →
      (∀ invocation ∈ state.invocations, invocation.stage ≠ .ended .aborted →
        ∀ event, setup.event? invocation = some event → event ∈ state.recorded.map Prod.snd) ∧
      state.ledger = (ledger.recordAll state.recorded).finish) := by
  refine ⟨?_, ?_, ?_, ?_⟩
  · intro listens
    have tallies := run.tallies (State.attended_start _) (State.tallies_start _)
    exact tallies.none_aborted_of_open listens
  · intro closed
    obtain ⟨before, action, after, stop, rfl, ends, drained⟩ := run.exists_endsListening rfl closed
    obtain ⟨why, draining, byAction⟩ := ends.draining
    have reason : state.phase.why? = some why :=
      (drained.of_stopped (by rw [draining]; rfl)).1
    refine ⟨before, action, after, stop, why, rfl, ends, drained, draining, reason, ?_⟩
    intro aborted
    rcases ends.aborted_in_time drained aborted with due | cut
    · exact Or.inl due
    · refine Or.inr ⟨?_, cut⟩
      intro signalled
      obtain rfl := byAction.mp signalled
      exact run.uncut_of_single single cut
  · intro why deadline draining early running
    constructor
    · rintro rfl more later behind once soon
      have patient : state.phase.Patient deadline := by
        rw [draining]
        rfl
      exact run.none_aborted patient behind (run.uncut_of_interrupted draining behind once) soon
    · intro kept
      by_contra other
      obtain ⟨more, later, behind, once, clock, aborted⟩ :=
        run.exists_abort single draining running other
      exact aborted (kept more later behind once (by rwa [clock]))
  · intro returned
    have conserves := run.conserves
    have written := conserves.written
    rw [returned, if_pos rfl] at written
    exact ⟨fun invocation member kept event yields =>
      conserves.recorded_of_returned returned member kept yields, written⟩

/-- One hash is announced, and then the sequence ends. -/
def lastHash : Setup where
  settings := {}
  analyze := fun hash => ⟨some (.notFound hash), 0⟩
  feed := [.ok (.fill 32 1)]
  staysOpen := false

/-- A signal ends listening after five milliseconds, and the transaction is asked for in vain. -/
def lastHashStopped : Option (State Report.Transcript) :=
  (State.start lastHash (.new freshTranscript)).perform? lastHash
    [.acquire, .read, .fetch 0, .advance 5, .signal, .interrupt, .advance 10000, .expire, .abort 0,
      .join 0, .settle, .finish]

theorem stopped_drain_lasts :
    ∃ state actions, lastHashStopped = some state ∧
      Reaches lastHash (.start lastHash (.new freshTranscript)) actions state ∧
      actions.count .signal = 1 ∧ state.phase = .returned .interrupted 1 ∧
      state.endedBy .aborted ≠ [] ∧
      ∃ before action after stop, actions = before ++ action :: after ∧
        EndsListening lastHash (.start lastHash (.new freshTranscript)) before action stop ∧
        Reaches lastHash stop after state ∧ stop.clock + 10000 ≤ state.clock := by
  obtain ⟨state, reached⟩ : ∃ state, lastHashStopped = some state :=
    Option.isSome_iff_exists.mp (by decide +kernel)
  have run := Reaches.of_perform reached
  have phase : lastHashStopped.map (·.phase) = some (.returned .interrupted 1) := by
    decide +kernel
  have ended : lastHashStopped.map (fun state => (state.endedBy .aborted).length) = some 1 := by
    decide +kernel
  simp only [reached, Option.map_some, Option.some.injEq] at phase ended
  have aborted : state.endedBy .aborted ≠ [] := List.ne_nil_of_length_eq_add_one ended
  obtain ⟨_, drains, _⟩ := drain_lasts_unless_cut_by_late_signal run (by decide)
  obtain ⟨before, action, after, stop, why, split, ends, drained, _, reason, bound⟩ :=
    drains (by rw [phase]; rfl)
  rw [phase] at reason
  obtain rfl := Option.some.inj reason
  have due : stop.clock + 10000 ≤ state.clock :=
    (bound aborted).resolve_right fun ⟨other, _⟩ => other rfl
  exact ⟨state, _, reached, run, by decide, phase, aborted, before, action, after, stop, split,
    ends, drained, due⟩

/-- The transaction is asked for before the end of the sequence is read. -/
def lastHashAsked : Option (State Report.Transcript) :=
  (State.start lastHash (.new freshTranscript)).perform? lastHash
    [.acquire, .read, .fetch 0, .acquire]

def lastHashClosed : Option (State Report.Transcript) :=
  lastHashAsked.bind (·.step? lastHash .read)

/-- The answer comes after a tenth of a second, and no signal before it. -/
def lastHashAnswered : Option (State Report.Transcript) :=
  lastHashClosed.bind (State.perform? lastHash
    [.advance 100, .analyze 0, .deliver 0, .join 0, .settle, .record ⟨0, 0, 0, 0⟩, .finish])

/-- The first signal of the run comes before the answer. -/
def lastHashCut : Option (State Report.Transcript) :=
  lastHashClosed.bind (State.perform? lastHash
    [.advance 50, .signal, .interrupt, .abort 0, .join 0, .settle, .finish])

/-- An answer that comes long before the deadline is recorded, unless the only signal of the run
comes before it when the sequence has already ended. -/
theorem late_signal_aborts_answer :
    ∃ stop answered cut : State Report.Transcript,
      EndsListening lastHash (.start lastHash (.new freshTranscript))
        [.acquire, .read, .fetch 0, .acquire] .read stop ∧
      stop.clock = 0 ∧ stop.phase = .draining .closed 10000 ∧
      (∃ after, Reaches lastHash stop after answered ∧ after.count .signal = 0 ∧
        answered.clock = 100 ∧ answered.phase = .returned .closed 0 ∧
        answered.recorded.map Prod.snd = [.notFound (.fill 32 1)]) ∧
      ∃ after, Reaches lastHash stop after cut ∧ after.count .signal = 1 ∧
        cut.clock = 50 ∧ cut.phase = .returned .closed 1 ∧ cut.endedBy .aborted ≠ [] ∧
        cut.recorded = [] := by
  obtain ⟨asked, heard⟩ : ∃ state, lastHashAsked = some state :=
    Option.isSome_iff_exists.mp (by decide +kernel)
  obtain ⟨stop, closed⟩ : ∃ state, lastHashClosed = some state :=
    Option.isSome_iff_exists.mp (by decide +kernel)
  obtain ⟨answered, full⟩ : ∃ state, lastHashAnswered = some state :=
    Option.isSome_iff_exists.mp (by decide +kernel)
  obtain ⟨cut, short⟩ : ∃ state, lastHashCut = some state :=
    Option.isSome_iff_exists.mp (by decide +kernel)
  have listens : lastHashAsked.map (·.phase.isOpen) = some true := by decide +kernel
  have stops : lastHashClosed.map (fun state => (state.clock, state.phase)) =
      some (0, .draining .closed 10000) := by decide +kernel
  have answers : lastHashAnswered.map (fun state => (state.clock, state.phase)) =
      some (100, .returned .closed 0) := by decide +kernel
  have records : lastHashAnswered.map (·.recorded.map Prod.snd) =
      some [.notFound (.fill 32 1)] := by rfl
  have cuts : lastHashCut.map (fun state =>
      (state.clock, state.phase, (state.endedBy .aborted).length)) =
      some (50, .returned .closed 1, 1) := by decide +kernel
  have nothing : lastHashCut.map (·.recorded) = some [] := by rfl
  simp only [heard, closed, full, short, Option.map_some, Option.some.injEq, Prod.mk.injEq]
    at listens stops answers records cuts nothing
  have step : asked.step? lastHash .read = some stop := by
    rwa [lastHashClosed, heard, Option.bind_some] at closed
  have ends : EndsListening lastHash (.start lastHash (.new freshTranscript))
      [.acquire, .read, .fetch 0, .acquire] .read stop :=
    ⟨⟨asked, .of_perform heard, listens, step⟩, by rw [stops.2]; rfl⟩
  have aborted : cut.endedBy .aborted ≠ [] := List.ne_nil_of_length_eq_add_one cuts.2.2
  rw [lastHashAnswered, closed, Option.bind_some] at full
  rw [lastHashCut, closed, Option.bind_some] at short
  exact ⟨stop, answered, cut, ends, stops.1, stops.2,
    ⟨_, .of_perform full, by decide, answers.1, answers.2, records⟩,
    _, .of_perform short, by decide, cuts.1, cuts.2.1, aborted, nothing⟩

end MempoolWatch.Pipeline

import MempoolWatch.Proofs.Pipeline.Drain
import MempoolWatch.Proofs.Report.Limit
import MempoolWatch.Proofs.Report.StatusLine

/-! One permit. An invocation holds it until its event is in the queue or it has crashed, and only
then is the next hash read, so that all invocations but the last are over and the events follow
each other in the order in which the hashes were read. The report is written in the order of the
events, so that its lines and blocks are in this order as well. -/
namespace MempoolWatch

namespace Report

/-- The analysed transaction that an entry is about. -/
def Entry.report? : Entry → Option TxReport
  | transaction _ report | opportunities _ _ _ report => some report
  | _ => none

end Report

namespace Ledger

open Report

/-- The transactions that the entries about an event name: its own for a line, and once more for a
block. -/
def mentions (display : Display) : Event → List TxReport
  | .analyzed report =>
    (if display.showAll then [report] else []) ++
      if report.opportunities.isEmpty then [] else [report]
  | .notFound _ | .failed _ _ => []

theorem filterMap_report?_apart (shown : Bool) (entry : Entry) :
    (entry.apart shown).filterMap Entry.report? = entry.report?.toList := by
  cases shown <;> cases entry <;> rfl

theorem filterMap_report?_entriesAbout (display : Display) (shown : Bool) (stats : Statistics)
    (time : TimeOfDay) (event : Event) :
    (entriesAbout display shown stats time event).filterMap Entry.report? =
      mentions display event := by
  cases event with
  | analyzed report =>
    rw [entriesAbout, mentions, List.filterMap_append]
    congr 1
    · split <;> rfl
    · split
      · rfl
      · exact filterMap_report?_apart shown _
  | notFound hash | failed hash reason => rfl

theorem filterMap_report?_record (ledger : Ledger Transcript) (time : TimeOfDay) (event : Event) :
    (ledger.record time event).reporter.sink.filterMap Entry.report? =
      ledger.reporter.sink.filterMap Entry.report? ++ mentions ledger.reporter.display event := by
  rw [sink_record, List.filterMap_append, List.filterMap_append, filterMap_report?_entriesAbout]
  split
  · exact congrArg _ (List.append_nil _)
  · exact congrArg _ (List.append_nil _)

theorem filterMap_report?_recordAll (ledger : Ledger Transcript)
    (events : List (TimeOfDay × Event)) :
    (ledger.recordAll events).reporter.sink.filterMap Entry.report? =
      ledger.reporter.sink.filterMap Entry.report? ++
        (events.map Prod.snd).flatMap (mentions ledger.reporter.display) := by
  induction events generalizing ledger with
  | nil => exact (List.append_nil _).symm
  | cons recorded rest ih =>
    obtain ⟨time, event⟩ := recorded
    refine (ih (ledger.record time event)).trans ?_
    rw [filterMap_report?_record, display_record, List.append_assoc]
    rfl

/-- The lines and blocks of a report are about the events in the order of their recording. -/
theorem filterMap_report?_reportOf (display : Display) (events : List (TimeOfDay × Event)) :
    (reportOf display events).filterMap Entry.report? =
      (events.map Prod.snd).flatMap (mentions display) := by
  rw [reportOf, sink_finish, List.filterMap_append, filterMap_report?_apart]
  exact (List.append_nil _).trans (filterMap_report?_recordAll _ events)

end Ledger

namespace Pipeline

/-- The invocation has come to an end of its own: its event is in the queue, or it has crashed. -/
def Invocation.IsOver (invocation : Invocation) : Prop :=
  invocation.stage = .ended .delivered ∨ invocation.stage = .ended .crashed

theorem Invocation.IsOver.isEnded {invocation : Invocation} (isOver : invocation.IsOver) :
    invocation.stage.isEnded = true := by
  obtain stage | stage := isOver <;> rw [stage] <;> rfl

variable {σ : Type} {setup : Setup} {state next : State σ} {action : Action}

/-- Every invocation but the last is over, and the events come in the order of the invocations. -/
structure State.InTurn (setup : Setup) (state : State σ) : Prop where
  earlierOver : ∀ invocation ∈ state.invocations.dropLast, invocation.IsOver
  inOrder : state.recorded.map Prod.snd ++ state.queue = deliveredEvents setup state.invocations

theorem State.inTurn_start (ledger : Ledger σ) : (State.start setup ledger).InTurn setup :=
  ⟨fun _ member => absurd member List.not_mem_nil, rfl⟩

/-- An invocation that runs is the last one. -/
theorem State.InTurn.eq_nil_of_running {before after : List Invocation} {invocation : Invocation}
    (inTurn : state.InTurn setup) (split : state.invocations = before ++ invocation :: after)
    (running : invocation.stage.isEnded = false) : after = [] := by
  by_contra later
  have member : invocation ∈ state.invocations.dropLast := by
    rw [split, List.dropLast_append_of_ne_nil (List.cons_ne_nil _ _),
      List.dropLast_cons_of_ne_nil later]
    simp
  have ended := (inTurn.earlierOver invocation member).isEnded
  rw [running] at ended
  contradiction

/-- While the loop holds the only permit all invocations are over. -/
theorem State.Balanced.all_over (balanced : state.Balanced setup)
    (single : setup.settings.permits = 1) (listening : state.phase = .listening)
    (none : state.endedBy .aborted = []) :
    ∀ invocation ∈ state.invocations, invocation.IsOver := by
  have permits := balanced.permits
  rw [listening, single, Phase.heldPermits] at permits
  have ended := runningCount_eq_zero_iff.mp (by omega : runningCount state.invocations = 0)
  intro invocation member
  obtain ⟨ending, stage⟩ := Stage.isEnded_iff.mp (ended invocation member)
  cases ending with
  | delivered => exact Or.inl stage
  | crashed => exact Or.inr stage
  | aborted =>
    have aborted := State.mem_endedBy.mpr ⟨member, stage⟩
    rw [none] at aborted
    cases aborted

/-- A step is about an invocation that runs, or notices an end. -/
theorem Progress.notices_or_running {invocation replacement : Invocation}
    (goes : Progress setup invocation replacement) :
    replacement.stage = invocation.stage ∨ invocation.stage.isEnded = false := by
  cases goes with
  | notice ended => exact Or.inl rfl
  | fetch time spawned => exact Or.inr (by rw [spawned]; rfl)
  | analyze running yields => exact Or.inr running
  | crash running crashes => exact Or.inr running
  | deliver sending => exact Or.inr (by rw [sending]; rfl)
  | abort running => exact Or.inr running

variable [Report.Sink σ]

theorem Transition.earlierOver (case : Transition setup state action next)
    (inTurn : state.InTurn setup)
    (idle : state.phase = .listening → ∀ invocation ∈ state.invocations, invocation.IsOver) :
    ∀ invocation ∈ next.invocations.dropLast, invocation.IsOver := by
  obtain same | ⟨listening, _, hash, spawned⟩ |
      ⟨before, invocation, after, replacement, split, changed, goes⟩ := case.invocations_cases
  · rw [same]
    exact inTurn.earlierOver
  · rw [spawned, List.dropLast_concat]
    exact idle listening
  · have isOver := inTurn.earlierOver
    rw [changed]
    rw [split] at isOver
    by_cases last : after = []
    · rw [last, List.dropLast_concat] at isOver ⊢
      exact isOver
    · have same : replacement.stage = invocation.stage :=
        goes.notices_or_running.resolve_right fun running =>
          last (inTurn.eq_nil_of_running split running)
      rw [List.dropLast_append_of_ne_nil (List.cons_ne_nil _ _),
        List.dropLast_cons_of_ne_nil last, List.forall_mem_append, List.forall_mem_cons] at isOver ⊢
      refine ⟨isOver.1, ?_, isOver.2.2⟩
      unfold Invocation.IsOver
      rw [same]
      exact isOver.2.1

theorem Transition.inOrder (case : Transition setup state action next)
    (attended : state.Attended setup) (inTurn : state.InTurn setup) :
    next.recorded.map Prod.snd ++ next.queue = deliveredEvents setup next.invocations := by
  obtain ⟨events, delivered⟩ | ⟨before, invocation, after, event, split, changed, running, yields,
    events⟩ := case.events_cases attended
  · rw [events, delivered]
    exact inTurn.inOrder
  · obtain rfl := inTurn.eq_nil_of_running split running
    have delivered : deliveredEvents setup [invocation.atStage (.ended .delivered)] = [event] := by
      simp [deliveredEvents, yields]
    rw [events, changed, inTurn.inOrder, split, deliveredEvents_append, deliveredEvents_append,
      deliveredEvents_other (Stage.isEndedBy_of_running running .delivered), List.append_nil,
      delivered]

theorem Reaches.inTurn {ledger : Ledger σ} {actions : List Action}
    (single : setup.settings.permits = 1)
    (run : Reaches setup (.start setup ledger) actions state) : state.InTurn setup := by
  let kept : State σ → Prop := fun state =>
    state.InTurn setup ∧ state.Balanced setup ∧ state.Attended setup ∧
      ∃ overlooked, state.Tallies overlooked
  have start : kept (.start setup ledger) :=
    ⟨State.inTurn_start ledger, .start ledger, State.attended_start ledger, 0,
      State.tallies_start ledger⟩
  have all : kept state := by
    refine run.invariant ?_ start
    rintro state next action case ⟨inTurn, balanced, attended, overlooked, tallies⟩
    have idle (listening : state.phase = .listening) :
        ∀ invocation ∈ state.invocations, invocation.IsOver :=
      balanced.all_over single listening (tallies.none_aborted_of_open (by rw [listening]; rfl))
    exact ⟨⟨case.earlierOver inTurn idle, case.inOrder attended inTurn⟩, case.balanced balanced,
      case.attended attended, _, case.tallies attended tallies⟩
  exact all.1

omit [Report.Sink σ] in
/-- Of invocations that are over, those that crashed have no event. -/
theorem deliveredEvents_of_over {invocations : List Invocation}
    (fits : ∀ invocation ∈ invocations, invocation.Fits setup)
    (isOver : ∀ invocation ∈ invocations, invocation.IsOver) :
    deliveredEvents setup invocations = invocations.filterMap setup.event? := by
  induction invocations with
  | nil => rfl
  | cons invocation rest ih =>
    rw [List.forall_mem_cons] at fits isOver
    rw [← List.singleton_append, deliveredEvents_append, List.filterMap_append, ih fits.2 isOver.2]
    congr 1
    obtain stage | stage := isOver.1
    · simp [deliveredEvents, stage]
    · rw [deliveredEvents_other (by rw [stage]; rfl), List.filterMap_cons, fits.1.crashed stage]
      rfl

/-- A transaction is asked for when all earlier invocations are over, with their events in the
queue or recorded. -/
theorem State.InTurn.of_fetch {index : Nat} (inTurn : state.InTurn setup)
    (attended : state.Attended setup) (step : state.step? setup (.fetch index) = some next) :
    (∀ earlier ∈ state.invocations.take index, earlier.IsOver) ∧
      state.recorded.map Prod.snd ++ state.queue =
        (state.hashes.take index).filterMap fun hash => (setup.analyze hash).event? := by
  cases Transition.of_step step with
  | @fetch before after invocation split spawned =>
    have running : invocation.stage.isEnded = false := by rw [spawned]; rfl
    obtain rfl := inTurn.eq_nil_of_running split running
    have isOver : ∀ earlier ∈ before, earlier.IsOver := by
      have isOver := inTurn.earlierOver
      rwa [split, List.dropLast_concat] at isOver
    have taken : state.invocations.take before.length = before := by
      rw [split, List.take_left]
    constructor
    · rwa [taken]
    · rw [inTurn.inOrder, State.hashes, ← List.map_take, taken, List.filterMap_map, split,
        deliveredEvents_append,
        deliveredEvents_other (Stage.isEndedBy_of_running running .delivered), List.append_nil]
      refine deliveredEvents_of_over (fun earlier member => attended.fits earlier ?_) isOver
      rw [split]
      exact List.mem_append_left _ member

/-- With one permit, which the settings make of none, the events are recorded in the order in which
their hashes were read: those of the crashed and the aborted invocations are missing and nothing
else is. No transaction is asked for before every earlier invocation has put its event into the
queue or has crashed. When the run has returned, the lines and blocks of its report are about the
transactions in the same order. -/
theorem single_permit_keeps_order {sink : σ} {display : Report.Display} {actions : List Action}
    (single : setup.settings.maxInFlight ≤ 1)
    (run : Reaches setup (.start setup (.new (.new display sink))) actions state) :
    (∃ items, setup.feed = items ++ state.unread ∧
      state.hashes = items.filterMap Except.toOption) ∧
    state.recorded.map Prod.snd ++ state.queue =
      (state.endedBy .delivered).filterMap setup.event? ∧
    (∀ index next, state.step? setup (.fetch index) = some next →
      (∀ earlier ∈ state.invocations.take index,
        earlier.stage = .ended .delivered ∨ earlier.stage = .ended .crashed) ∧
      state.recorded.map Prod.snd ++ state.queue =
        (state.hashes.take index).filterMap fun hash => (setup.analyze hash).event?) ∧
    (∀ why aborted, state.phase = .returned why aborted →
      (∀ invocation ∈ state.invocations, invocation.stage = .ended .delivered ∨
        invocation.stage = .ended .crashed ∨ invocation.stage = .ended .aborted) ∧
      state.recorded.map Prod.snd = (state.endedBy .delivered).filterMap setup.event? ∧
      (Ledger.reportOf display state.recorded).filterMap Report.Entry.report? =
        ((state.endedBy .delivered).filterMap setup.event?).flatMap (Ledger.mentions display) ∧
      (Report.Sink.FailsForGood sink → state.ledger.reporter.sink =
        Report.Sink.putAll sink (Ledger.reportOf display state.recorded))) := by
  have permits : setup.settings.permits = 1 := Nat.max_eq_left single
  have inTurn := run.inTurn permits
  have conserves := run.conserves
  refine ⟨run.reads, inTurn.inOrder, fun index next step => ?_, fun why aborted returned => ?_⟩
  · exact inTurn.of_fetch conserves.attended step
  · have finished : state.phase.isReturned = true := by rw [returned]; rfl
    have settled : state.phase.isSettled = true := by rw [returned]; rfl
    have recorded : state.recorded.map Prod.snd =
        (state.endedBy .delivered).filterMap setup.event? := by
      have events := inTurn.inOrder
      rwa [conserves.drained finished, List.append_nil] at events
    refine ⟨fun invocation member => ?_, recorded, ?_, fun fails => ?_⟩
    · obtain ⟨ending, stage⟩ := Stage.isEnded_iff.mp (conserves.attended.ended settled member)
      rw [stage]
      cases ending <;> simp
    · rw [Ledger.filterMap_report?_reportOf, recorded]
    · rw [conserves.written, if_pos finished]
      exact Ledger.sink_finish_recordAll_new fails display state.recorded

/-- Four hashes and no permits: the analysis of the second one crashes, and the third transaction
is gone. -/
def fourHashes : Setup where
  settings := { maxInFlight := 0, queueCapacity := 2 }
  analyze := fun hash =>
    if hash = .fill 32 2 then ⟨none, 0⟩
    else if hash = .fill 32 3 then ⟨some (.notFound hash), 0⟩
    else ⟨some (.analyzed (Ledger.swapReport [Ledger.smallProfit])), 0⟩
  feed := [.ok (.fill 32 1), .ok (.fill 32 2), .ok (.fill 32 3), .ok (.fill 32 4)]
  staysOpen := true

/-- The fourth invocation is aborted by the second of two signals, and the writer has waited for
the end. -/
def fourHashesEnd : Option (State Report.Transcript) :=
  (State.start fourHashes (.new freshTranscript)).perform? fourHashes
    [.acquire, .read, .fetch 0, .analyze 0, .deliver 0, .acquire, .read, .fetch 1, .analyze 1,
      .acquire, .read, .fetch 2, .analyze 2, .deliver 2, .acquire, .read, .fetch 3, .signal,
      .signal, .interrupt, .interrupt, .abort 3, .join 2, .join 3, .join 0, .join 1, .settle,
      .record ⟨0, 0, 0, 1⟩, .record ⟨0, 0, 0, 2⟩, .finish]

theorem single_permit_keeps_order_of_fourHashes :
    ∃ state actions, fourHashesEnd = some state ∧ fourHashes.settings.maxInFlight ≤ 1 ∧
      Reaches fourHashes (.start fourHashes (.new freshTranscript)) actions state ∧
      state.phase = .returned .interrupted 4 ∧
      (state.endedBy .delivered).map (·.hash) = [.fill 32 1, .fill 32 3] ∧
      state.recorded.map Prod.snd = (state.endedBy .delivered).filterMap fourHashes.event? ∧
      (Ledger.reportOf {} state.recorded).filterMap Report.Entry.report? =
        ((state.endedBy .delivered).filterMap fourHashes.event?).flatMap (Ledger.mentions {}) := by
  obtain ⟨state, reached⟩ : ∃ state, fourHashesEnd = some state :=
    Option.isSome_iff_exists.mp (by decide +kernel)
  have single : fourHashes.settings.maxInFlight ≤ 1 := by decide
  have run := Reaches.of_perform reached
  have returned : fourHashesEnd.map (·.phase) = some (.returned .interrupted 4) := by
    decide +kernel
  have delivered : fourHashesEnd.map (fun state => (state.endedBy .delivered).map (·.hash)) =
      some [.fill 32 1, .fill 32 3] := by decide +kernel
  simp only [reached, Option.map_some, Option.some.injEq] at returned delivered
  obtain ⟨_, _, _, ended⟩ := single_permit_keeps_order single run
  obtain ⟨_, recorded, mentioned, _⟩ := ended _ _ returned
  exact ⟨state, _, reached, single, run, returned, delivered, recorded, mentioned⟩

end Pipeline

end MempoolWatch

import MempoolWatch.Proofs.Pipeline.Reading
import MempoolWatch.Proofs.Pipeline.Schedule

/-! Exactly-once delivery. The events that were recorded or wait in the queue are
those of the delivered invocations, one for each; and the ledger is the one that
records them in their order, to which the summary is added when the run returns. -/
namespace MempoolWatch.Pipeline

/-- The run is over. -/
def Phase.isReturned : Phase → Bool
  | .returned _ _ => true
  | _ => false

theorem Phase.isSettled_of_isReturned {phase : Phase} (returned : phase.isReturned = true) :
    phase.isSettled = true := by
  cases phase <;> first | rfl | contradiction

/-- The events of the delivered ones among invocations. -/
def deliveredEvents (setup : Setup) (invocations : List Invocation) : List Event :=
  (invocations.filter (·.stage.isEndedBy .delivered)).filterMap setup.event?

section Delivered

variable {setup : Setup} {before after : List Invocation} {invocation replacement : Invocation}

theorem deliveredEvents_append (front back : List Invocation) :
    deliveredEvents setup (front ++ back) =
      deliveredEvents setup front ++ deliveredEvents setup back := by
  simp only [deliveredEvents, List.filter_append, List.filterMap_append]

theorem deliveredEvents_split :
    deliveredEvents setup (before ++ invocation :: after) =
      deliveredEvents setup before ++ deliveredEvents setup [invocation] ++
        deliveredEvents setup after := by
  rw [← deliveredEvents_append, ← deliveredEvents_append, List.append_assoc,
    List.singleton_append]

theorem deliveredEvents_other (other : invocation.stage.isEndedBy .delivered = false) :
    deliveredEvents setup [invocation] = [] := by
  simp only [deliveredEvents, List.filter_cons, other, Bool.false_eq_true, if_false,
    List.filter_nil, List.filterMap_nil]

theorem deliveredEvents_replaced
    (same : deliveredEvents setup [replacement] = deliveredEvents setup [invocation]) :
    deliveredEvents setup (before ++ replacement :: after) =
      deliveredEvents setup (before ++ invocation :: after) := by
  rw [deliveredEvents_split, deliveredEvents_split, same]

theorem deliveredEvents_noticed :
    deliveredEvents setup [invocation.noticed] = deliveredEvents setup [invocation] := by
  cases delivered : invocation.stage.isEndedBy .delivered <;>
    simp [deliveredEvents, delivered, List.filterMap_cons]

/-- An invocation that did not deliver and does not now leaves the events as they are. -/
theorem deliveredEvents_kept (running : invocation.stage.isEnded = false)
    (other : replacement.stage.isEndedBy .delivered = false) :
    deliveredEvents setup (before ++ replacement :: after) =
      deliveredEvents setup (before ++ invocation :: after) := by
  apply deliveredEvents_replaced
  rw [deliveredEvents_other other,
    deliveredEvents_other (Stage.isEndedBy_of_running running .delivered)]

theorem deliveredEvents_delivered {event : Event} (running : invocation.stage.isEnded = false)
    (yields : setup.event? invocation = some event) :
    (deliveredEvents setup (before ++ invocation :: after) ++ [event]).Perm
      (deliveredEvents setup (before ++ invocation.atStage (.ended .delivered) :: after)) := by
  have added : deliveredEvents setup [invocation.atStage (.ended .delivered)] = [event] := by
    simp [deliveredEvents, yields]
  rw [deliveredEvents_split, deliveredEvents_split, added,
    deliveredEvents_other (Stage.isEndedBy_of_running running .delivered), List.append_nil,
    List.append_assoc, List.append_assoc]
  exact (List.perm_append_comm).append_left _

end Delivered

variable {σ : Type} [Report.Sink σ] {setup : Setup} {base : Ledger σ}
  {state next : State σ} {action : Action}

/-- What was recorded or waits in the queue is what was delivered, and the ledger is
what recording made of the one at the start. -/
structure State.Conserves (setup : Setup) (base : Ledger σ) (state : State σ) : Prop where
  attended : state.Attended setup
  delivered : (state.recorded.map Prod.snd ++ state.queue).Perm
    (deliveredEvents setup state.invocations)
  drained : state.phase.isReturned = true → state.queue = []
  written : state.ledger =
    if state.phase.isReturned then (base.recordAll state.recorded).finish
    else base.recordAll state.recorded

/-- A step leaves alone the events that were recorded or wait and those that were delivered, or an
invocation that was running delivers its own. -/
theorem Transition.events_cases (case : Transition setup state action next)
    (attended : state.Attended setup) :
    (next.recorded.map Prod.snd ++ next.queue = state.recorded.map Prod.snd ++ state.queue ∧
        deliveredEvents setup next.invocations = deliveredEvents setup state.invocations) ∨
      ∃ before invocation after event, state.invocations = before ++ invocation :: after ∧
        next.invocations = before ++ invocation.atStage (.ended .delivered) :: after ∧
        invocation.stage.isEnded = false ∧ setup.event? invocation = some event ∧
        next.recorded.map Prod.snd ++ next.queue =
          state.recorded.map Prod.snd ++ state.queue ++ [event] := by
  cases case with
  | advance | signal | interruptListening | interruptDraining | acquire | readFault | readEnd
  | expire | settleDraining | settleAborting | finish => exact Or.inl ⟨rfl, rfl⟩
  | readHash =>
    refine Or.inl ⟨rfl, ?_⟩
    rw [deliveredEvents_append, deliveredEvents_other rfl, List.append_nil]
  | join split =>
    refine Or.inl ⟨rfl, ?_⟩
    rw [split, deliveredEvents_replaced deliveredEvents_noticed]
  | fetch split spawned =>
    refine Or.inl ⟨rfl, ?_⟩
    rw [split, deliveredEvents_kept (by rw [spawned]; rfl) rfl]
  | analyze split fetching | crash split fetching =>
    refine Or.inl ⟨rfl, ?_⟩
    rw [split, deliveredEvents_kept (by rw [fetching]; rfl) rfl]
  | abort split aborting running =>
    refine Or.inl ⟨rfl, ?_⟩
    rw [split, deliveredEvents_kept running rfl]
  | @deliver before after invocation event split sending =>
    have member : invocation ∈ state.invocations := by simp [split]
    have yields := (attended.fits invocation member).sending event sending
    have running : invocation.stage.isEnded = false := by rw [sending]; rfl
    exact Or.inr ⟨before, invocation, after, event, split, rfl, running, yields,
      (List.append_assoc _ _ _).symm⟩
  | record time queue =>
    refine Or.inl ⟨?_, rfl⟩
    simp [queue]

theorem Transition.delivered (case : Transition setup state action next)
    (attended : state.Attended setup)
    (same : (state.recorded.map Prod.snd ++ state.queue).Perm
      (deliveredEvents setup state.invocations)) :
    (next.recorded.map Prod.snd ++ next.queue).Perm (deliveredEvents setup next.invocations) := by
  obtain ⟨events, delivered⟩ | ⟨before, invocation, after, event, split, changed, running, yields,
    events⟩ := case.events_cases attended
  · rwa [events, delivered]
  · rw [split] at same
    rw [events, changed]
    exact (same.append_right [event]).trans (deliveredEvents_delivered running yields)

theorem Transition.drained (case : Transition setup state action next)
    (attended : state.Attended setup)
    (empty : state.phase.isReturned = true → state.queue = [])
    (returned : next.phase.isReturned = true) : next.queue = [] := by
  cases case with
  | advance | signal | join | fetch | analyze | crash | abort => exact empty returned
  | interruptListening | acquire | readHash | readFault | readEnd | settleDraining
  | settleAborting => contradiction
  | interruptDraining | expire =>
    simp only [State.cutShort] at returned
    split at returned <;> contradiction
  | @deliver before after invocation event split sending =>
    have settled : state.phase.isSettled = true := Phase.isSettled_of_isReturned returned
    have member : invocation ∈ state.invocations := by simp [split]
    have ended := attended.ended settled member
    rw [sending] at ended
    contradiction
  | record time queue =>
    rw [queue] at empty
    exact absurd (empty returned) (List.cons_ne_nil _ _)
  | finish closing queue => exact queue

theorem recordAll_concat (events : List (TimeOfDay × Event)) (time : TimeOfDay) (event : Event) :
    base.recordAll (events ++ [(time, event)]) = (base.recordAll events).record time event := by
  simp only [Ledger.recordAll, List.foldl_append, List.foldl_cons, List.foldl_nil]

/-- A step leaves the ledger alone, records the first event of the queue, or ends the
run with the summary. -/
theorem Transition.ledger_cases (case : Transition setup state action next) :
    (next.recorded = state.recorded ∧ next.ledger = state.ledger ∧
        next.phase.isReturned = state.phase.isReturned) ∨
      (∃ time event rest, state.queue = event :: rest ∧
        next.recorded = state.recorded ++ [(time, event)] ∧
        next.ledger = state.ledger.record time event ∧ next.phase = state.phase) ∨
      (state.phase.isReturned = false ∧ next.phase.isReturned = true ∧
        next.recorded = state.recorded ∧ next.ledger = state.ledger.finish) := by
  cases case with
  | advance | signal | join | fetch | analyze | crash | deliver | abort =>
    exact Or.inl ⟨rfl, rfl, rfl⟩
  | interruptListening pending listens =>
    refine Or.inl ⟨rfl, rfl, ?_⟩
    cases phase : state.phase <;> simp_all [State.stopListening, Phase.isOpen, Phase.isReturned]
  | interruptDraining pending draining =>
    refine Or.inl ⟨rfl, rfl, ?_⟩
    simp only [State.cutShort, draining]
    split <;> rfl
  | expire draining =>
    refine Or.inl ⟨rfl, rfl, ?_⟩
    simp only [State.cutShort, draining]
    split <;> rfl
  | acquire phase | readHash phase | readFault phase | readEnd phase | settleDraining phase
  | settleAborting phase => exact Or.inl ⟨rfl, rfl, by rw [phase]; rfl⟩
  | record time queue => exact Or.inr (Or.inl ⟨time, _, _, queue, rfl, rfl, rfl⟩)
  | finish closing => exact Or.inr (Or.inr ⟨by rw [closing]; rfl, rfl, rfl, rfl⟩)

theorem Transition.conserves (case : Transition setup state action next)
    (conserves : state.Conserves setup base) : next.Conserves setup base := by
  refine ⟨case.attended conserves.attended, case.delivered conserves.attended conserves.delivered,
    case.drained conserves.attended conserves.drained, ?_⟩
  have written := conserves.written
  obtain ⟨recorded, ledger, phase⟩ | ⟨time, event, rest, queue, recorded, ledger, phase⟩ |
    ⟨running, returned, recorded, ledger⟩ := case.ledger_cases
  · rw [ledger, recorded, phase, written]
  · -- the queue of a run that has returned is empty
    have running : state.phase.isReturned = false := by
      cases returned : state.phase.isReturned
      · rfl
      · rw [conserves.drained returned] at queue
        contradiction
    rw [running, if_neg Bool.false_ne_true] at written
    rw [ledger, recorded, phase, running, if_neg Bool.false_ne_true, recordAll_concat, written]
  · rw [running, if_neg Bool.false_ne_true] at written
    rw [ledger, recorded, returned, if_pos rfl, written]

theorem State.conserves_start (base : Ledger σ) : (State.start setup base).Conserves setup base :=
  ⟨State.attended_start base, .refl _, fun _ => rfl, rfl⟩

theorem Reaches.conserves {actions : List Action}
    (run : Reaches setup (.start setup base) actions state) : state.Conserves setup base :=
  run.invariant Transition.conserves (State.conserves_start base)

theorem Transition.phase_of_returned (case : Transition setup state action next)
    (returned : state.phase.isReturned = true) : next.phase = state.phase := by
  cases case with
  | advance | signal | join | fetch | analyze | crash | deliver | abort | record => rfl
  | interruptListening pending listens =>
    cases phase : state.phase <;> simp_all [Phase.isOpen, Phase.isReturned]
  | interruptDraining _ phase | acquire phase | readHash phase | readFault phase | readEnd phase
  | expire phase | settleDraining phase | settleAborting phase | finish phase =>
    rw [phase] at returned
    contradiction

/-- Nothing is recorded or written once the run has returned. -/
theorem Transition.of_returned (case : Transition setup state action next)
    (conserves : state.Conserves setup base) (returned : state.phase.isReturned = true) :
    next.recorded = state.recorded ∧ next.ledger = state.ledger := by
  obtain ⟨recorded, ledger, _⟩ | ⟨time, event, rest, queue, _⟩ | ⟨running, _⟩ := case.ledger_cases
  · exact ⟨recorded, ledger⟩
  · rw [conserves.drained returned] at queue
    contradiction
  · rw [returned] at running
    contradiction

theorem Reaches.of_returned {actions : List Action} {later : State σ}
    (run : Reaches setup state actions later) (conserves : state.Conserves setup base)
    (returned : state.phase.isReturned = true) :
    later.phase = state.phase ∧ later.recorded = state.recorded ∧ later.ledger = state.ledger := by
  induction run with
  | refl => exact ⟨rfl, rfl, rfl⟩
  | next step _ ih =>
    have case := Transition.of_step step
    have phase := case.phase_of_returned returned
    obtain ⟨recorded, ledger⟩ := case.of_returned conserves returned
    obtain ⟨laterPhase, laterRecorded, laterLedger⟩ :=
      ih (case.conserves conserves) (by rwa [phase])
    exact ⟨laterPhase.trans phase, laterRecorded.trans recorded, laterLedger.trans ledger⟩

omit [Report.Sink σ] in
/-- Of ended invocations, only those that delivered and those that were aborted have an event. -/
theorem events_perm {invocations : List Invocation}
    (fits : ∀ invocation ∈ invocations, invocation.Fits setup)
    (ended : ∀ invocation ∈ invocations, invocation.stage.isEnded = true) :
    (invocations.filterMap setup.event?).Perm (deliveredEvents setup invocations ++
      (invocations.filter (·.stage.isEndedBy .aborted)).filterMap setup.event?) := by
  induction invocations with
  | nil => exact .refl _
  | cons invocation rest ih =>
    rw [List.forall_mem_cons] at fits ended
    have others := ih fits.2 ended.2
    obtain ⟨ending, stage⟩ := Stage.isEnded_iff.mp ended.1
    rw [← List.nil_append (invocation :: rest), deliveredEvents_split, List.nil_append]
    cases ending with
    | delivered =>
      obtain ⟨event, yields⟩ := fits.1.delivered stage
      simpa [deliveredEvents, stage, yields] using others
    | crashed =>
      have crashes := fits.1.crashed stage
      simpa [deliveredEvents, stage, crashes] using others
    | aborted =>
      cases yields : setup.event? invocation with
      | none => simpa [deliveredEvents, stage, yields] using others
      | some event =>
        simpa [deliveredEvents, stage, yields] using
          (others.cons event).trans List.perm_middle.symm

/-- Whatever the order of the steps, a run that returns has recorded the event of every
hash it has read, once for each reading, except where the analysis crashed or the
invocation was aborted before its event was in the queue. Its ledger is a fresh one
that recorded these events in the order of the queue and then wrote the summary, and
nothing is added to it later. -/
theorem events_recorded_exactly_once {reporter : Report.Reporter σ} {actions : List Action}
    {why : Termination} {aborted : Nat}
    (run : Reaches setup (.start setup (.new reporter)) actions state)
    (returned : state.phase = .returned why aborted) :
    (∃ items, setup.feed = items ++ state.unread ∧
      state.hashes = items.filterMap Except.toOption) ∧
    (∀ invocation ∈ state.invocations,
      (invocation.stage = .ended .delivered ∧ ∃ event, setup.event? invocation = some event) ∨
      (invocation.stage = .ended .crashed ∧ setup.event? invocation = none) ∨
      invocation.stage = .ended .aborted) ∧
    (state.recorded.map Prod.snd).Perm ((state.endedBy .delivered).filterMap setup.event?) ∧
    (state.recorded.map Prod.snd ++ (state.endedBy .aborted).filterMap setup.event?).Perm
      (state.hashes.filterMap fun hash => (setup.analyze hash).event?) ∧
    state.ledger = ((Ledger.new reporter).recordAll state.recorded).finish ∧
    ∀ more later, Reaches setup state more later →
      later.phase = state.phase ∧ later.recorded = state.recorded ∧
        later.ledger = state.ledger := by
  have conserves := run.conserves
  have finished : state.phase.isReturned = true := by rw [returned]; rfl
  have settled : state.phase.isSettled = true := by rw [returned]; rfl
  have ended : ∀ invocation ∈ state.invocations, invocation.stage.isEnded = true :=
    fun _ member => conserves.attended.ended settled member
  have recorded : (state.recorded.map Prod.snd).Perm
      ((state.endedBy .delivered).filterMap setup.event?) := by
    have delivered := conserves.delivered
    rw [conserves.drained finished, List.append_nil] at delivered
    exact delivered
  refine ⟨run.reads, fun invocation member => ?_, recorded, ?_, ?_, fun more later behind => ?_⟩
  · have fits := conserves.attended.fits invocation member
    obtain ⟨ending, stage⟩ := Stage.isEnded_iff.mp (ended invocation member)
    cases ending with
    | delivered => exact Or.inl ⟨stage, fits.delivered stage⟩
    | crashed => exact Or.inr (Or.inl ⟨stage, fits.crashed stage⟩)
    | aborted => exact Or.inr (Or.inr stage)
  · rw [State.hashes, List.filterMap_map]
    exact (recorded.append_right _).trans (events_perm conserves.attended.fits ended).symm
  · simpa only [finished, if_true] using conserves.written
  · exact behind.of_returned conserves finished

/-- A transaction that is gone is announced twice; a detector crashes on the second one,
and the third is asked for in vain. -/
def threeHashes : Setup where
  settings := { queueCapacity := 0 }
  analyze := analyze
    { transaction := fun hash =>
        if hash = .fill 32 1 then .ok none
        else .ok (some ⟨hash, .fill 20 1, none, 1, [], 0, none⟩)
      gasPrice := .ok 0
      blockNumber := .ok 0
      poolStatus := .error (.other "")
      poolContent := .error (.other "") }
    .standard
    [⟨.arbitrage, fun classified =>
      if classified.tx.hash = .fill 32 2 then ⟨.crash, 0⟩ else ⟨.nothing, 0⟩⟩]
  feed := [.ok (.fill 32 1), .ok (.fill 32 1), .ok (.fill 32 2), .ok (.fill 32 3)]
  staysOpen := true

/-- Two stop signals come when the first two hashes are done with. -/
def threeHashesTiming : Timing where
  arrivals := [0, 10, 20, 30]
  signals := [100, 200]
  delay := fun hash => if hash = .fill 32 3 then none else some 5

/-- Keeps the entries of a report. -/
def freshTranscript : Report.Reporter Report.Transcript := .new {} []

def threeHashesEnd : State Report.Transcript :=
  (Simulation.complete threeHashes threeHashesTiming ⟨0, 0, 0, 0⟩ (.new freshTranscript)).state

theorem events_of_three_hashes_recorded_exactly_once :
    ∃ actions,
      Reaches threeHashes (.start threeHashes (.new freshTranscript)) actions threeHashesEnd ∧
      threeHashesEnd.phase = .returned .interrupted 1 ∧
      threeHashesEnd.hashes = [.fill 32 1, .fill 32 1, .fill 32 2, .fill 32 3] ∧
      threeHashesEnd.recorded.length = 2 ∧
      (threeHashesEnd.recorded.map Prod.snd).Perm
        ((threeHashesEnd.endedBy .delivered).filterMap threeHashes.event?) ∧
      (threeHashesEnd.recorded.map Prod.snd ++
        (threeHashesEnd.endedBy .aborted).filterMap threeHashes.event?).Perm
          (threeHashesEnd.hashes.filterMap fun hash => (threeHashes.analyze hash).event?) ∧
      threeHashesEnd.ledger =
        ((Ledger.new freshTranscript).recordAll threeHashesEnd.recorded).finish := by
  obtain ⟨actions, run⟩ : ∃ actions,
      Reaches threeHashes (.start threeHashes (.new freshTranscript)) actions threeHashesEnd :=
    Simulation.complete_reaches _ _ _ _
  have returned : threeHashesEnd.phase = .returned .interrupted 1 := by decide +kernel
  obtain ⟨_, _, recorded, all, ledger, _⟩ := events_recorded_exactly_once run returned
  exact ⟨actions, run, returned, by decide +kernel, by decide +kernel, recorded, all, ledger⟩

end MempoolWatch.Pipeline

import Mathlib.Algebra.Ring.Nat
import MempoolWatch.Proofs.Pipeline.Permits

/-! Liveness of a run. Whoever holds a permit can go on or waits for room, which the writer
makes; whoever waits for an invocation waits for one that can go on, or gives it up; and
the writer is done when the invocations are, because then nobody holds an end of the queue.
What a run does by itself uses up a measure, so that a run that has stopped listening
comes to its end. -/
namespace MempoolWatch.Pipeline

namespace Action

/-- Comes from outside: the passing of time, stop signals and the items of the feed. -/
def isInput : Action → Bool
  | advance _ | signal | read => true
  | _ => false

/-- Needs nothing from outside, and no answer of the node either. -/
def isOwn : Action → Bool
  | analyze _ => false
  | action => ! action.isInput

theorem isInput_of_isOwn {action : Action} (own : action.isOwn = true) :
    action.isInput = false := by
  cases action <;> first | rfl | contradiction

end Action

section Measure

/-- Bounds the steps that an invocation can still take, beside the notice of its end. -/
def Stage.remaining : Stage → Nat
  | spawned => 4
  | fetching _ => 3
  | sending _ => 2
  | ended _ => 0

def Invocation.remaining (invocation : Invocation) : Nat :=
  invocation.stage.remaining + (! invocation.joined).toNat

def Phase.remaining : Phase → Nat
  | acquiring => 5
  | listening => 4
  | draining _ _ => 3
  | aborting _ _ => 2
  | closing _ _ => 1
  | returned _ _ => 0

def remainingOf (invocations : List Invocation) : Nat :=
  (invocations.map Invocation.remaining).sum

/-- Bounds the steps that a run can still take without anything from outside. -/
def State.remaining {σ : Type} (state : State σ) : Nat :=
  state.phase.remaining + state.queue.length + remainingOf state.invocations

@[simp] theorem Stage.remaining_ended (ending : Ending) : (ended ending).remaining = 0 := rfl

theorem remainingOf_split (before after : List Invocation) (invocation : Invocation) :
    remainingOf (before ++ invocation :: after) =
      remainingOf before + invocation.remaining + remainingOf after := by
  simp [remainingOf, Nat.add_assoc]

theorem Phase.remaining_of_open {phase : Phase} (listens : phase.isOpen = true) :
    3 < phase.remaining := by
  cases phase <;> first | contradiction | decide

end Measure

variable {σ : Type} {setup : Setup} {state next : State σ} {action : Action}

theorem State.remaining_cutShort {why : Termination} {deadline : Nat}
    (draining : state.phase = .draining why deadline) :
    (state.cutShort why).remaining < state.remaining := by
  unfold cutShort
  split <;> simp only [remaining, draining, Phase.remaining] <;> omega

def State.Allows [Report.Sink σ] (setup : Setup) (state : State σ) (action : Action) : Prop :=
  ∃ next, state.step? setup action = some next

/-- An invocation can be taken a stage further. -/
def State.GoesOn [Report.Sink σ] (setup : Setup) (state : State σ) (index : Nat) : Prop :=
  state.Allows setup (.fetch index) ∨ state.Allows setup (.analyze index) ∨
    state.Allows setup (.deliver index)

variable [Report.Sink σ]

theorem Transition.remaining_lt (case : Transition setup state action next)
    (inner : action.isInput = false) : next.remaining < state.remaining := by
  cases case with
  | advance | signal | readHash | readFault | readEnd => contradiction
  | interruptListening pending listens =>
    have rank := Phase.remaining_of_open listens
    show 3 + state.queue.length + remainingOf state.invocations <
      state.phase.remaining + state.queue.length + remainingOf state.invocations
    omega
  | interruptDraining pending draining =>
    let quieter : State σ := { state with signals := state.signals - 1 }
    have waits : quieter.phase = .draining _ _ := draining
    exact State.remaining_cutShort waits
  | join split attends ended unjoined =>
    simp only [State.remaining, split, remainingOf_split, Invocation.remaining,
      Invocation.noticed_stage, Invocation.noticed_joined, unjoined, Bool.not_true, Bool.not_false,
      Bool.toNat_true, Bool.toNat_false]
    omega
  | acquire acquiring =>
    simp only [State.remaining, acquiring, Phase.remaining]
    omega
  | fetch split spawned =>
    simp only [State.remaining, split, remainingOf_split, Invocation.remaining, spawned,
      Invocation.atStage_stage, Invocation.atStage_joined, Stage.remaining]
    omega
  | analyze split fetching | crash split fetching =>
    simp only [State.remaining, split, remainingOf_split, Invocation.remaining, fetching,
      Invocation.atStage_stage, Invocation.atStage_joined, Stage.remaining]
    omega
  | deliver split sending =>
    simp only [State.remaining, split, remainingOf_split, Invocation.remaining, sending,
      Invocation.atStage_stage, Invocation.atStage_joined, Stage.remaining, List.length_append,
      List.length_singleton]
    omega
  | @abort before after invocation why aborted split aborting running =>
    have stage : 0 < invocation.stage.remaining := by
      cases stage : invocation.stage <;> simp_all [Stage.remaining]
    simp only [State.remaining, split, remainingOf_split, Invocation.remaining,
      Invocation.atStage_stage, Invocation.atStage_joined, Stage.remaining_ended]
    omega
  | expire draining => exact State.remaining_cutShort draining
  | settleDraining phase | settleAborting phase | finish phase =>
    simp only [State.remaining, phase, Phase.remaining]
    omega
  | record time queue =>
    simp only [State.remaining, queue, List.length_cons]
    omega

theorem Transition.allows (case : Transition setup state action next) :
    state.Allows setup action :=
  ⟨next, case.possible⟩

/-- Whoever holds a permit can go on, or waits for room that the writer can make. -/
theorem State.goesOn_or_records {before after : List Invocation} {invocation : Invocation}
    (split : state.invocations = before ++ invocation :: after)
    (running : invocation.stage.isEnded = false) :
    state.GoesOn setup before.length ∨
      (setup.settings.capacity ≤ state.queue.length ∧
        ∀ time, state.Allows setup (.record time)) := by
  cases stage : invocation.stage with
  | spawned => exact Or.inl (Or.inl (Transition.fetch split stage).allows)
  | fetching since =>
    left; right; left
    cases yields : (setup.analyze invocation.hash).event? with
    | none => exact (Transition.crash split stage yields).allows
    | some event => exact (Transition.analyze split stage yields).allows
  | sending event =>
    by_cases room : state.queue.length < setup.settings.capacity
    · exact Or.inl (Or.inr (Or.inr (Transition.deliver split stage room).allows))
    · have some : 0 < setup.settings.capacity := Nat.le_max_left 1 _
      refine Or.inr ⟨Nat.le_of_not_lt room, fun time => ?_⟩
      cases queue : state.queue with
      | nil => simp [queue, some] at room
      | cons event rest => exact (Transition.record time queue).allows
  | ended => simp [stage] at running

theorem exists_running {invocations : List Invocation} (running : 0 < runningCount invocations) :
    ∃ before invocation after, invocations = before ++ invocation :: after ∧
      invocation.stage.isEnded = false := by
  obtain ⟨invocation, member, stage⟩ := List.countP_pos_iff.mp running
  obtain ⟨before, after, split⟩ := List.append_of_mem member
  exact ⟨before, invocation, after, split, by simpa using stage⟩

omit [Report.Sink σ] in
theorem State.exists_unjoined (unjoined : state.unjoined ≠ 0) :
    ∃ before invocation after, state.invocations = before ++ invocation :: after ∧
      invocation.joined = false := by
  obtain ⟨invocation, member, joined⟩ := List.countP_pos_iff.mp (Nat.pos_of_ne_zero unjoined)
  obtain ⟨before, after, split⟩ := List.append_of_mem member
  exact ⟨before, invocation, after, split, by simpa using joined⟩

/-- A loop that waits for a permit is stopped, gets one, or waits for an invocation. -/
theorem State.acquiring_moves (balanced : state.Balanced setup)
    (acquiring : state.phase = .acquiring) :
    state.Allows setup .interrupt ∨ state.Allows setup .acquire ∨
      0 < runningCount state.invocations := by
  by_cases quiet : state.signals = 0
  · by_cases free : 0 < state.free
    · exact Or.inr (Or.inl (Transition.acquire acquiring quiet free).allows)
    · -- all permits are held, and there is at least one
      have permits := balanced.permits
      have some : 0 < setup.settings.permits := Nat.le_max_left 1 _
      have held : state.phase.heldPermits = 0 := by rw [acquiring]; rfl
      exact Or.inr (Or.inr (by omega))
  · exact Or.inl (Transition.interruptListening (Nat.pos_of_ne_zero quiet)
      (by rw [acquiring]; rfl)).allows

/-- A loop that waits for the invocations is stopped, takes notice of one that has ended, is
done, or waits for one that has not ended. -/
theorem State.draining_moves {why : Termination} {deadline : Nat}
    (draining : state.phase = .draining why deadline) :
    state.Allows setup .interrupt ∨ (∃ index, state.Allows setup (.join index)) ∨
      state.Allows setup .settle ∨ 0 < runningCount state.invocations := by
  by_cases quiet : state.signals = 0
  · by_cases settled : state.unjoined = 0
    · exact Or.inr (Or.inr (Or.inl (Transition.settleDraining draining quiet settled).allows))
    · obtain ⟨before, invocation, after, split, unjoined⟩ := State.exists_unjoined settled
      cases ended : invocation.stage.isEnded with
      | true =>
        have attends : state.attendsJoins = true := by simp [attendsJoins, draining, quiet]
        exact Or.inr (Or.inl ⟨_, (Transition.join split attends ended unjoined).allows⟩)
      | false =>
        have running : 0 < runningCount state.invocations :=
          List.countP_pos_iff.mpr ⟨invocation, by simp [split], by simp [ended]⟩
        exact Or.inr (Or.inr (Or.inr running))
  · exact Or.inl (Transition.interruptDraining (Nat.pos_of_ne_zero quiet) draining).allows

/-- A loop that has given up the invocations needs nobody to go on. -/
theorem State.aborting_moves {why : Termination} {aborted : Nat}
    (aborting : state.phase = .aborting why aborted) :
    ∃ action, action.isOwn = true ∧ state.Allows setup action := by
  by_cases settled : state.unjoined = 0
  · exact ⟨.settle, rfl, (Transition.settleAborting aborting settled).allows⟩
  · obtain ⟨before, invocation, after, split, unjoined⟩ := State.exists_unjoined settled
    cases ended : invocation.stage.isEnded with
    | true =>
      have attends : state.attendsJoins = true := by rw [attendsJoins, aborting]
      exact ⟨_, rfl, (Transition.join split attends ended unjoined).allows⟩
    | false => exact ⟨_, rfl, (Transition.abort split aborting ended).allows⟩

omit [Report.Sink σ] in
/-- When listening and all invocations are over, nobody has an end of the queue. -/
theorem State.Balanced.no_sender (balanced : state.Balanced setup)
    (closed : state.phase.isOpen = false)
    (ended : ∀ invocation ∈ state.invocations, invocation.stage.isEnded = true) :
    state.senders = 0 := by
  rw [balanced.senders, runningCount_eq_zero_iff.mpr ended, Phase.heldSenders, closed]
  rfl

/-- The writer empties the queue and is done, because nobody can put an event into it. -/
theorem State.closing_moves {why : Termination} {aborted : Nat} (balanced : state.Balanced setup)
    (attended : state.Attended setup) (closing : state.phase = .closing why aborted) :
    ∃ action, action.isOwn = true ∧ state.Allows setup action := by
  have settled : state.phase.isSettled = true := by rw [closing]; rfl
  have last : state.senders = 0 :=
    balanced.no_sender (by rw [closing]; rfl) fun _ member => attended.ended settled member
  cases queue : state.queue with
  | nil => exact ⟨.finish, rfl, (Transition.finish closing queue last).allows⟩
  | cons event rest =>
    exact ⟨.record ⟨0, 0, 0, 0⟩, rfl, (Transition.record ⟨0, 0, 0, 0⟩ queue).allows⟩

/-- The loop has given up the invocations, or they are over. -/
def Phase.isEnding : Phase → Bool
  | .aborting _ _ | .closing _ _ | .returned _ _ => true
  | _ => false

omit [Report.Sink σ] in
theorem State.isEnding_cutShort (why : Termination) :
    (state.cutShort why).phase.isEnding = true := by
  unfold cutShort
  split <;> rfl

theorem Transition.isEnding (case : Transition setup state action next)
    (ending : state.phase.isEnding = true) : next.phase.isEnding = true := by
  cases case with
  | advance | signal | join | fetch | analyze | crash | deliver | abort | record => exact ending
  | interruptListening pending listens =>
    cases phase : state.phase <;> simp_all [Phase.isOpen, Phase.isEnding]
  | interruptDraining | expire => exact State.isEnding_cutShort _
  | acquire phase | readHash phase | readFault phase | readEnd phase =>
    rw [phase] at ending
    contradiction
  | settleDraining | settleAborting | finish => rfl

theorem State.ending_moves (balanced : state.Balanced setup) (attended : state.Attended setup)
    (ending : state.phase.isEnding = true) (running : state.phase.isReturned = false) :
    ∃ action, action.isOwn = true ∧ state.Allows setup action := by
  cases phase : state.phase with
  | aborting why aborted => exact State.aborting_moves phase
  | closing why aborted => exact State.closing_moves balanced attended phase
  | acquiring | listening | draining => simp [phase, Phase.isEnding] at ending
  | returned => simp [phase, Phase.isReturned] at running

/-- When the loop has given up the invocations, the run comes to its end by itself. -/
theorem Reaches.returns {ledger : Ledger σ} {actions : List Action}
    (run : Reaches setup (.start setup ledger) actions state)
    (ending : state.phase.isEnding = true) :
    ∃ own last, (∀ action ∈ own, action.isOwn = true) ∧ Reaches setup state own last ∧
      last.phase.isReturned = true := by
  induction measure : state.remaining using Nat.strongRecOn generalizing state actions with
  | ind remaining ih =>
    cases running : state.phase.isReturned with
    | true => exact ⟨[], state, by simp, .refl state, running⟩
    | false =>
      obtain ⟨action, isOwn, next, step⟩ :=
        State.ending_moves run.balanced run.attended ending running
      have case := Transition.of_step step
      have less : next.remaining < remaining :=
        measure ▸ case.remaining_lt (Action.isInput_of_isOwn isOwn)
      obtain ⟨own, last, areOwn, rest, returned⟩ :=
        ih next.remaining less (run.trans (.next step (.refl next))) (case.isEnding ending) rfl
      exact ⟨action :: own, last, List.forall_mem_cons.mpr ⟨isOwn, areOwn⟩, .next step rest,
        returned⟩

/-- The deadline for the invocations is never farther away than the settings say. -/
def State.Timely (setup : Setup) (state : State σ) : Prop :=
  ∀ why deadline, state.phase = .draining why deadline →
    deadline ≤ state.clock + setup.settings.drain

theorem Transition.timely (case : Transition setup state action next)
    (timely : state.Timely setup) : next.Timely setup := by
  intro why deadline draining
  cases case with
  | advance milliseconds =>
    have soon := timely why deadline draining
    show deadline ≤ state.clock + milliseconds + setup.settings.drain
    omega
  | signal | join | fetch | analyze | crash | deliver | abort | record =>
    exact timely why deadline draining
  | interruptListening | readFault | readEnd =>
    cases draining
    exact Nat.le_refl _
  | interruptDraining | expire =>
    have ending := congrArg Phase.isEnding draining
    rw [State.isEnding_cutShort] at ending
    contradiction
  | acquire | readHash | settleDraining | settleAborting | finish => contradiction

theorem Reaches.timely {ledger : Ledger σ} {actions : List Action}
    (run : Reaches setup (.start setup ledger) actions state) : state.Timely setup :=
  run.invariant Transition.timely (by intro why deadline draining; contradiction)

/-- Time makes the loop give up the invocations. -/
theorem State.draining_expires {why : Termination} {deadline : Nat}
    (draining : state.phase = .draining why deadline) :
    Reaches setup state [.advance (deadline - state.clock), .expire]
      ({ state with clock := state.clock + (deadline - state.clock) }.cutShort why) := by
  have waited : Transition setup state (.advance (deadline - state.clock)) _ := .advance _
  have due : deadline ≤ state.clock + (deadline - state.clock) := by omega
  have expired : Transition setup { state with clock := state.clock + (deadline - state.clock) }
      .expire _ := .expire draining due
  exact .next waited.possible (.next expired.possible (.refl _))

/-- A run that has stopped listening comes to its end by itself when the time for the
invocations has passed, whatever the node answers or does not answer. -/
theorem Reaches.returns_in_time {ledger : Ledger σ} {actions : List Action}
    (run : Reaches setup (.start setup ledger) actions state)
    (closed : state.phase.isOpen = false) :
    ∃ wait own last, wait ≤ setup.settings.drain ∧ (∀ action ∈ own, action.isOwn = true) ∧
      Reaches setup state (.advance wait :: own) last ∧ last.phase.isReturned = true := by
  by_cases ending : state.phase.isEnding = true
  · have still : Transition setup state (.advance 0) state := .advance 0
    obtain ⟨own, last, areOwn, rest, returned⟩ := run.returns ending
    exact ⟨0, own, last, Nat.zero_le _, areOwn, .next still.possible rest, returned⟩
  · cases phase : state.phase with
    | acquiring | listening => simp [phase, Phase.isOpen] at closed
    | aborting | closing | returned => simp [phase, Phase.isEnding] at ending
    | draining why deadline =>
      have soon := run.timely why deadline phase
      have expired : Reaches setup state _ _ := State.draining_expires phase
      obtain ⟨own, last, areOwn, rest, returned⟩ :=
        (run.trans expired).returns (State.isEnding_cutShort why)
      refine ⟨deadline - state.clock, .expire :: own, last, by omega, ?_, expired.trans rest,
        returned⟩
      exact List.forall_mem_cons.mpr ⟨rfl, areOwn⟩

/-- A run that still has an invocation to wait for can go on by it or by the writer. -/
theorem State.running_moves (running : 0 < runningCount state.invocations) :
    ∃ action, action.isInput = false ∧ state.Allows setup action := by
  obtain ⟨before, invocation, after, split, stage⟩ := exists_running running
  rcases State.goesOn_or_records split stage with (fetch | analyze | deliver) | ⟨_, records⟩
  · exact ⟨_, rfl, fetch⟩
  · exact ⟨_, rfl, analyze⟩
  · exact ⟨_, rfl, deliver⟩
  · exact ⟨_, rfl, records ⟨0, 0, 0, 0⟩⟩

/-- A run goes on without a hash or a stop signal, unless it is over or waits for these only. -/
theorem State.moves (balanced : state.Balanced setup) (attended : state.Attended setup) :
    state.phase.isReturned = true ∨ state.phase = .listening ∨
      ∃ action, action.isInput = false ∧ state.Allows setup action := by
  cases phase : state.phase with
  | returned => exact Or.inl rfl
  | listening => exact Or.inr (Or.inl rfl)
  | acquiring =>
    right; right
    rcases State.acquiring_moves balanced phase with stops | acquires | running
    · exact ⟨_, rfl, stops⟩
    · exact ⟨_, rfl, acquires⟩
    · exact State.running_moves running
  | draining =>
    right; right
    rcases State.draining_moves phase with stops | ⟨index, joins⟩ | settles | running
    · exact ⟨_, rfl, stops⟩
    · exact ⟨_, rfl, joins⟩
    · exact ⟨_, rfl, settles⟩
    · exact State.running_moves running
  | aborting =>
    obtain ⟨action, own, allows⟩ : ∃ action, action.isOwn = true ∧ state.Allows setup action :=
      State.aborting_moves phase
    exact Or.inr (Or.inr ⟨action, Action.isInput_of_isOwn own, allows⟩)
  | closing =>
    obtain ⟨action, own, allows⟩ := State.closing_moves balanced attended phase
    exact Or.inr (Or.inr ⟨action, Action.isInput_of_isOwn own, allows⟩)

/-- A loop that waits for a hash takes the signal, the next item or the end that is there. -/
theorem State.listening_moves (listening : state.phase = .listening) :
    (0 < state.signals → state.Allows setup .interrupt) ∧
    (state.signals = 0 → state.unread ≠ [] ∨ setup.staysOpen = false →
      state.Allows setup .read) := by
  constructor
  · intro pending
    exact (Transition.interruptListening pending (by rw [listening]; rfl)).allows
  · intro quiet ready
    cases unread : state.unread with
    | nil =>
      have closes : setup.staysOpen = false := ready.resolve_left (by simp [unread])
      exact (Transition.readEnd listening quiet unread closes).allows
    | cons item rest =>
      cases item with
      | ok hash => exact (Transition.readHash listening quiet unread).allows
      | error cause => exact (Transition.readFault listening quiet unread).allows

/-- A writer that waits for an event waits for a loop that listens, or for an invocation that
goes on by itself, because there is room in the empty queue. -/
theorem State.awaited_goes_on (balanced : state.Balanced setup) (empty : state.queue = [])
    (awaited : 0 < state.senders) :
    state.phase.isOpen = true ∨ ∃ index, state.GoesOn setup index := by
  by_cases listens : state.phase.isOpen = true
  · exact Or.inl listens
  · have senders := balanced.senders
    rw [Phase.heldSenders, eq_false_of_ne_true listens, Bool.toNat_false,
      Nat.zero_add] at senders
    obtain ⟨before, invocation, after, split, running⟩ := exists_running (senders ▸ awaited)
    rcases State.goesOn_or_records split running with goes | ⟨full, _⟩
    · exact Or.inr ⟨_, goes⟩
    · have some : 0 < setup.settings.capacity := Nat.le_max_left 1 _
      rw [empty, List.length_nil] at full
      exact absurd full (Nat.not_le_of_lt some)

/-- No state of a run is a deadlock. Unless the run is over or waits for a hash or a stop signal
only, it can go on without them. Whoever holds a permit can go on, or waits for room in the
queue, and then the writer can make some. A writer that waits for an event waits for the loop,
which listens, or for an invocation that can go on, and once these are over nobody has an end
of the queue. After the listening the deadline makes the loop give up the invocations that do
not go on, and the run ends with the summary. -/
theorem run_never_deadlocks {ledger : Ledger σ} {actions : List Action}
    (run : Reaches setup (.start setup ledger) actions state) :
    (state.phase.isReturned = true ∨ state.phase = .listening ∨
      ∃ action, action.isInput = false ∧ state.Allows setup action) ∧
    (state.phase = .listening → (0 < state.signals → state.Allows setup .interrupt) ∧
      (state.signals = 0 → state.unread ≠ [] ∨ setup.staysOpen = false →
        state.Allows setup .read)) ∧
    (state.phase = .acquiring → state.Allows setup .interrupt ∨ state.Allows setup .acquire ∨
      0 < runningCount state.invocations) ∧
    (∀ index invocation, state.invocations[index]? = some invocation →
      invocation.stage.isEnded = false → state.GoesOn setup index ∨
        (state.queue.length = setup.settings.capacity ∧
          ∀ time, state.Allows setup (.record time))) ∧
    (state.queue = [] → 0 < state.senders →
      state.phase.isOpen = true ∨ ∃ index, state.GoesOn setup index) ∧
    (state.phase.isOpen = false →
      (∀ invocation ∈ state.invocations, invocation.stage.isEnded = true) → state.senders = 0) ∧
    (state.phase.isOpen = false → ∃ wait own last, wait ≤ setup.settings.drain ∧
      (∀ action ∈ own, action.isOwn = true) ∧
      Reaches setup state (.advance wait :: own) last ∧ last.phase.isReturned = true ∧
      last.queue = [] ∧ last.ledger = (ledger.recordAll last.recorded).finish) := by
  have balanced := run.balanced
  refine ⟨State.moves balanced run.attended, State.listening_moves,
    State.acquiring_moves balanced, ?_, State.awaited_goes_on balanced, balanced.no_sender, ?_⟩
  · intro index invocation found running
    obtain ⟨before, after, split, rfl, _⟩ := exists_split found
    rcases State.goesOn_or_records split running with goes | ⟨full, records⟩
    · exact Or.inl goes
    · exact Or.inr ⟨Nat.le_antisymm balanced.room full, records⟩
  · intro closed
    obtain ⟨wait, own, last, soon, areOwn, rest, returned⟩ := run.returns_in_time closed
    have conserves := (run.trans rest).conserves
    have written := conserves.written
    rw [returned, if_pos rfl] at written
    exact ⟨wait, own, last, soon, areOwn, rest, returned, conserves.drained returned, written⟩

/-- A stop signal reaches the narrow pipeline while the second invocation waits for room, and
the loop takes it. -/
def narrowPipelineStopped : Option (State Report.Transcript) :=
  (State.start narrowPipeline (.new freshTranscript)).perform? narrowPipeline
    [.acquire, .read, .fetch 0, .analyze 0, .deliver 0, .acquire, .read, .fetch 1, .analyze 1,
      .signal, .interrupt]

theorem stopped_pipeline_never_deadlocks :
    ∃ state actions, narrowPipelineStopped = some state ∧
      Reaches narrowPipeline (.start narrowPipeline (.new freshTranscript)) actions state ∧
      state.phase = .draining .interrupted 10000 ∧ state.senders = 1 ∧
      (state.GoesOn narrowPipeline 1 ∨ (state.queue.length = 1 ∧
        ∀ time, state.Allows narrowPipeline (.record time))) ∧
      ∃ wait own last, wait ≤ 10000 ∧ (∀ action ∈ own, action.isOwn = true) ∧
        Reaches narrowPipeline state (.advance wait :: own) last ∧
        last.phase.isReturned = true := by
  obtain ⟨state, reached⟩ : ∃ state, narrowPipelineStopped = some state :=
    Option.isSome_iff_exists.mp (by decide +kernel)
  have run := Reaches.of_perform reached
  have phase : narrowPipelineStopped.map (·.phase) = some (.draining .interrupted 10000) := by
    decide +kernel
  have senders : narrowPipelineStopped.map (·.senders) = some 1 := by decide +kernel
  have second : narrowPipelineStopped.map
      (fun state => state.invocations[1]?.map (·.stage.isEnded)) = some (some false) := by
    decide +kernel
  simp only [reached, Option.map_some, Option.some.injEq] at phase senders second
  obtain ⟨invocation, found, running⟩ := Option.map_eq_some_iff.mp second
  obtain ⟨_, _, _, holders, _, _, returns⟩ := run_never_deadlocks run
  obtain ⟨wait, own, last, soon, areOwn, rest, returned, _⟩ := returns (by rw [phase]; rfl)
  exact ⟨state, _, reached, run, phase, senders, holders 1 invocation found running, wait, own,
    last, soon, areOwn, rest, returned⟩

end MempoolWatch.Pipeline

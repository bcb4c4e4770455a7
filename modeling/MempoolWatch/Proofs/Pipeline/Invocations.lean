import MempoolWatch.Proofs.Pipeline.Transition

/-! The invocations along a run. A step leaves them alone, starts one more, or takes
one of them a stage further; its event is that of its own hash at every stage, the
loop takes notice only of ended ones, and the writer is waited for only when notice
was taken of all. -/
namespace MempoolWatch.Pipeline

namespace Stage

def isEndedBy (ending : Ending) : Stage → Bool
  | ended actual => actual = ending
  | _ => false

@[simp] theorem isEndedBy_ended (ending actual : Ending) :
    (ended actual).isEndedBy ending = decide (actual = ending) := rfl

theorem isEndedBy_iff {ending : Ending} {stage : Stage} :
    stage.isEndedBy ending = true ↔ stage = .ended ending := by
  cases stage <;> simp [isEndedBy]

theorem isEnded_iff {stage : Stage} : stage.isEnded = true ↔ ∃ ending, stage = .ended ending := by
  cases stage <;> simp [isEnded]

@[simp] theorem isEnded_spawned : spawned.isEnded = false := rfl

@[simp] theorem isEnded_fetching (since : Nat) : (fetching since).isEnded = false := rfl

@[simp] theorem isEnded_sending (event : Event) : (sending event).isEnded = false := rfl

@[simp] theorem isEnded_ended (ending : Ending) : (ended ending).isEnded = true := rfl

theorem isEndedBy_of_running {stage : Stage} (running : stage.isEnded = false) (ending : Ending) :
    stage.isEndedBy ending = false := by
  cases stage <;> simp_all [isEnded, isEndedBy]

end Stage

/-- The event that the analysis of an invocation's hash yields, if it does not crash. -/
def Setup.event? (setup : Setup) (invocation : Invocation) : Option Event :=
  (setup.analyze invocation.hash).event?

@[simp] theorem Setup.event?_noticed (setup : Setup) (invocation : Invocation) :
    setup.event? invocation.noticed = setup.event? invocation := rfl

@[simp] theorem Setup.event?_atStage (setup : Setup) (invocation : Invocation) (stage : Stage) :
    setup.event? (invocation.atStage stage) = setup.event? invocation := rfl

namespace State

variable {σ : Type}

/-- The hashes that were read, in order. -/
def hashes (state : State σ) : List Hash :=
  state.invocations.map (·.hash)

/-- The invocations that came to a given end. -/
def endedBy (state : State σ) (ending : Ending) : List Invocation :=
  state.invocations.filter (·.stage.isEndedBy ending)

theorem mem_endedBy {state : State σ} {ending : Ending} {invocation : Invocation} :
    invocation ∈ state.endedBy ending ↔
      invocation ∈ state.invocations ∧ invocation.stage = .ended ending := by
  simp [endedBy, Stage.isEndedBy_iff]

theorem length_endedBy (state : State σ) (ending : Ending) :
    (state.endedBy ending).length = state.invocations.countP (·.stage.isEndedBy ending) :=
  List.countP_eq_length_filter.symm

theorem unjoined_eq_zero_iff {state : State σ} :
    state.unjoined = 0 ↔ ∀ invocation ∈ state.invocations, invocation.joined = true := by
  simp [unjoined, List.countP_eq_zero]

end State

section Counts

/-- How many invocations have not ended. -/
def runningCount (invocations : List Invocation) : Nat :=
  invocations.countP fun invocation => ! invocation.stage.isEnded

theorem runningCount_eq_zero_iff {invocations : List Invocation} :
    runningCount invocations = 0 ↔
      ∀ invocation ∈ invocations, invocation.stage.isEnded = true := by
  simp [runningCount, List.countP_eq_zero]

/-- Every invocation runs or came to exactly one of the three ends. -/
theorem length_eq_stages (invocations : List Invocation) :
    invocations.length = runningCount invocations +
      invocations.countP (·.stage.isEndedBy .delivered) +
      invocations.countP (·.stage.isEndedBy .aborted) +
      invocations.countP (·.stage.isEndedBy .crashed) := by
  induction invocations with
  | nil => rfl
  | cons invocation rest ih =>
    simp only [runningCount, List.length_cons, List.countP_cons] at ih ⊢
    cases running : invocation.stage.isEnded with
    | false =>
      simp [Stage.isEndedBy_of_running running]
      omega
    | true =>
      obtain ⟨ending, stage⟩ := Stage.isEnded_iff.mp running
      cases ending <;> simp [stage] <;> omega

theorem countP_replaced {counts : Invocation → Bool} (before after : List Invocation)
    {invocation replacement : Invocation} (same : counts replacement = counts invocation) :
    (before ++ replacement :: after).countP counts =
      (before ++ invocation :: after).countP counts := by
  simp only [List.countP_append, List.countP_cons, same]

end Counts

/-- What one step can do to one invocation. -/
inductive Progress (setup : Setup) (invocation : Invocation) : Invocation → Prop
  | notice (ended : invocation.stage.isEnded = true) : Progress setup invocation invocation.noticed
  | fetch (time : Nat) (spawned : invocation.stage = .spawned) :
      Progress setup invocation (invocation.atStage (.fetching time))
  | analyze {event : Event} (running : invocation.stage.isEnded = false)
      (yields : setup.event? invocation = some event) :
      Progress setup invocation (invocation.atStage (.sending event))
  | crash (running : invocation.stage.isEnded = false) (crashes : setup.event? invocation = none) :
      Progress setup invocation (invocation.atStage (.ended .crashed))
  | deliver {event : Event} (sending : invocation.stage = .sending event) :
      Progress setup invocation (invocation.atStage (.ended .delivered))
  | abort (running : invocation.stage.isEnded = false) :
      Progress setup invocation (invocation.atStage (.ended .aborted))

variable {σ : Type} [Report.Sink σ] {setup : Setup} {state next : State σ} {action : Action}

namespace Transition

theorem invocations_cases (case : Transition setup state action next) :
    next.invocations = state.invocations ∨
      (state.phase = .listening ∧ next.phase = .acquiring ∧
        ∃ hash, next.invocations = state.invocations ++ [.spawn hash]) ∨
      ∃ before invocation after replacement, state.invocations = before ++ invocation :: after ∧
        next.invocations = before ++ replacement :: after ∧
        Progress setup invocation replacement := by
  cases case with
  | advance | signal | interruptListening | interruptDraining | acquire | readFault | readEnd
  | expire | settleDraining | settleAborting | record | finish => exact Or.inl rfl
  | readHash listening => exact Or.inr (Or.inl ⟨listening, rfl, _, rfl⟩)
  | join split attends ended =>
    exact Or.inr (Or.inr ⟨_, _, _, _, split, rfl, .notice ended⟩)
  | fetch split spawned =>
    exact Or.inr (Or.inr ⟨_, _, _, _, split, rfl, .fetch _ spawned⟩)
  | analyze split fetching yields =>
    exact Or.inr (Or.inr ⟨_, _, _, _, split, rfl, .analyze (by rw [fetching]; rfl) yields⟩)
  | crash split fetching crashes =>
    exact Or.inr (Or.inr ⟨_, _, _, _, split, rfl, .crash (by rw [fetching]; rfl) crashes⟩)
  | deliver split sending =>
    exact Or.inr (Or.inr ⟨_, _, _, _, split, rfl, .deliver sending⟩)
  | abort split aborting running =>
    exact Or.inr (Or.inr ⟨_, _, _, _, split, rfl, .abort running⟩)

/-- What holds of fresh invocations and is kept when one goes on holds of all. -/
theorem forall_invocations {holds : Invocation → Prop} (case : Transition setup state action next)
    (fresh : ∀ hash, holds (.spawn hash))
    (keeps : ∀ {invocation replacement}, Progress setup invocation replacement →
      holds invocation → holds replacement)
    (all : ∀ invocation ∈ state.invocations, holds invocation) :
    ∀ invocation ∈ next.invocations, holds invocation := by
  obtain same | ⟨_, _, hash, spawned⟩ |
      ⟨before, invocation, after, replacement, split, changed, goes⟩ := case.invocations_cases
  · rwa [same]
  · rw [spawned]
    intro invocation member
    rcases List.mem_append.mp member with old | new
    · exact all invocation old
    · obtain rfl := List.mem_singleton.mp new
      exact fresh hash
  · rw [split, List.forall_mem_append, List.forall_mem_cons] at all
    rw [changed, List.forall_mem_append, List.forall_mem_cons]
    exact ⟨all.1, keeps goes all.2.1, all.2.2⟩

end Transition

/-- The stage fits the analysis of the hash, and notice was taken only of an end. -/
structure Invocation.Fits (setup : Setup) (invocation : Invocation) : Prop where
  sending : ∀ event, invocation.stage = .sending event → setup.event? invocation = some event
  delivered : invocation.stage = .ended .delivered → ∃ event, setup.event? invocation = some event
  crashed : invocation.stage = .ended .crashed → setup.event? invocation = none
  joined : invocation.joined = true → invocation.stage.isEnded = true

theorem Progress.fits {invocation replacement : Invocation}
    (goes : Progress setup invocation replacement) (fits : invocation.Fits setup) :
    replacement.Fits setup := by
  have unnoticed (running : invocation.stage.isEnded = false) : ¬ invocation.joined = true :=
    fun joined => Bool.false_ne_true (running.symm.trans (fits.joined joined))
  cases goes with
  | notice ended => exact ⟨fits.sending, fits.delivered, fits.crashed, fun _ => ended⟩
  | fetch time spawned =>
    have running : invocation.stage.isEnded = false := by rw [spawned]; rfl
    exact ⟨by simp, by simp, by simp, fun joined => absurd joined (unnoticed running)⟩
  | analyze running yields =>
    refine ⟨fun other same => ?_, by simp, by simp, fun joined => absurd joined (unnoticed running)⟩
    cases same
    exact yields
  | crash running crashes => exact ⟨by simp, by simp, fun _ => crashes, fun _ => rfl⟩
  | deliver sending => exact ⟨by simp, fun _ => ⟨_, fits.sending _ sending⟩, by simp, fun _ => rfl⟩
  | abort running => exact ⟨by simp, by simp, by simp, fun _ => rfl⟩

/-- The loop does not wait for invocations any more. -/
def Phase.isSettled : Phase → Bool
  | .closing _ _ | .returned _ _ => true
  | _ => false

/-- What is true of the invocations in every state of a run. -/
structure State.Attended (setup : Setup) (state : State σ) : Prop where
  fits : ∀ invocation ∈ state.invocations, invocation.Fits setup
  settled : state.phase.isSettled = true →
    ∀ invocation ∈ state.invocations, invocation.joined = true

theorem Progress.joined {invocation replacement : Invocation}
    (goes : Progress setup invocation replacement) (joined : invocation.joined = true) :
    replacement.joined = true := by
  cases goes with
  | notice => rfl
  | fetch | analyze | crash | deliver | abort => exact joined

omit [Report.Sink σ] in
theorem State.settled_cutShort {why : Termination}
    (settled : (state.cutShort why).phase.isSettled = true) : state.unjoined = 0 := by
  simp only [cutShort] at settled
  split at settled
  · assumption
  · contradiction

/-- The loop waits for the writer only when notice was taken of all invocations. -/
theorem Transition.unjoined_of_settled (case : Transition setup state action next)
    (settled : next.phase.isSettled = true) :
    state.phase.isSettled = true ∨ state.unjoined = 0 := by
  cases case with
  | advance | signal | join | fetch | analyze | crash | deliver | abort | record =>
    exact Or.inl settled
  | interruptListening | acquire | readHash | readFault | readEnd => contradiction
  | interruptDraining => exact Or.inr (State.settled_cutShort settled)
  | expire => exact Or.inr (State.settled_cutShort settled)
  | settleDraining draining quiet none => exact Or.inr none
  | settleAborting aborting none => exact Or.inr none
  | finish closing => exact Or.inl (by rw [closing]; rfl)

theorem Transition.attended (case : Transition setup state action next)
    (attended : state.Attended setup) : next.Attended setup := by
  refine ⟨case.forall_invocations (fun hash => ⟨by simp, by simp, by simp, by simp⟩)
    (fun goes => goes.fits) attended.fits, fun settled => ?_⟩
  have joined : ∀ invocation ∈ state.invocations, invocation.joined = true := by
    rcases case.unjoined_of_settled settled with before | none
    · exact attended.settled before
    · exact State.unjoined_eq_zero_iff.mp none
  obtain same | ⟨_, acquiring, _⟩ |
      ⟨before, invocation, after, replacement, split, changed, goes⟩ := case.invocations_cases
  · rwa [same]
  · rw [acquiring] at settled
    contradiction
  · rw [split, List.forall_mem_append, List.forall_mem_cons] at joined
    rw [changed, List.forall_mem_append, List.forall_mem_cons]
    exact ⟨joined.1, goes.joined joined.2.1, joined.2.2⟩

omit [Report.Sink σ] in
theorem State.attended_start (ledger : Ledger σ) : (State.start setup ledger).Attended setup :=
  ⟨by simp [State.start], by simp [State.start]⟩

theorem Reaches.attended {ledger : Ledger σ} {actions : List Action}
    (run : Reaches setup (.start setup ledger) actions state) : state.Attended setup :=
  run.invariant Transition.attended (State.attended_start ledger)

omit [Report.Sink σ] in
/-- When the run waits for the writer or has returned, every invocation has ended. -/
theorem State.Attended.ended (attended : state.Attended setup)
    (settled : state.phase.isSettled = true) {invocation : Invocation}
    (member : invocation ∈ state.invocations) : invocation.stage.isEnded = true :=
  (attended.fits invocation member).joined (attended.settled settled invocation member)

end MempoolWatch.Pipeline

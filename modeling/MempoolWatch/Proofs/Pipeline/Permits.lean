import MempoolWatch.Proofs.Pipeline.Accounting

/-! Back-pressure. Every permit is free, held by the loop or held by an invocation that
has not ended, and every end of the queue belongs to the loop or to such an invocation.
Together with the room of the queue this bounds how far the reading of hashes can be
ahead of the recording of events. -/
namespace MempoolWatch.Pipeline

/-- The permit that the loop holds while it waits for a hash. -/
def Phase.heldPermits : Phase → Nat
  | .listening => 1
  | _ => 0

/-- The loop's own end of the queue, until it stops listening. -/
def Phase.heldSenders (phase : Phase) : Nat :=
  phase.isOpen.toNat

theorem Phase.heldPermits_of_closed {phase : Phase} (closed : phase.isOpen = false) :
    phase.heldPermits = 0 := by
  cases phase <;> first | rfl | contradiction

section Counts

variable {before after : List Invocation} {invocation replacement : Invocation}

theorem runningCount_replaced (same : replacement.stage.isEnded = invocation.stage.isEnded) :
    runningCount (before ++ replacement :: after) =
      runningCount (before ++ invocation :: after) :=
  countP_replaced before after (congrArg (! ·) same)

theorem runningCount_ended {ending : Ending} (running : invocation.stage.isEnded = false) :
    runningCount (before ++ invocation.atStage (.ended ending) :: after) + 1 =
      runningCount (before ++ invocation :: after) := by
  simp only [runningCount, List.countP_append, List.countP_cons, running,
    Invocation.atStage_stage, Stage.isEnded_ended, Bool.not_true, Bool.not_false, if_true,
    Bool.false_eq_true, if_false]
  omega

theorem runningCount_spawned (invocations : List Invocation) (hash : Hash) :
    runningCount (invocations ++ [.spawn hash]) = runningCount invocations + 1 := by
  simp [runningCount]

end Counts

variable {σ : Type} {setup : Setup} {state next : State σ} {action : Action}

/-- What is held in every state of a run: each permit, each end of the queue, and no more
events than there is room for. -/
structure State.Balanced (setup : Setup) (state : State σ) : Prop where
  permits : state.free + state.phase.heldPermits + runningCount state.invocations =
    setup.settings.permits
  senders : state.senders = state.phase.heldSenders + runningCount state.invocations
  room : state.queue.length ≤ setup.settings.capacity

namespace State.Balanced

theorem start (ledger : Ledger σ) : (State.start setup ledger).Balanced setup :=
  ⟨rfl, rfl, Nat.zero_le _⟩

/-- A change that keeps as many invocations running and leaves the rest alone. -/
theorem of_running (balanced : state.Balanced setup) (free : next.free = state.free)
    (phase : next.phase = state.phase) (senders : next.senders = state.senders)
    (queue : next.queue = state.queue)
    (running : runningCount next.invocations = runningCount state.invocations) :
    next.Balanced setup :=
  ⟨by rw [free, phase, running, balanced.permits],
    by rw [senders, phase, running, balanced.senders], by rw [queue]; exact balanced.room⟩

/-- A permit and an end of the queue come back when an invocation ends. -/
theorem of_ended {before after : List Invocation} {invocation : Invocation}
    (balanced : state.Balanced setup) (ending : Ending)
    (split : state.invocations = before ++ invocation :: after)
    (running : invocation.stage.isEnded = false) :
    { state with
      invocations := before ++ invocation.atStage (.ended ending) :: after
      free := state.free + 1
      senders := state.senders - 1 }.Balanced setup := by
  have fewer : runningCount (before ++ invocation.atStage (.ended ending) :: after) + 1 =
      runningCount state.invocations := split ▸ runningCount_ended running
  obtain ⟨permits, senders, room⟩ := balanced
  refine ⟨?_, ?_, room⟩
  · simp only
    omega
  · simp only
    omega

theorem of_stopListening {why : Termination} (balanced : state.Balanced setup)
    (listens : state.phase.isOpen = true) : (state.stopListening setup why).Balanced setup := by
  obtain ⟨permits, senders, room⟩ := balanced
  have released : (state.stopListening setup why).free = state.free + state.phase.heldPermits := by
    cases phase : state.phase <;> simp [stopListening, phase, Phase.heldPermits]
  refine ⟨?_, ?_, room⟩
  · rw [released]
    exact permits
  · rw [Phase.heldSenders, listens] at senders
    show state.senders - 1 = 0 + runningCount state.invocations
    rw [senders, Bool.toNat_true, Nat.add_sub_cancel_left, Nat.zero_add]

theorem of_cutShort {why : Termination} {deadline : Nat} (balanced : state.Balanced setup)
    (draining : state.phase = .draining why deadline) : (state.cutShort why).Balanced setup := by
  obtain ⟨permits, senders, room⟩ := balanced
  rw [draining] at permits senders
  unfold cutShort
  split <;> exact ⟨permits, senders, room⟩

end State.Balanced

variable [Report.Sink σ]

theorem Transition.balanced (case : Transition setup state action next)
    (balanced : state.Balanced setup) : next.Balanced setup := by
  cases case with
  | advance | signal => exact balanced.of_running rfl rfl rfl rfl rfl
  | interruptListening pending listens =>
    have taken : { state with signals := state.signals - 1 }.Balanced setup :=
      balanced.of_running rfl rfl rfl rfl rfl
    exact taken.of_stopListening listens
  | interruptDraining pending draining =>
    have taken : { state with signals := state.signals - 1 }.Balanced setup :=
      balanced.of_running rfl rfl rfl rfl rfl
    exact taken.of_cutShort draining
  | join split attends ended =>
    refine balanced.of_running rfl rfl rfl rfl ?_
    rw [split]
    exact runningCount_replaced rfl
  | acquire acquiring quiet free =>
    obtain ⟨permits, senders, room⟩ := balanced
    rw [acquiring] at permits senders
    refine ⟨?_, senders, room⟩
    simp only [Phase.heldPermits] at permits ⊢
    omega
  | @readHash hash rest listening =>
    obtain ⟨permits, senders, room⟩ := balanced
    rw [listening] at permits senders
    have more := runningCount_spawned state.invocations hash
    refine ⟨?_, ?_, room⟩
    · simp only [Phase.heldPermits] at permits ⊢
      omega
    · show state.senders + 1 = 1 + runningCount (state.invocations ++ [.spawn hash])
      rw [senders, more, ← Nat.add_assoc]
      rfl
  | @readFault cause rest listening =>
    have taken : { state with unread := rest }.Balanced setup :=
      balanced.of_running rfl rfl rfl rfl rfl
    exact taken.of_stopListening (by rw [listening]; rfl)
  | readEnd listening => exact balanced.of_stopListening (by rw [listening]; rfl)
  | fetch split spawned =>
    refine balanced.of_running rfl rfl rfl rfl ?_
    rw [split]
    exact runningCount_replaced (by rw [spawned]; rfl)
  | analyze split fetching =>
    refine balanced.of_running rfl rfl rfl rfl ?_
    rw [split]
    exact runningCount_replaced (by rw [fetching]; rfl)
  | crash split fetching => exact balanced.of_ended .crashed split (by rw [fetching]; rfl)
  | deliver split sending roomLeft =>
    obtain ⟨permits, senders, _⟩ :=
      balanced.of_ended .delivered split (by rw [sending]; rfl)
    refine ⟨permits, senders, ?_⟩
    rw [List.length_append, List.length_singleton]
    exact roomLeft
  | abort split aborting running => exact balanced.of_ended .aborted split running
  | expire draining => exact balanced.of_cutShort draining
  | settleDraining phase | settleAborting phase | finish phase =>
    obtain ⟨permits, senders, room⟩ := balanced
    rw [phase] at permits senders
    exact ⟨permits, senders, room⟩
  | record time queue =>
    obtain ⟨permits, senders, room⟩ := balanced
    rw [queue, List.length_cons] at room
    exact ⟨permits, senders, Nat.le_of_succ_le room⟩

theorem Reaches.balanced {ledger : Ledger σ} {actions : List Action}
    (run : Reaches setup (.start setup ledger) actions state) : state.Balanced setup :=
  run.invariant Transition.balanced (.start ledger)

/-- Only the reading step touches the feed. -/
theorem Transition.unread_eq (case : Transition setup state action next)
    (other : action ≠ .read) : next.unread = state.unread := by
  cases case with
  | readHash | readFault | readEnd => contradiction
  | interruptListening | advance | signal | interruptDraining | join | acquire | fetch | analyze
  | crash | deliver | abort | expire | settleDraining | settleAborting | record | finish => rfl

theorem Transition.listening_of_read (case : Transition setup state .read next) :
    state.phase = .listening := by
  cases case with
  | readHash listening | readFault listening | readEnd listening => exact listening

/-- A hash that was read is recorded, in the queue, still worked on, or came to another end. -/
theorem State.Conserves.length_hashes {base : Ledger σ} (conserves : state.Conserves setup base) :
    state.hashes.length = state.recorded.length + state.queue.length +
      runningCount state.invocations + (state.endedBy .crashed).length +
      (state.endedBy .aborted).length := by
  have stages := length_eq_stages state.invocations
  have delivered := conserves.length_delivered
  simp only [← State.length_endedBy] at stages
  rw [State.hashes, List.length_map]
  omega

/-- In every state of a run each permit is free, held by the loop, or held by an invocation
that has neither delivered its event nor crashed nor been aborted, so that all are free when
every invocation has ended. The feed is read only by a loop that holds a permit, and the
queue never overflows. Hence the hashes read are ahead of the events recorded, the crashes
and the aborted invocations by no more than the permits and the room of the queue. -/
theorem reading_held_back {ledger : Ledger σ} {actions : List Action}
    (run : Reaches setup (.start setup ledger) actions state) :
    state.free + state.phase.heldPermits + runningCount state.invocations =
      max 1 setup.settings.maxInFlight ∧
    ((∀ invocation ∈ state.invocations, invocation.stage.isEnded = true) →
      state.phase.isOpen = false → state.free = max 1 setup.settings.maxInFlight) ∧
    (∀ next, state.step? setup .read = some next → state.phase.heldPermits = 1) ∧
    (∀ action next, state.step? setup action = some next → action ≠ .read →
      next.unread = state.unread) ∧
    state.queue.length ≤ max 1 setup.settings.queueCapacity ∧
    state.hashes.length ≤ state.recorded.length + (state.endedBy .crashed).length +
      (state.endedBy .aborted).length +
      (max 1 setup.settings.maxInFlight + max 1 setup.settings.queueCapacity) := by
  obtain ⟨permits, _, room⟩ := run.balanced
  have hashes := run.conserves.length_hashes
  rw [Settings.permits] at permits
  rw [Settings.capacity] at room
  refine ⟨permits, ?_, ?_, ?_, room, by omega⟩
  · intro ended closed
    rw [runningCount_eq_zero_iff.mpr ended, Phase.heldPermits_of_closed closed] at permits
    exact permits
  · intro next step
    rw [(Transition.of_step step).listening_of_read]
    rfl
  · intro action next step other
    exact (Transition.of_step step).unread_eq other

/-- The smallest pipeline, which the settings make of zeros, and three hashes to read. -/
def narrowPipeline : Setup where
  settings := { maxInFlight := 0, queueCapacity := 0 }
  analyze := fun hash => ⟨some (.notFound hash), 0⟩
  feed := [.ok (.fill 32 1), .ok (.fill 32 2), .ok (.fill 32 3)]
  staysOpen := true

/-- The event of the first hash fills the queue, and the invocation of the second one waits
for room with the only permit. -/
def narrowPipelineFull : Option (State Report.Transcript) :=
  (State.start narrowPipeline (.new freshTranscript)).perform? narrowPipeline
    [.acquire, .read, .fetch 0, .analyze 0, .deliver 0, .acquire, .read, .fetch 1, .analyze 1]

/-- Two hashes are read there and nothing is recorded: the bound is reached. -/
theorem narrow_pipeline_holds_back :
    ∃ state actions, narrowPipelineFull = some state ∧
      Reaches narrowPipeline (.start narrowPipeline (.new freshTranscript)) actions state ∧
      state.hashes.length = 2 ∧ state.recorded = [] ∧ state.free = 0 ∧
      state.free + state.phase.heldPermits + runningCount state.invocations = 1 ∧
      state.queue.length ≤ 1 ∧
      state.hashes.length ≤ state.recorded.length + (state.endedBy .crashed).length +
        (state.endedBy .aborted).length + (1 + 1) := by
  obtain ⟨state, reached⟩ : ∃ state, narrowPipelineFull = some state :=
    Option.isSome_iff_exists.mp (by decide +kernel)
  have run := Reaches.of_perform reached
  obtain ⟨permits, _, _, _, room, bound⟩ := reading_held_back run
  have reading : narrowPipelineFull.map (·.hashes.length) = some 2 := by decide +kernel
  have recording : narrowPipelineFull.map (·.recorded) = some [] := by rfl
  have holding : narrowPipelineFull.map (·.free) = some 0 := by decide +kernel
  simp only [reached, Option.map_some, Option.some.injEq] at reading recording holding
  exact ⟨state, _, reached, run, reading, recording, holding, permits, room, bound⟩

end MempoolWatch.Pipeline

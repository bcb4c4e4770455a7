import MempoolWatch.Pipeline.Step

/-! What a step of a run can do, one case for each way in which a state changes.
The cases hold the guards of the step and name the invocation it is about by the
invocations before and behind it, so that a measure of the invocations is
compared part by part. A step is possible exactly when a case applies, and what
every case preserves holds along every run. -/
namespace MempoolWatch.Pipeline

/-- The loop reads the feed, or is about to. -/
def Phase.isOpen : Phase → Bool
  | .acquiring | .listening => true
  | _ => false

/-- The invocations as they are after one of them has gone to another stage. -/
def Invocation.atStage (invocation : Invocation) (stage : Stage) : Invocation :=
  { invocation with stage }

/-- The loop has taken notice of the end of the invocation. -/
def Invocation.noticed (invocation : Invocation) : Invocation :=
  { invocation with joined := true }

namespace Invocation

@[simp] theorem atStage_hash (invocation : Invocation) (stage : Stage) :
    (invocation.atStage stage).hash = invocation.hash := rfl

@[simp] theorem atStage_stage (invocation : Invocation) (stage : Stage) :
    (invocation.atStage stage).stage = stage := rfl

@[simp] theorem atStage_joined (invocation : Invocation) (stage : Stage) :
    (invocation.atStage stage).joined = invocation.joined := rfl

@[simp] theorem noticed_hash (invocation : Invocation) :
    invocation.noticed.hash = invocation.hash := rfl

@[simp] theorem noticed_stage (invocation : Invocation) :
    invocation.noticed.stage = invocation.stage := rfl

@[simp] theorem noticed_joined (invocation : Invocation) : invocation.noticed.joined = true := rfl

@[simp] theorem spawn_hash (hash : Hash) : (spawn hash).hash = hash := rfl

@[simp] theorem spawn_stage (hash : Hash) : (spawn hash).stage = .spawned := rfl

@[simp] theorem spawn_joined (hash : Hash) : (spawn hash).joined = false := rfl

theorem isJoinable_iff {invocation : Invocation} :
    invocation.isJoinable = true ↔ invocation.stage.isEnded = true ∧ invocation.joined = false := by
  simp [isJoinable]

end Invocation

variable {σ : Type} [Report.Sink σ] {setup : Setup}

/-- The ways in which an action changes a state, with what each asks of the state. -/
inductive Transition (setup : Setup) (state : State σ) : Action → State σ → Prop
  | advance (milliseconds : Nat) :
      Transition setup state (.advance milliseconds)
        { state with clock := state.clock + milliseconds }
  | signal : Transition setup state .signal { state with signals := state.signals + 1 }
  | interruptListening (pending : 0 < state.signals) (listens : state.phase.isOpen = true) :
      Transition setup state .interrupt
        ({ state with signals := state.signals - 1 }.stopListening setup .interrupted)
  | interruptDraining {why : Termination} {deadline : Nat} (pending : 0 < state.signals)
      (draining : state.phase = .draining why deadline) :
      Transition setup state .interrupt ({ state with signals := state.signals - 1 }.cutShort why)
  | join {before after : List Invocation} {invocation : Invocation}
      (split : state.invocations = before ++ invocation :: after)
      (attends : state.attendsJoins = true) (ended : invocation.stage.isEnded = true)
      (unjoined : invocation.joined = false) :
      Transition setup state (.join before.length)
        { state with invocations := before ++ invocation.noticed :: after }
  | acquire (acquiring : state.phase = .acquiring) (quiet : state.signals = 0)
      (free : 0 < state.free) :
      Transition setup state .acquire { state with phase := .listening, free := state.free - 1 }
  | readHash {hash : Hash} {rest : List (Except Fault Hash)} (listening : state.phase = .listening)
      (quiet : state.signals = 0) (unread : state.unread = .ok hash :: rest) :
      Transition setup state .read { state with
        phase := .acquiring
        unread := rest
        invocations := state.invocations ++ [.spawn hash]
        senders := state.senders + 1 }
  | readFault {cause : Fault} {rest : List (Except Fault Hash)}
      (listening : state.phase = .listening) (quiet : state.signals = 0)
      (unread : state.unread = .error cause :: rest) :
      Transition setup state .read
        ({ state with unread := rest }.stopListening setup (.transport cause.message))
  | readEnd (listening : state.phase = .listening) (quiet : state.signals = 0)
      (unread : state.unread = []) (closes : setup.staysOpen = false) :
      Transition setup state .read (state.stopListening setup .closed)
  | fetch {before after : List Invocation} {invocation : Invocation}
      (split : state.invocations = before ++ invocation :: after)
      (spawned : invocation.stage = .spawned) :
      Transition setup state (.fetch before.length)
        { state with invocations := before ++ invocation.atStage (.fetching state.clock) :: after }
  | analyze {before after : List Invocation} {invocation : Invocation} {since : Nat} {event : Event}
      (split : state.invocations = before ++ invocation :: after)
      (fetching : invocation.stage = .fetching since)
      (yields : (setup.analyze invocation.hash).event? = some event) :
      Transition setup state (.analyze before.length)
        { state with invocations := before ++ invocation.atStage (.sending event) :: after }
  | crash {before after : List Invocation} {invocation : Invocation} {since : Nat}
      (split : state.invocations = before ++ invocation :: after)
      (fetching : invocation.stage = .fetching since)
      (crashes : (setup.analyze invocation.hash).event? = none) :
      Transition setup state (.analyze before.length) { state with
        invocations := before ++ invocation.atStage (.ended .crashed) :: after
        free := state.free + 1
        senders := state.senders - 1 }
  | deliver {before after : List Invocation} {invocation : Invocation} {event : Event}
      (split : state.invocations = before ++ invocation :: after)
      (sending : invocation.stage = .sending event)
      (room : state.queue.length < setup.settings.capacity) :
      Transition setup state (.deliver before.length) { state with
        invocations := before ++ invocation.atStage (.ended .delivered) :: after
        free := state.free + 1
        senders := state.senders - 1
        queue := state.queue ++ [event] }
  | abort {before after : List Invocation} {invocation : Invocation} {why : Termination}
      {aborted : Nat} (split : state.invocations = before ++ invocation :: after)
      (aborting : state.phase = .aborting why aborted)
      (running : invocation.stage.isEnded = false) :
      Transition setup state (.abort before.length) { state with
        invocations := before ++ invocation.atStage (.ended .aborted) :: after
        free := state.free + 1
        senders := state.senders - 1 }
  | expire {why : Termination} {deadline : Nat} (draining : state.phase = .draining why deadline)
      (due : deadline ≤ state.clock) :
      Transition setup state .expire (state.cutShort why)
  | settleDraining {why : Termination} {deadline : Nat}
      (draining : state.phase = .draining why deadline) (quiet : state.signals = 0)
      (settled : state.unjoined = 0) :
      Transition setup state .settle { state with phase := .closing why 0 }
  | settleAborting {why : Termination} {aborted : Nat}
      (aborting : state.phase = .aborting why aborted) (settled : state.unjoined = 0) :
      Transition setup state .settle { state with phase := .closing why aborted }
  | record (time : TimeOfDay) {event : Event} {rest : List Event}
      (queue : state.queue = event :: rest) :
      Transition setup state (.record time) { state with
        queue := rest
        recorded := state.recorded ++ [(time, event)]
        ledger := state.ledger.record time event }
  | finish {why : Termination} {aborted : Nat} (closing : state.phase = .closing why aborted)
      (queue : state.queue = []) (last : state.senders = 0) :
      Transition setup state .finish
        { state with phase := .returned why aborted, ledger := state.ledger.finish }

/-- The list around an entry, with any change of that entry. -/
theorem exists_split {α : Type} {entries : List α} {index : Nat} {entry : α}
    (found : entries[index]? = some entry) :
    ∃ before after, entries = before ++ entry :: after ∧ index = before.length ∧
      ∀ change : α → α, entries.modify index change = before ++ change entry :: after := by
  obtain ⟨inside, same⟩ := List.getElem?_eq_some_iff.mp found
  refine ⟨entries.take index, entries.drop (index + 1), ?_, ?_, ?_⟩
  · rw [← same, List.getElem_cons_drop, List.take_append_drop]
  · rw [List.length_take_of_le (Nat.le_of_lt inside)]
  · intro change
    rw [List.modify_eq_take_cons_drop inside, same]

theorem getElem?_split {α : Type} (before after : List α) (entry : α) :
    (before ++ entry :: after)[before.length]? = some entry := by
  simp

theorem modify_split {α : Type} (before after : List α) (entry : α) (change : α → α) :
    (before ++ entry :: after).modify before.length change = before ++ change entry :: after := by
  obtain ⟨front, back, split, size, modified⟩ := exists_split (getElem?_split before after entry)
  obtain ⟨rfl, rest⟩ := List.append_inj split size
  cases rest
  exact modified change

namespace Transition

variable {state next : State σ}

theorem of_interrupt (step : state.interrupt? setup = some next) :
    Transition setup state .interrupt next := by
  unfold State.interrupt? at step
  split at step
  · contradiction
  · next some =>
    have pending : 0 < state.signals := Nat.pos_of_ne_zero some
    simp only at step
    split at step
    · next acquiring =>
      cases step
      exact .interruptListening pending (by simp only [acquiring]; rfl)
    · next listening =>
      cases step
      exact .interruptListening pending (by simp only [listening]; rfl)
    · next why deadline draining =>
      cases step
      exact .interruptDraining pending draining
    · contradiction

theorem of_join {index : Nat} (step : state.join? index = some next) :
    Transition setup state (.join index) next := by
  simp only [State.join?, Option.bind_eq_bind, Option.bind_eq_some_iff] at step
  obtain ⟨invocation, found, step⟩ := step
  split at step
  · next guards =>
    obtain ⟨before, after, split, rfl, modified⟩ := exists_split found
    obtain ⟨ended, unjoined⟩ := Invocation.isJoinable_iff.mp guards.2
    cases step
    rw [modified]
    exact .join split guards.1 ended unjoined
  · contradiction

theorem of_acquire (step : state.acquire? = some next) : Transition setup state .acquire next := by
  unfold State.acquire? at step
  split at step
  · next guards =>
    cases step
    exact .acquire guards.1 guards.2.1 guards.2.2
  · contradiction

theorem of_read (step : state.read? setup = some next) : Transition setup state .read next := by
  unfold State.read? at step
  split at step
  · next guards =>
    split at step
    · next hash rest unread =>
      cases step
      exact .readHash guards.1 guards.2 unread
    · next cause rest unread =>
      cases step
      exact .readFault guards.1 guards.2 unread
    · next unread =>
      split at step
      · contradiction
      · next closes =>
        cases step
        exact .readEnd guards.1 guards.2 unread (eq_false_of_ne_true closes)
  · contradiction

theorem of_fetch {index : Nat} (step : state.fetch? index = some next) :
    Transition setup state (.fetch index) next := by
  simp only [State.fetch?, Option.bind_eq_bind, Option.bind_eq_some_iff] at step
  obtain ⟨invocation, found, step⟩ := step
  split at step
  · next spawned =>
    obtain ⟨before, after, split, rfl, modified⟩ := exists_split found
    cases step
    simp only [State.setStage, modified]
    exact .fetch split spawned
  · contradiction

theorem of_analyze {index : Nat} (step : state.analyze? setup index = some next) :
    Transition setup state (.analyze index) next := by
  simp only [State.analyze?, Option.bind_eq_bind, Option.bind_eq_some_iff] at step
  obtain ⟨invocation, found, step⟩ := step
  split at step
  · next since fetching =>
    obtain ⟨before, after, split, rfl, modified⟩ := exists_split found
    split at step
    · next event yields =>
      cases step
      simp only [State.setStage, modified]
      exact .analyze split fetching yields
    · next crashes =>
      cases step
      simp only [State.conclude, State.setStage, modified]
      exact .crash split fetching crashes
  · contradiction

theorem of_deliver {index : Nat} (step : state.deliver? setup index = some next) :
    Transition setup state (.deliver index) next := by
  simp only [State.deliver?, Option.bind_eq_bind, Option.bind_eq_some_iff] at step
  obtain ⟨invocation, found, step⟩ := step
  split at step
  · next event sending =>
    obtain ⟨before, after, split, rfl, modified⟩ := exists_split found
    split at step
    · next room =>
      cases step
      simp only [State.conclude, State.setStage, modified]
      exact .deliver split sending room
    · contradiction
  · contradiction

theorem of_abort {index : Nat} (step : state.abort? index = some next) :
    Transition setup state (.abort index) next := by
  simp only [State.abort?, Option.bind_eq_bind, Option.bind_eq_some_iff] at step
  obtain ⟨invocation, found, step⟩ := step
  split at step
  · next why aborted aborting =>
    obtain ⟨before, after, split, rfl, modified⟩ := exists_split found
    split at step
    · contradiction
    · next running =>
      cases step
      simp only [State.conclude, State.setStage, modified]
      exact .abort split aborting (eq_false_of_ne_true running)
  · contradiction

theorem of_expire (step : state.expire? = some next) : Transition setup state .expire next := by
  unfold State.expire? at step
  split at step
  · next why deadline draining =>
    split at step
    · next due =>
      cases step
      exact .expire draining due
    · contradiction
  · contradiction

theorem of_settle (step : state.settle? = some next) : Transition setup state .settle next := by
  unfold State.settle? at step
  split at step
  · next settled =>
    split at step
    · next why deadline draining =>
      split at step
      · next quiet =>
        cases step
        exact .settleDraining draining quiet settled
      · contradiction
    · next why aborted aborting =>
      cases step
      exact .settleAborting aborting settled
    · contradiction
  · contradiction

theorem of_record {time : TimeOfDay} (step : state.record? time = some next) :
    Transition setup state (.record time) next := by
  unfold State.record? at step
  split at step
  · next event rest queue =>
    cases step
    exact .record time queue
  · contradiction

theorem of_finish (step : state.finish? = some next) : Transition setup state .finish next := by
  unfold State.finish? at step
  split at step
  · next why aborted closing queue =>
    split at step
    · next last =>
      cases step
      exact .finish closing queue last
    · contradiction
  · contradiction

theorem of_step {action : Action} (step : state.step? setup action = some next) :
    Transition setup state action next := by
  cases action with
  | advance milliseconds => cases step; exact .advance milliseconds
  | signal => cases step; exact .signal
  | interrupt => exact of_interrupt step
  | join index => exact of_join step
  | acquire => exact of_acquire step
  | read => exact of_read step
  | fetch index => exact of_fetch step
  | analyze index => exact of_analyze step
  | deliver index => exact of_deliver step
  | abort index => exact of_abort step
  | expire => exact of_expire step
  | settle => exact of_settle step
  | record time => exact of_record step
  | finish => exact of_finish step

/-- Every case is possible in its state. -/
theorem possible {action : Action} (case : Transition setup state action next) :
    state.step? setup action = some next := by
  cases case with
  | advance milliseconds => rfl
  | signal => rfl
  | interruptListening pending listens =>
    have some : state.signals ≠ 0 := Nat.ne_of_gt pending
    cases phase : state.phase <;> simp_all [State.step?, State.interrupt?, Phase.isOpen]
  | interruptDraining pending draining =>
    have some : state.signals ≠ 0 := Nat.ne_of_gt pending
    simp only [State.step?, State.interrupt?, if_neg some, draining]
  | join split attends ended unjoined =>
    have joinable := Invocation.isJoinable_iff.mpr ⟨ended, unjoined⟩
    simp only [State.step?, State.join?, split, getElem?_split, modify_split, Option.bind_eq_bind,
      Option.bind_some, attends, joinable, and_self, if_true]
    rfl
  | acquire acquiring quiet free =>
    simp only [State.step?, State.acquire?, acquiring, quiet, free, and_self, if_true]
  | readHash listening quiet unread =>
    simp only [State.step?, State.read?, listening, quiet, and_self, if_true, unread]
  | readFault listening quiet unread =>
    simp only [State.step?, State.read?, listening, quiet, and_self, if_true, unread]
  | readEnd listening quiet unread closes =>
    simp only [State.step?, State.read?, listening, quiet, and_self, if_true, unread, closes,
      Bool.false_eq_true, if_false]
  | fetch split spawned =>
    simp only [State.step?, State.fetch?, State.setStage, split, getElem?_split, modify_split,
      Option.bind_eq_bind, Option.bind_some, spawned]
    rfl
  | analyze split fetching yields =>
    simp only [State.step?, State.analyze?, State.setStage, split, getElem?_split, modify_split,
      Option.bind_eq_bind, Option.bind_some, fetching, yields]
    rfl
  | crash split fetching crashes =>
    simp only [State.step?, State.analyze?, State.conclude, State.setStage, split, getElem?_split,
      modify_split, Option.bind_eq_bind, Option.bind_some, fetching, crashes]
    rfl
  | deliver split sending room =>
    simp only [State.step?, State.deliver?, State.conclude, State.setStage, split, getElem?_split,
      modify_split, Option.bind_eq_bind, Option.bind_some, sending, if_pos room]
    rfl
  | abort split aborting running =>
    simp only [State.step?, State.abort?, State.conclude, State.setStage, split, getElem?_split,
      modify_split, Option.bind_eq_bind, Option.bind_some, aborting, running, Bool.false_eq_true,
      if_false]
    rfl
  | expire draining due => simp only [State.step?, State.expire?, draining, if_pos due]
  | settleDraining draining quiet settled =>
    simp only [State.step?, State.settle?, draining, quiet, settled, if_true]
  | settleAborting aborting settled =>
    simp only [State.step?, State.settle?, aborting, settled, if_true]
  | record time queue => simp only [State.step?, State.record?, queue]
  | finish closing queue last =>
    simp only [State.step?, State.finish?, closing, queue, last, if_true]

end Transition

/-- Takes actions one after another, if all of them are possible. -/
def State.perform? (setup : Setup) : List Action → State σ → Option (State σ)
  | [], state => some state
  | action :: actions, state => (state.step? setup action).bind (perform? setup actions)

namespace Reaches

variable {first last : State σ} {actions : List Action}

theorem of_perform (performed : first.perform? setup actions = some last) :
    Reaches setup first actions last := by
  induction actions generalizing first with
  | nil =>
    cases performed
    exact .refl _
  | cons action actions ih =>
    obtain ⟨second, step, rest⟩ := Option.bind_eq_some_iff.mp performed
    exact .next step (ih rest)

/-- What every step keeps holds at the end of a run if it holds at its start. -/
theorem invariant {holds : State σ → Prop} (run : Reaches setup first actions last)
    (keeps : ∀ {state next action}, Transition setup state action next → holds state → holds next)
    (initial : holds first) : holds last := by
  induction run with
  | refl => exact initial
  | next step _ ih => exact ih (keeps (.of_step step) initial)

end Reaches

end MempoolWatch.Pipeline

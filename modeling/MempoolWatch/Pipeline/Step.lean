import MempoolWatch.Pipeline.State

/-! The steps of a run. The loop, the invocations, the writer and the outside world
take turns in any order; a step is possible or not in the state at hand. Where
several things are ready for the loop at once, a stop signal comes first. -/
namespace MempoolWatch.Pipeline

inductive Action
  /-- Time passes. -/
  | advance (milliseconds : Nat)
  /-- A stop signal arrives. -/
  | signal
  /-- The loop takes a stop signal. -/
  | interrupt
  /-- The loop takes notice of an invocation that has ended. -/
  | join (index : Nat)
  /-- The loop takes a permit. -/
  | acquire
  /-- The loop reads the next item of the feed, or its end. -/
  | read
  /-- An invocation asks for its transaction. -/
  | fetch (index : Nat)
  /-- An invocation gets its answer, and with it analyses the transaction. -/
  | analyze (index : Nat)
  /-- An invocation puts its event into the queue. -/
  | deliver (index : Nat)
  /-- An invocation is stopped before its event is in the queue. -/
  | abort (index : Nat)
  /-- The deadline for the invocations has passed. -/
  | expire
  /-- All invocations have been taken notice of. -/
  | settle
  /-- The writer records the first event of the queue. -/
  | record (time : TimeOfDay)
  /-- The writer is done, and the run ends with the summary. -/
  | finish
deriving DecidableEq

namespace State

variable {σ : Type}

def interrupt? (setup : Setup) (state : State σ) : Option (State σ) :=
  if state.signals = 0 then none
  else
    let state := { state with signals := state.signals - 1 }
    match state.phase with
    | .acquiring | .listening => some (state.stopListening setup .interrupted)
    | .draining why _ => some (state.cutShort why)
    | _ => none

/-- The loop takes notice of ended invocations. -/
def attendsJoins (state : State σ) : Bool :=
  match state.phase with
  | .acquiring | .draining _ _ => state.signals = 0
  | .aborting _ _ => true
  | _ => false

def join? (index : Nat) (state : State σ) : Option (State σ) := do
  let invocation ← state.invocations[index]?
  if state.attendsJoins ∧ invocation.isJoinable then
    return { state with
      invocations := state.invocations.modify index fun invocation =>
        { invocation with joined := true } }
  else none

def acquire? (state : State σ) : Option (State σ) :=
  if state.phase = .acquiring ∧ state.signals = 0 ∧ 0 < state.free then
    some { state with phase := .listening, free := state.free - 1 }
  else none

/-- A hash gets an invocation, to which the permit of the loop passes, with an end of
the queue for its event. -/
def read? (setup : Setup) (state : State σ) : Option (State σ) :=
  if state.phase = .listening ∧ state.signals = 0 then
    match state.unread with
    | .ok hash :: rest =>
      some { state with
        phase := .acquiring
        unread := rest
        invocations := state.invocations ++ [.spawn hash]
        senders := state.senders + 1 }
    | .error cause :: rest =>
      some ({ state with unread := rest }.stopListening setup (.transport cause.message))
    | [] => if setup.staysOpen then none else some (state.stopListening setup .closed)
  else none

def fetch? (index : Nat) (state : State σ) : Option (State σ) := do
  match (← state.invocations[index]?).stage with
  | .spawned => return state.setStage index (.fetching state.clock)
  | _ => none

/-- A crash ends the invocation. -/
def analyze? (setup : Setup) (index : Nat) (state : State σ) : Option (State σ) := do
  let invocation ← state.invocations[index]?
  match invocation.stage with
  | .fetching _ =>
    match (setup.analyze invocation.hash).event? with
    | some event => return state.setStage index (.sending event)
    | none => return state.conclude index .crashed
  | _ => none

def deliver? (setup : Setup) (index : Nat) (state : State σ) : Option (State σ) := do
  match (← state.invocations[index]?).stage with
  | .sending event =>
    if state.queue.length < setup.settings.capacity then
      return { state.conclude index .delivered with queue := state.queue ++ [event] }
    else none
  | _ => none

def abort? (index : Nat) (state : State σ) : Option (State σ) := do
  let invocation ← state.invocations[index]?
  match state.phase with
  | .aborting _ _ =>
    if invocation.stage.isEnded then none else return state.conclude index .aborted
  | _ => none

def expire? (state : State σ) : Option (State σ) :=
  match state.phase with
  | .draining why deadline => if deadline ≤ state.clock then some (state.cutShort why) else none
  | _ => none

def settle? (state : State σ) : Option (State σ) :=
  if state.unjoined = 0 then
    match state.phase with
    | .draining why _ =>
      if state.signals = 0 then some { state with phase := .closing why 0 } else none
    | .aborting why aborted => some { state with phase := .closing why aborted }
    | _ => none
  else none

def record? [Report.Sink σ] (time : TimeOfDay) (state : State σ) : Option (State σ) :=
  match state.queue with
  | event :: rest =>
    some { state with
      queue := rest
      recorded := state.recorded ++ [(time, event)]
      ledger := state.ledger.record time event }
  | [] => none

/-- The writer is done when the queue is empty and nobody can put an event into it. -/
def finish? [Report.Sink σ] (state : State σ) : Option (State σ) :=
  match state.phase, state.queue with
  | .closing why aborted, [] =>
    if state.senders = 0 then
      some { state with phase := .returned why aborted, ledger := state.ledger.finish }
    else none
  | _, _ => none

/-- The state after an action, if the action is possible. -/
def step? [Report.Sink σ] (setup : Setup) (action : Action) (state : State σ) :
    Option (State σ) :=
  match action with
  | .advance milliseconds => some { state with clock := state.clock + milliseconds }
  | .signal => some { state with signals := state.signals + 1 }
  | .interrupt => state.interrupt? setup
  | .join index => state.join? index
  | .acquire => state.acquire?
  | .read => state.read? setup
  | .fetch index => state.fetch? index
  | .analyze index => state.analyze? setup index
  | .deliver index => state.deliver? setup index
  | .abort index => state.abort? index
  | .expire => state.expire?
  | .settle => state.settle?
  | .record time => state.record? time
  | .finish => state.finish?

end State

/-- A run from one state to another, by its actions in order. -/
inductive Reaches {σ : Type} [Report.Sink σ] (setup : Setup) :
    State σ → List Action → State σ → Prop
  | refl (state : State σ) : Reaches setup state [] state
  | next {first second last : State σ} {action : Action} {actions : List Action} :
      first.step? setup action = some second → Reaches setup second actions last →
      Reaches setup first (action :: actions) last

theorem Reaches.trans {σ : Type} [Report.Sink σ] {setup : Setup} {first second last : State σ}
    {actions more : List Action} (before : Reaches setup first actions second)
    (behind : Reaches setup second more last) : Reaches setup first (actions ++ more) last := by
  induction before with
  | refl => exact behind
  | next step _ ih => exact .next step (ih behind)

end MempoolWatch.Pipeline

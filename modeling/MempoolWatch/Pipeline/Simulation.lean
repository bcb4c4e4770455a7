import MempoolWatch.Pipeline.Step

/-! A run on a clock of its own. Announcements, stop signals and the answers to
questions for transactions have set times, and everything else takes no time. At
any instant the loop goes on as far as it can, then the invocations and the
writer, and when nothing is possible the clock moves to the next set time. -/
namespace MempoolWatch.Pipeline

structure Timing where
  /-- When each item of the feed is there; an item waits for those before it. -/
  arrivals : List Nat
  signals : List Nat
  /-- How long the question for a transaction takes; nothing when it is never answered. -/
  delay : Hash → Option Nat

/-- A run under way, with what its times still hold in store. -/
structure Simulation (σ : Type) where
  state : State σ
  timing : Timing
  /-- It is the loop's turn, and not that of the invocations and the writer. -/
  loopTurn : Bool
  /-- The most transactions that were asked for at a time. -/
  peak : Nat
  /-- How often the gas price was asked for. -/
  gasQueries : Nat

namespace Simulation

variable {σ : Type}

def start (setup : Setup) (timing : Timing) (ledger : Ledger σ) : Simulation σ :=
  ⟨.start setup ledger, timing, true, 0, 0⟩

/-- The next item of the feed is there, or its end. -/
def isItemReady (setup : Setup) (simulation : Simulation σ) : Bool :=
  match simulation.timing.arrivals with
  | time :: _ => time ≤ simulation.state.clock
  | [] => ! setup.staysOpen

def findJoin? (state : State σ) : Option Action :=
  (state.invocations.findIdx? (·.isJoinable)).map .join

/-- What the loop does next. -/
def loopAction? (setup : Setup) (simulation : Simulation σ) : Option Action :=
  let state := simulation.state
  let interrupt := if 0 < state.signals then some Action.interrupt else none
  let settle := if state.unjoined = 0 then some Action.settle else none
  match state.phase with
  | .acquiring =>
    interrupt.or ((findJoin? state).or (if 0 < state.free then some .acquire else none))
  | .listening => interrupt.or (if simulation.isItemReady setup then some .read else none)
  | .draining _ deadline =>
    interrupt.or ((findJoin? state).or
      (settle.or (if deadline ≤ state.clock then some .expire else none)))
  | .aborting _ _ => (findJoin? state).or settle
  | .closing _ _ => if state.queue.isEmpty ∧ state.senders = 0 then some .finish else none
  | .returned _ _ => none

/-- When the question of an invocation is answered. -/
def answerTime? (timing : Timing) (invocation : Invocation) : Option Nat :=
  match invocation.stage with
  | .fetching since => (timing.delay invocation.hash).map (since + ·)
  | _ => none

/-- What an invocation does next. -/
def invocationAction? (setup : Setup) (simulation : Simulation σ) (index : Nat)
    (invocation : Invocation) : Option Action :=
  let state := simulation.state
  match state.phase, invocation.stage with
  | _, .ended _ => none
  | .aborting _ _, _ => some (.abort index)
  | _, .spawned => some (.fetch index)
  | _, .fetching _ =>
    match answerTime? simulation.timing invocation with
    | some time => if time ≤ state.clock then some (.analyze index) else none
    | none => none
  | _, .sending _ =>
    if state.queue.length < setup.settings.capacity then some (.deliver index) else none

/-- What the invocations, in the order of their start, or else the writer do next. -/
def otherAction? (setup : Setup) (time : TimeOfDay) (simulation : Simulation σ) :
    Option Action :=
  let state := simulation.state
  (state.invocations.zipIdx.findSome? fun (invocation, index) =>
    simulation.invocationAction? setup index invocation).or
    (if state.queue.isEmpty then none else some (.record time))

/-- The next set time after the present. -/
def nextTime? (simulation : Simulation σ) : Option Nat :=
  let state := simulation.state
  let deadline := match state.phase with
    | .draining _ deadline => [deadline]
    | _ => []
  let times := simulation.timing.arrivals.take 1 ++ simulation.timing.signals.take 1
    ++ state.invocations.filterMap (answerTime? simulation.timing) ++ deadline
  (times.filter (state.clock < ·)).min?

/-- A run does not wait longer than this, in milliseconds. -/
def patience : Nat := 1000000000

/-- The next action of the run, and whose turn it is then. Nothing when the run is
over, or when nothing can ever happen again. -/
def choose? (setup : Setup) (time : TimeOfDay) (simulation : Simulation σ) :
    Option (Action × Bool) :=
  let state := simulation.state
  match simulation.timing.signals with
  | due :: _ => if due ≤ state.clock then some (.signal, simulation.loopTurn) else others
  | [] => others
where
  others : Option (Action × Bool) :=
    let byLoop := (simulation.loopAction? setup).map (·, true)
    let byOthers := (simulation.otherAction? setup time).map (·, false)
    (if simulation.loopTurn then byLoop.or byOthers else byOthers.or byLoop).or
      (simulation.nextTime?.bind fun next =>
        if next ≤ patience then some (.advance (next - simulation.state.clock), true) else none)

/-- What remains of the set times after an action. -/
def Timing.after (timing : Timing) : Action → Timing
  | .read => { timing with arrivals := timing.arrivals.tail }
  | .signal => { timing with signals := timing.signals.tail }
  | _ => timing

/-- How often an action asks for the gas price. -/
def queries (setup : Setup) (state : State σ) : Action → Nat
  | .analyze index =>
    match state.invocations[index]? with
    | some invocation => (setup.analyze invocation.hash).gasQueries
    | none => 0
  | _ => 0

/-- Takes one action. -/
def next? [Report.Sink σ] (setup : Setup) (time : TimeOfDay) (simulation : Simulation σ) :
    Option (Simulation σ) := do
  let (action, loopTurn) ← simulation.choose? setup time
  let state ← simulation.state.step? setup action
  return {
    state := state
    timing := Timing.after simulation.timing action
    loopTurn := loopTurn
    peak := max simulation.peak state.fetching
    gasQueries := simulation.gasQueries + queries setup simulation.state action }

def run [Report.Sink σ] (setup : Setup) (time : TimeOfDay) : (fuel : Nat) → Simulation σ → Simulation σ
  | 0, simulation => simulation
  | fuel + 1, simulation =>
    match simulation.next? setup time with
    | some simulation => run setup time fuel simulation
    | none => simulation

/-- Each item of the feed and each signal is good for a few actions and a few
movements of the clock. -/
def enough (setup : Setup) (timing : Timing) : Nat :=
  16 * (setup.feed.length + timing.signals.length + 2)

/-- Runs to the end, or to where nothing can ever happen again. -/
def complete [Report.Sink σ] (setup : Setup) (timing : Timing) (time : TimeOfDay)
    (ledger : Ledger σ) : Simulation σ :=
  run setup time (enough setup timing) (start setup timing ledger)

end Simulation

end MempoolWatch.Pipeline

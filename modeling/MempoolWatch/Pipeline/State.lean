import MempoolWatch.Ledger

/-! The state of a run. A loop reads announced hashes, each hash gets an invocation
of its own, and a writer records the events that the invocations put into a queue.
An invocation holds one of a fixed number of permits from before its hash is read
until it has ended, and the queue is bounded, so that a slow node or a slow
writer holds back the reading. -/
namespace MempoolWatch.Pipeline

structure Settings where
  /-- How many transactions are analysed at a time. -/
  maxInFlight : Nat := 64
  /-- How many events wait for the writer. -/
  queueCapacity : Nat := 1024
  /-- How long the end of a run waits for invocations, in milliseconds. -/
  drain : Nat := 10000
deriving DecidableEq

namespace Settings

/-- At least one permit. -/
def permits (settings : Settings) : Nat :=
  max 1 settings.maxInFlight

/-- Room for at least one event. -/
def capacity (settings : Settings) : Nat :=
  max 1 settings.queueCapacity

end Settings

/-- Why listening ended. -/
inductive Termination
  /-- By a stop signal of the operator. -/
  | interrupted
  /-- The sequence of hashes ended. -/
  | closed
  | transport (reason : String)
deriving DecidableEq

/-- Only the operator ends a run cleanly. -/
def Termination.isClean : Termination → Bool
  | interrupted => true
  | _ => false

inductive Ending
  /-- The event is in the queue, or was there. -/
  | delivered
  | crashed
  | aborted
deriving DecidableEq

inductive Stage
  | spawned
  /-- The transaction was asked for at a time. -/
  | fetching (since : Nat)
  | sending (event : Event)
  | ended (ending : Ending)

/-- The work on one announced hash. -/
structure Invocation where
  hash : Hash
  stage : Stage
  /-- The loop has taken notice of the end. -/
  joined : Bool

namespace Stage

def isEnded : Stage → Bool
  | ended _ => true
  | _ => false

def isFetching : Stage → Bool
  | fetching _ => true
  | _ => false

end Stage

namespace Invocation

def spawn (hash : Hash) : Invocation := ⟨hash, .spawned, false⟩

/-- Ended, and not yet noticed by the loop. -/
def isJoinable (invocation : Invocation) : Bool :=
  invocation.stage.isEnded && ! invocation.joined

end Invocation

/-- What the loop is doing. -/
inductive Phase
  /-- Waits for a permit. -/
  | acquiring
  /-- Holds a permit and waits for a hash. -/
  | listening
  /-- Waits for the invocations until a deadline. -/
  | draining (why : Termination) (deadline : Nat)
  /-- Waits for the invocations that it has aborted; how many these were. -/
  | aborting (why : Termination) (aborted : Nat)
  /-- Waits for the writer. -/
  | closing (why : Termination) (aborted : Nat)
  | returned (why : Termination) (aborted : Nat)
deriving DecidableEq

structure State (σ : Type) where
  /-- Milliseconds since the start. -/
  clock : Nat
  /-- Stop signals that have arrived and were not taken. -/
  signals : Nat
  /-- The items of the feed that were not read. -/
  unread : List (Except Fault Hash)
  phase : Phase
  /-- Permits that nobody holds. -/
  free : Nat
  /-- In the order of their start; they stay when they have ended. -/
  invocations : List Invocation
  queue : List Event
  /-- The ends of the queue through which events can still come. The loop has one while
  it listens, and gives each invocation one of its own. -/
  senders : Nat
  /-- The events that have left the queue, with the times of their recording. -/
  recorded : List (TimeOfDay × Event)
  ledger : Ledger σ

/-- What a run is started with. -/
structure Setup where
  settings : Settings
  analyze : Hash → Analysis
  /-- The items that will be announced. -/
  feed : List (Except Fault Hash)
  /-- Nothing follows the last item, not even an end. -/
  staysOpen : Bool

namespace State

variable {σ : Type}

def start (setup : Setup) (ledger : Ledger σ) : State σ where
  clock := 0
  signals := 0
  unread := setup.feed
  phase := .acquiring
  free := setup.settings.permits
  invocations := []
  queue := []
  senders := 1
  recorded := []
  ledger := ledger

def unjoined (state : State σ) : Nat :=
  state.invocations.countP (! ·.joined)

/-- Transactions that are being asked for. -/
def fetching (state : State σ) : Nat :=
  state.invocations.countP (·.stage.isFetching)

/-- Moves an invocation to another stage. -/
def setStage (state : State σ) (index : Nat) (stage : Stage) : State σ :=
  { state with
    invocations := state.invocations.modify index fun invocation => { invocation with stage } }

/-- Ends an invocation and takes its permit back. Its end of the queue goes with it. -/
def conclude (state : State σ) (index : Nat) (ending : Ending) : State σ :=
  { state.setStage index (.ended ending) with
    free := state.free + 1
    senders := state.senders - 1 }

/-- Ends listening. A permit that the loop holds is free again, and the loop gives up its
own end of the queue. -/
def stopListening (state : State σ) (setup : Setup) (why : Termination) : State σ :=
  { state with
    phase := .draining why (state.clock + setup.settings.drain)
    free := match state.phase with
      | .listening => state.free + 1
      | _ => state.free
    senders := state.senders - 1 }

/-- Gives up waiting for the invocations that the loop has not taken notice of. -/
def cutShort (state : State σ) (why : Termination) : State σ :=
  { state with
    phase := if state.unjoined = 0 then .closing why 0 else .aborting why state.unjoined }

end State

end MempoolWatch.Pipeline

import MempoolWatch.CommandLine.Exit
import MempoolWatch.CommandLine.Options
import MempoolWatch.Params.Overlay
import MempoolWatch.Pipeline.Simulation
import MempoolWatch.Rpc.Client
import MempoolWatch.Subscription.Session

/-! The watching program: it reports on the pool, subscribes to pending transactions
and analyses each of them until it is stopped. Only a stop by the operator is a
success. -/
namespace MempoolWatch.CommandLine

/-- What the program meets. -/
structure World where
  /-- The content of the parameter file, if it could be read. -/
  paramsFile : Option Bytes
  exchange : Rpc.Call → Rpc.Reply
  connection : Subscription.Connection
  /-- The connection stays open behind its last message. -/
  staysOpen : Bool
  timing : Pipeline.Timing
  time : TimeOfDay

def Options.loadParams (options : Options) (world : World) : Except Failure Params :=
  match options.params with
  | none => .ok .defaults
  | some path => (Params.ofFile? path world.paramsFile).mapError (.params path)

def Options.display (options : Options) : Report.Display where
  showAll := options.showAll
  liveStatus := ! options.debug
  usdPrice := options.usdPrice

def Options.settings (options : Options) : Pipeline.Settings where
  maxInFlight := options.maxInFlight
  queueCapacity := options.queueCapacity
  drain := options.drainSeconds * 1000

/-- The run behind a confirmed subscription. -/
def Options.follow (options : Options) (world : World) (params : Params)
    (reporter : Report.Reporter Report.Output) (session : Subscription.Session) : Exit :=
  let node := Node.ofExchange world.exchange
  let setup : Pipeline.Setup := {
    settings := options.settings
    analyze := analyze node .standard (params.detectors node)
    feed := session.hashes.1
    staysOpen := world.staysOpen }
  let ledger := Ledger.new (reporter.subscribed session.id).1
  let state := (Pipeline.Simulation.complete setup world.timing world.time ledger).state
  let output := state.ledger.reporter.sink.written
  match state.phase with
  | .returned .closed _ => .failed output .closed
  | .returned (.transport reason) _ => .failed output (.transport reason)
  | _ => .success output

/-- Runs the program. -/
def Options.watch (options : Options) (world : World) : Exit :=
  match options.loadParams world with
  | .error failure => .failed [] failure
  | .ok params =>
    let reporter := Report.Reporter.new options.display (Report.Output.empty none)
    let (reporter, _) := reporter.banner options.socketUrl options.nodeUrl
    let (reporter, _) := reporter.snapshot (.ofNode (.ofExchange world.exchange))
    match Subscription.Session.connect world.connection with
    | .error cause => .failed reporter.sink.written (.connection cause)
    | .ok session => options.follow world params reporter session

/-- Does what a command line asks for. The description of the program is no concern
of this function. -/
def Request.perform (request : Request) (world : World) : Exit :=
  match request with
  | .run options => options.watch world
  | .help => .success []
  | .misuse => .misuse

end MempoolWatch.CommandLine

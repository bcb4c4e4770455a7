import MempoolWatch.CommandLine.Inquiry
import MempoolWatch.CommandLine.Watch

/-! The programs in a process. There is no network transport in this library, so
every endpoint is out of reach; whoever has one passes its exchange and its
connection to the functions of `CommandLine`. -/
open MempoolWatch
open MempoolWatch.CommandLine

namespace MempoolWatch.CommandLine

/-- The reason for which no endpoint answers. -/
def noTransport : String := "sem transporte de rede"

/-- Nothing is ever announced here, so that the times do not matter. -/
def unreachable (paramsFile : Option Bytes) : World where
  paramsFile := paramsFile
  exchange := fun _ => .missing noTransport
  connection := .refused noTransport
  staysOpen := false
  timing := ⟨[], [], fun _ => none⟩
  time := ⟨0, 0, 0, 0⟩

def readFile? (path : String) : IO (Option Bytes) := do
  try
    let content ← IO.FS.readBinFile path
    return some content.data.toList
  catch _ => return none

def emit (exit : Exit) : IO UInt32 := do
  let output ← IO.getStdout
  output.write ⟨exit.output.toArray⟩
  output.flush
  match exit.failure with
  | some failure => IO.eprintln ("\n".intercalate failure.lines)
  | none => pure ()
  return exit.code

def watchMain (arguments : List String) : IO UInt32 := do
  let environment ← (Setting.all.filterMap Setting.environmentName?).mapM fun name => do
    return (name, ← IO.getEnv name)
  let request := Request.ofArguments (fun name => (environment.lookup name).join) arguments
  let paramsFile ← match request with
    | .run options => options.params.elim (pure none) readFile?
    | _ => pure none
  emit (request.perform (unreachable paramsFile))

/-- Shows the estimates for the transaction of a hash. -/
def inquiryMain (arguments : List String) : IO UInt32 :=
  emit (inquiry (unreachable none).exchange arguments)

end MempoolWatch.CommandLine

def main (arguments : List String) : IO UInt32 :=
  watchMain arguments

import MempoolWatch.Fault
import MempoolWatch.Params.Validation

/-! How a program ends: with what it has written, a code, and a description of the
failure if there was one. -/
namespace MempoolWatch.CommandLine

inductive Failure
  /-- The parameter file of this path is of no use. -/
  | params (path : String) (cause : ParamsFault)
  /-- There is no subscription. -/
  | connection (cause : Fault)
  /-- The node has closed the connection. -/
  | closed
  /-- The connection was lost. -/
  | transport (reason : String)
  | badHash (text : String)
  | node (cause : Fault)

/-- The failure and its cause. -/
def Failure.lines : Failure → List String
  | params path cause =>
    ["Error: parâmetros em " ++ path, "Caused by:",
      "    " ++ (Fault.configuration cause.message).message]
  | connection cause =>
    ["Error: verifique se o WebSocket está habilitado no node", "Caused by:",
      "    " ++ cause.message]
  | closed => ["Error: conexão WebSocket encerrada"]
  | transport reason => ["Error: erro de transporte no WebSocket: " ++ reason]
  | badHash text => ["Error: hash inválido: " ++ text]
  | node cause => ["Error: " ++ cause.message]

structure Exit where
  code : UInt32
  output : Bytes
  failure : Option Failure

namespace Exit

def success (output : Bytes) : Exit := ⟨0, output, none⟩

def failed (output : Bytes) (failure : Failure) : Exit := ⟨1, output, some failure⟩

/-- The command line was not understood. -/
def misuse : Exit := ⟨2, [], none⟩

end Exit

end MempoolWatch.CommandLine

import MempoolWatch.Fault
import MempoolWatch.Json.Printer
import MempoolWatch.Json.Record
import MempoolWatch.Rpc.Status
import MempoolWatch.Utf8

/-! Calls of remote procedures, and what the replies mean. An error in the envelope
of a reply counts before its result, and the status of the answer counts only when
the body is no envelope. -/
namespace MempoolWatch.Rpc

structure Call where
  method : String
  params : Json

/-- The text that is sent; calls are numbered from one. -/
def Call.body (call : Call) (id : Nat) : String :=
  Json.text (.record [
    ("jsonrpc", .string "2.0"),
    ("method", .string call.method),
    ("params", call.params),
    ("id", .integer id)])

/-- What came of a call on its way. -/
inductive Reply
  /-- No answer came. -/
  | missing (reason : String)
  /-- The answer broke off before the end of its body. -/
  | broken (reason : String)
  | answered (status : Nat) (body : String)

/-- An answer with a body of bytes. -/
def Reply.ofBytes (status : Nat) (body : Bytes) : Reply :=
  .answered status (Utf8.dropOrderMark (Utf8.decodeLossy body))

/-- The envelope of a reply: a result, and the message of an error if there is one.
An absent result is null. -/
structure Envelope where
  result : Json
  error : Option String

namespace Envelope

/-- A number with a sign in 64 bits. -/
def code? : Json.Source → Option Int
  | .number (some (.integer value)) => if value ≤ 9223372036854775807 then some value else none
  | _ => none

/-- The message of an error. Its code must be one, but does not matter. -/
def error? (source : Json.Source) : Option String := do
  let field ← source.record? ["code", "message"]
  let _ ← Json.optional? (field "code") 0 code?
  Json.required? (field "message") Json.Source.string?

def ofSource? (source : Json.Source) : Option Envelope := do
  let field ← source.record? ["result", "error"]
  return {
    result := ← Json.optional? (field "result") .null
      (Json.Source.valueWithin? (Json.depthLimit - 1))
    error := ← Json.optional? (field "error") none (Json.Source.nullable? error?) }

def ofText? (text : String) : Option Envelope := do
  ofSource? (← Json.Source.ofText? text)

end Envelope

/-- The result of a call. -/
def Reply.result (method : String) : Reply → Except Fault Json
  | missing reason => .error (.rpc ("Falha na chamada " ++ method ++ ": " ++ reason))
  | broken reason => .error (.rpc ("Falha ao ler resposta de " ++ method ++ ": " ++ reason))
  | answered status body =>
    match Envelope.ofText? body with
    | some ⟨_, some message⟩ => .error (.rpc message)
    | some ⟨result, none⟩ => .ok result
    | none =>
      if isSuccess status then
        .error (.decoding ("Resposta inválida para " ++ method ++ ": "))
      else .error (.rpc (method ++ " retornou HTTP " ++ statusText status))

end MempoolWatch.Rpc

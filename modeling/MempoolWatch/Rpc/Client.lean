import MempoolWatch.Node
import MempoolWatch.Rpc.Reply

/-! The questions to a node as calls of remote procedures, and the reading of their
results. -/
namespace MempoolWatch

namespace Rpc

def transactionCall (hash : Hash) : Call :=
  ⟨"eth_getTransactionByHash", .array [.string hash.text]⟩

def gasPriceCall : Call := ⟨"eth_gasPrice", .array []⟩

def blockNumberCall : Call := ⟨"eth_blockNumber", .array []⟩

def poolStatusCall : Call := ⟨"txpool_status", .array []⟩

def poolContentCall : Call := ⟨"txpool_content", .array []⟩

/-- Reads the result of a call. -/
def decode {α : Type} (method : String) (read : Json.Source → Option α) (result : Json) :
    Except Fault α :=
  match read result.source with
  | some value => .ok value
  | none => .error (.decoding ("Falha ao decodificar resultado de " ++ method ++ ": "))

/-- The result of a call, read from its reply. -/
def typed {α : Type} (call : Call) (read : Json.Source → Option α) (reply : Reply) :
    Except Fault α := do
  decode call.method read (← reply.result call.method)

/-- A null result says that the node does not know the transaction. -/
def transaction (hash : Hash) (reply : Reply) : Except Fault (Option Transaction) := do
  let call := transactionCall hash
  let result ← reply.result call.method
  if result.isNull then return none
  else return some (← decode call.method Transaction.ofSource? result)

def word? (source : Json.Source) : Option Word :=
  source.string?.bind Quantity.word?

def count? (source : Json.Source) : Option Nat :=
  source.string?.bind Quantity.count?

/-- Reads counts given as hexadecimal texts. -/
def poolStatus? (source : Json.Source) : Option PoolStatus := do
  let field ← source.record? ["pending", "queued"]
  return {
    pending := ← Json.required? (field "pending") count?
    queued := ← Json.required? (field "queued") count? }

def gasPrice : Reply → Except Fault Word := typed gasPriceCall word?

def blockNumber : Reply → Except Fault Nat := typed blockNumberCall count?

def poolStatus : Reply → Except Fault PoolStatus := typed poolStatusCall poolStatus?

def poolContent : Reply → Except Fault PoolContent := typed poolContentCall PoolContent.ofSource?

end Rpc

/-- The node behind an exchange of calls and replies. -/
def Node.ofExchange (exchange : Rpc.Call → Rpc.Reply) : Node where
  transaction hash := Rpc.transaction hash (exchange (Rpc.transactionCall hash))
  gasPrice := Rpc.gasPrice (exchange Rpc.gasPriceCall)
  blockNumber := Rpc.blockNumber (exchange Rpc.blockNumberCall)
  poolStatus := Rpc.poolStatus (exchange Rpc.poolStatusCall)
  poolContent := Rpc.poolContent (exchange Rpc.poolContentCall)

end MempoolWatch

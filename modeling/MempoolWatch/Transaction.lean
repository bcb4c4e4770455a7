import MempoolWatch.Identifier
import MempoolWatch.Quantity
import MempoolWatch.Json.Record

/-! Pending transactions as a node describes them. -/
namespace MempoolWatch

structure Transaction where
  hash : Hash
  sender : Address
  /-- Absent when the transaction creates a contract. -/
  recipient : Option Address
  value : Word
  input : Bytes
  gas : Word
  gasPrice : Option Word
deriving DecidableEq

namespace Transaction

/-- The called function: the first four bytes of the calldata. -/
def selector? (tx : Transaction) : Option Selector :=
  FixedBytes.ofBytes? 4 (tx.input.take 4)

def hasEmptyInput (tx : Transaction) : Bool :=
  tx.input.isEmpty

def fieldNames : List String :=
  ["hash", "from", "to", "value", "input", "gas", "gasPrice"]

def word? (source : Json.Source) : Option Word :=
  source.string?.bind Quantity.word?

def address? (source : Json.Source) : Option Address :=
  source.string?.bind (Quantity.fixed? 20)

/-- Reads a transaction. Only the hash and the sender must be there. -/
def ofSource? (source : Json.Source) : Option Transaction := do
  let field ← source.record? fieldNames
  return {
    hash := ← Json.required? (field "hash") (·.string?.bind (Quantity.fixed? 32))
    sender := ← Json.required? (field "from") address?
    recipient := ← Json.optional? (field "to") none (Json.Source.nullable? address?)
    value := ← Json.optional? (field "value") 0 word?
    input := ← Json.optional? (field "input") [] (·.string?.bind Quantity.data?)
    gas := ← Json.optional? (field "gas") 0 word?
    gasPrice := ← Json.optional? (field "gasPrice") none (Json.Source.nullable? word?) }

def orNull {α : Type} (write : α → Json) : Option α → Json
  | some value => write value
  | none => .null

/-- The description that a node would give. -/
def json (tx : Transaction) : Json :=
  .record [
    ("hash", .string tx.hash.text),
    ("from", .string tx.sender.text),
    ("to", orNull (fun recipient => .string recipient.text) tx.recipient),
    ("value", .string tx.value.hex),
    ("input", .string (Hex.marked tx.input)),
    ("gas", .string tx.gas.hex),
    ("gasPrice", orNull (fun price => .string price.hex) tx.gasPrice)]

end Transaction

end MempoolWatch

import MempoolWatch.Call.Known
import MempoolWatch.Abi.Decode

/-! Calldata of a recognised call: its arguments and the traded amount. When the
data do not fit the parameters, the call is still recognised, without arguments
and without an amount. -/
namespace MempoolWatch

structure DecodedCall where
  call : KnownCall
  arguments : List Abi.Value
  amount : Option Word

namespace DecodedCall

def unsigned? : Abi.Value → Option Word
  | .uint word => some word
  | _ => none

/-- The largest of the given words. -/
def largest? : List Word → Option Word
  | [] => none
  | word :: rest => some (rest.foldl Word.max word)

/-- The amount that a call carries among its arguments. -/
def amountOf (arguments : List Abi.Value) : AmountField → Option Word
  | .nativeValue => none
  | .param index => arguments[index]?.bind unsigned?
  | .tupleField param field =>
    match arguments[param]? with
    | some (.tuple fields) => fields[field]?.bind unsigned?
    | _ => none
  | .largestOf indexes =>
    largest? (indexes.filterMap fun index => arguments[index]?.bind unsigned?)

/-- Reads the arguments behind the selector of a call. -/
def ofArguments (call : KnownCall) (data : Bytes) : DecodedCall :=
  match Abi.decode call.params data with
  | some arguments => ⟨call, arguments, amountOf arguments call.amount⟩
  | none => ⟨call, [], none⟩

/-- Decodes calldata; `none` when its first four bytes name no recognised call. -/
def ofCalldata? (calldata : Bytes) : Option DecodedCall := do
  let selector ← FixedBytes.ofBytes? 4 (calldata.take 4)
  let call ← KnownCall.find? selector
  return ofArguments call (calldata.drop 4)

end DecodedCall

end MempoolWatch

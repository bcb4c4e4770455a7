import MempoolWatch.Params.Basic
import MempoolWatch.Tagger

/-! Estimates of profit. The amount is the value of the transaction, or else an
amount from calldata within the plausible range, or else the minimum of the
category. -/
namespace MempoolWatch

/-- Ten to a whole power by repeated squaring; of a negative power the reciprocal. -/
def powerOfTen (exponent : Int) : Float :=
  let rec square (remaining : Nat) (base result : Float) : Float :=
    let result := if remaining % 2 = 1 then result * base else result
    if remaining / 2 = 0 then result else square (remaining / 2) (base * base) result
  termination_by remaining
  decreasing_by omega
  let result := square exponent.natAbs 10 1
  if exponent < 0 then 1 / result else result

/-- An amount in the smallest unit of a token, in whole tokens. The number of
decimals is taken as a signed 32-bit number. -/
def AmountHeuristics.tokens (heuristics : AmountHeuristics) (raw : Word) : Float :=
  raw.toFloat / powerOfTen heuristics.tokenDecimals.toInt32.toInt

def AmountHeuristics.isPlausible (heuristics : AmountHeuristics) (tokens : Float) : Bool :=
  heuristics.minPlausibleTokens < tokens ∧ tokens < heuristics.maxPlausibleTokens

/-- The amount at stake in native units, and where it comes from. -/
def ClassifiedTx.amount (classified : ClassifiedTx) (heuristics : AmountHeuristics)
    (fallback : Float) : Float × AmountSource :=
  if classified.tx.value ≠ 0 then (classified.tx.value.toNative, .nativeValue)
  else match classified.call.bind DecodedCall.amount with
    | some raw =>
      let tokens := heuristics.tokens raw
      if heuristics.isPlausible tokens then (tokens * heuristics.tokenNativeRate, .calldata)
      else (fallback, .categoryMinimum)
    | none => (fallback, .categoryMinimum)

/-- The note of an estimate whose amount is unknown, unless the category has its own. -/
def fallbackNote : String := "Montante desconhecido - usado o mínimo da categoria"

namespace Params

def note? (params : CategoryParams) (source : AmountSource) : Option String :=
  params.note.or (if source.isKnown then none else some fallbackNote)

/-- The estimate of a category at a gas price, whatever the tags are. -/
def estimate (params : Params) (kind : OpportunityKind) (classified : ClassifiedTx)
    (gasPrice : Word) : ProfitEstimate :=
  let category := params.category kind
  let (amount, source) := classified.amount params.amounts category.fallbackAmount
  let (gross, figures) := category.model.gross amount
  let gasCost := gasPrice.gasCost category.gasLimit
  let numbers := figures.map fun (name, value) => (name, DetailValue.number value)
  let note := (note? category source).toList.map fun note => ("note", DetailValue.text note)
  { kind := kind
    amount := amount
    amountSource := source
    gross := gross
    gasCost := gasCost
    net := gross - gasCost
    confidence := category.confidence source.isKnown
    details := Named.ofList (numbers ++ [("gasCost", .number gasCost)] ++ note) }

end Params

end MempoolWatch

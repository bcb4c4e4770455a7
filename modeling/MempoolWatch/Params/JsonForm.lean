import MempoolWatch.Json.Record
import MempoolWatch.Params.Basic

/-! Parameters as JSON. A model is read as an object with its name under `model`,
or as the list of its name and its fields; all its members must denote values. -/
namespace MempoolWatch

/-- Reads a model with room for `room` nested levels. -/
def MarketModel.ofSource? (room : Nat) (source : Json.Source) : Option MarketModel :=
  match source with
  | .object members => do
    let members ← Json.Source.membersWithin? (room - 1) members
    ofMembers? Json.string? Json.float? members
  | .array items => do
    ofItems? Json.string? Json.float? (← Json.Source.valuesWithin? (room - 1) items)
  | _ => none

namespace Json.Source

def small? (source : Source) : Option UInt32 := do
  let value ← source.natural?
  if value < UInt32.size then return UInt32.ofNat value else none

end Json.Source

/-- Reads the parameters of a category with room for `room` nested levels. All
fields but the note must be there. -/
def CategoryParams.ofSource? (room : Nat) (source : Json.Source) : Option CategoryParams := do
  let field ← source.record? ["gas_limit", "model", "confidence_known", "confidence_unknown",
    "min_profit", "fallback_amount", "note"]
  return {
    gasLimit := UInt64.ofNat (← Json.required? (field "gas_limit") Json.Source.natural?)
    model := ← Json.required? (field "model") (MarketModel.ofSource? (room - 1))
    confidenceKnown := ← Json.required? (field "confidence_known") Json.Source.float?
    confidenceUnknown := ← Json.required? (field "confidence_unknown") Json.Source.float?
    minProfit := ← Json.required? (field "min_profit") Json.Source.float?
    fallbackAmount := ← Json.required? (field "fallback_amount") Json.Source.float?
    note := ← Json.optional? (field "note") none (Json.Source.nullable? Json.Source.string?) }

/-- Reads the heuristics. A missing field has its default. -/
def AmountHeuristics.ofSource? (source : Json.Source) : Option AmountHeuristics := do
  let field ← source.record? ["token_decimals", "min_plausible_tokens", "max_plausible_tokens",
    "token_native_rate"]
  return {
    tokenDecimals := ← Json.optional? (field "token_decimals") defaults.tokenDecimals
      Json.Source.small?
    minPlausibleTokens := ← Json.optional? (field "min_plausible_tokens")
      defaults.minPlausibleTokens Json.Source.float?
    maxPlausibleTokens := ← Json.optional? (field "max_plausible_tokens")
      defaults.maxPlausibleTokens Json.Source.float?
    tokenNativeRate := ← Json.optional? (field "token_native_rate") defaults.tokenNativeRate
      Json.Source.float? }

/-- Reads the parameters of all categories and the heuristics. -/
def Params.ofSource? (source : Json.Source) : Option Params := do
  let field ← source.record? (OpportunityKind.all.map OpportunityKind.tableName ++ ["amounts"])
  let category ← OpportunityKind.gather fun kind =>
    Json.required? (field kind.tableName) (CategoryParams.ofSource? (Json.depthLimit - 1))
  return ⟨category, ← Json.required? (field "amounts") AmountHeuristics.ofSource?⟩

end MempoolWatch

import MempoolWatch.Params.Validation
import MempoolWatch.Toml.Document
import MempoolWatch.Utf8

/-! Parameters from a TOML document. The document is laid over the defaults: what
it gives replaces the default, field by field. Tables and fields of categories
with unknown names are refused. -/
namespace MempoolWatch

namespace Toml

/-- A record of the given fields, none of them required. Other names are refused.
A list gives all fields in their order; what follows them is passed over. -/
def record? (names : List String) : Toml → Option (String → Option Toml)
  | table members =>
    if members.all fun (name, _) => name ∈ names then some fun name => Named.get? members name
    else none
  | array items =>
    if names.length ≤ items.length then some fun name => List.lookup name (names.zip items)
    else none
  | _ => none

/-- A record whose fields all have defaults. Other names are passed over, and a list
may end early. A date or time is a record of a name of its own. -/
def openRecord? (names : List String) : Toml → Option (String → Option Toml)
  | table members => some fun name => Named.get? members name
  | array items => some fun name => List.lookup name (names.zip items)
  | moment => some fun _ => none
  | _ => none

/-- Reads a field if it is there. -/
def field? {α : Type} (field : Option Toml) (read : Toml → Option α) : Option (Option α) :=
  match field with
  | none => some none
  | some value => (read value).map some

def model? : Toml → Option MarketModel
  | table members => MarketModel.ofMembers? string? float? members
  | array items => MarketModel.ofItems? string? float? items
  | _ => none

def small? (value : Toml) : Option UInt32 := do
  let value ← value.natural?
  if value < UInt32.size then return UInt32.ofNat value else none

end Toml

/-- What a document says about a category. -/
structure CategoryOverlay where
  gasLimit : Option UInt64
  model : Option MarketModel
  confidenceKnown : Option Float
  confidenceUnknown : Option Float
  minProfit : Option Float
  fallbackAmount : Option Float
  note : Option String

namespace CategoryOverlay

def fieldNames : List String :=
  ["gas_limit", "model", "confidence_known", "confidence_unknown", "min_profit",
    "fallback_amount", "note"]

def empty : CategoryOverlay :=
  ⟨none, none, none, none, none, none, none⟩

def ofToml? (toml : Toml) : Option CategoryOverlay := do
  let field ← toml.record? fieldNames
  return {
    gasLimit := ← Toml.field? (field "gas_limit") fun value => value.natural?.map UInt64.ofNat
    model := ← Toml.field? (field "model") Toml.model?
    confidenceKnown := ← Toml.field? (field "confidence_known") Toml.float?
    confidenceUnknown := ← Toml.field? (field "confidence_unknown") Toml.float?
    minProfit := ← Toml.field? (field "min_profit") Toml.float?
    fallbackAmount := ← Toml.field? (field "fallback_amount") Toml.float?
    note := ← Toml.field? (field "note") Toml.string? }

/-- An empty note means that the category has none. -/
def noteOfText (text : String) : Option String :=
  if text.isEmpty then none else some text

/-- The parameters with what the document gives in the place of their own. -/
def applyTo (overlay : CategoryOverlay) (params : CategoryParams) : CategoryParams where
  gasLimit := overlay.gasLimit.getD params.gasLimit
  model := overlay.model.getD params.model
  confidenceKnown := overlay.confidenceKnown.getD params.confidenceKnown
  confidenceUnknown := overlay.confidenceUnknown.getD params.confidenceUnknown
  minProfit := overlay.minProfit.getD params.minProfit
  fallbackAmount := overlay.fallbackAmount.getD params.fallbackAmount
  note := (overlay.note.map noteOfText).getD params.note

end CategoryOverlay

/-- Reads the heuristics; a field that is not given has its default. -/
def AmountHeuristics.ofToml? (toml : Toml) : Option AmountHeuristics := do
  let field ← toml.openRecord?
    ["token_decimals", "min_plausible_tokens", "max_plausible_tokens", "token_native_rate"]
  let decimals ← Toml.field? (field "token_decimals") Toml.small?
  let least ← Toml.field? (field "min_plausible_tokens") Toml.float?
  let most ← Toml.field? (field "max_plausible_tokens") Toml.float?
  let rate ← Toml.field? (field "token_native_rate") Toml.float?
  return {
    tokenDecimals := decimals.getD defaults.tokenDecimals
    minPlausibleTokens := least.getD defaults.minPlausibleTokens
    maxPlausibleTokens := most.getD defaults.maxPlausibleTokens
    tokenNativeRate := rate.getD defaults.tokenNativeRate }

namespace Params

def tableNames : List String :=
  OpportunityKind.all.map OpportunityKind.tableName ++ ["amounts"]

/-- The defaults under a document. -/
def ofToml? (toml : Toml) : Option Params := do
  let field ← toml.record? tableNames
  let category ← OpportunityKind.gather fun kind => do
    let overlay ← Toml.field? (field kind.tableName) CategoryOverlay.ofToml?
    return (overlay.getD .empty).applyTo (.defaults kind)
  let amounts ← Toml.field? (field "amounts") AmountHeuristics.ofToml?
  return ⟨category, amounts.getD .defaults⟩

/-- The parameters of a document that passes the validation. -/
def ofText? (text : String) : Except ParamsFault Params :=
  match (Toml.ofText? text).bind ofToml? with
  | none => .error .malformed
  | some params => do
    params.validate
    return params

/-- The parameters of a file. Its content is missing when it could not be read. -/
def ofFile? (path : String) (content : Option Bytes) : Except ParamsFault Params :=
  match content.bind Utf8.decode? with
  | none => .error (.unreadable path)
  | some text => ofText? text

end Params

end MempoolWatch

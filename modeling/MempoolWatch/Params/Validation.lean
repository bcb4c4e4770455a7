import MempoolWatch.Params.Basic

/-! Which parameters are accepted. The categories are checked in their order, each
for its confidences, its gas limit and its fallback amount, and the plausible
range last; the first fault found is the one reported. -/
namespace MempoolWatch

inductive ParamsFault
  | unreadable (path : String)
  | malformed
  | confidenceOutOfRange (kind : OpportunityKind) (field : String) (value : Float)
  | gasLimitZero (kind : OpportunityKind)
  | fallbackInvalid (kind : OpportunityKind)
  | plausibleRangeEmpty

namespace ParamsFault

def message : ParamsFault → String
  | unreadable path => "Falha ao ler " ++ path ++ ": "
  | malformed => "TOML de parâmetros inválido: "
  | confidenceOutOfRange kind field value =>
    kind.name ++ "." ++ field ++ " fora de [0, 1]: " ++ Decimal.shortest value
  | gasLimitZero kind => kind.name ++ ".gas_limit deve ser positivo"
  | fallbackInvalid kind => kind.name ++ ".fallback_amount inválido"
  | plausibleRangeEmpty => "amounts.min_plausible_tokens deve ser menor que max_plausible_tokens"

end ParamsFault

def isConfidence (value : Float) : Bool :=
  0.0 ≤ value ∧ value ≤ 1.0

def CategoryParams.validate (kind : OpportunityKind) (params : CategoryParams) :
    Except ParamsFault Unit :=
  if ! isConfidence params.confidenceKnown then
    .error (.confidenceOutOfRange kind "confidence_known" params.confidenceKnown)
  else if ! isConfidence params.confidenceUnknown then
    .error (.confidenceOutOfRange kind "confidence_unknown" params.confidenceUnknown)
  else if params.gasLimit = 0 then .error (.gasLimitZero kind)
  else if ! params.fallbackAmount.isFinite ∨ params.fallbackAmount < 0.0 then
    .error (.fallbackInvalid kind)
  else .ok ()

def AmountHeuristics.validate (amounts : AmountHeuristics) : Except ParamsFault Unit :=
  if amounts.minPlausibleTokens ≥ amounts.maxPlausibleTokens then .error .plausibleRangeEmpty
  else .ok ()

def Params.validate (params : Params) : Except ParamsFault Unit := do
  OpportunityKind.all.forM fun kind => (params.category kind).validate kind
  params.amounts.validate

end MempoolWatch

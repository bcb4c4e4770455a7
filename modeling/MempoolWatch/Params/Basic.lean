import MempoolWatch.Decimal.Shortest
import MempoolWatch.Opportunity
import MempoolWatch.Params.MarketModel

/-! The parameters of the estimates. The defaults are constants of a simulation
and not an observed state of the market. -/
namespace MempoolWatch

structure CategoryParams where
  /-- The gas that the operation is taken to need. -/
  gasLimit : UInt64
  model : MarketModel
  /-- The confidence when the amount was read from the transaction. -/
  confidenceKnown : Float
  /-- The confidence when the minimum of the category stands in. -/
  confidenceUnknown : Float
  /-- The net profit must exceed this. -/
  minProfit : Float
  /-- The amount that stands in when nothing plausible was read. -/
  fallbackAmount : Float
  note : Option String
deriving BEq

namespace CategoryParams

def defaults : OpportunityKind → CategoryParams
  | .arbitrage => {
      gasLimit := 150000
      model := .priceDifferential 0.001
      confidenceKnown := 0.6
      confidenceUnknown := 0.6
      minProfit := 0.001
      fallbackAmount := 0.001
      note := some "Simulado - requer comparação real de preços entre DEXs" }
  | .sandwich => {
      gasLimit := 300000
      model := .sandwich 0.005 0.5
      confidenceKnown := 0.5
      confidenceUnknown := 0.3
      minProfit := 0.0005
      fallbackAmount := 0.01
      note := none }
  | .frontRun => {
      gasLimit := 100000
      model := .frontRun 0.02
      confidenceKnown := 0.3
      confidenceUnknown := 0.2
      minProfit := 0.005
      fallbackAmount := 0.01
      note := none }
  | .backRun => {
      gasLimit := 150000
      model := .backRun 0.005 0.5 0.3
      confidenceKnown := 0.6
      confidenceUnknown := 0.4
      minProfit := 0.001
      fallbackAmount := 0.01
      note := none }
  | .liquidation => {
      gasLimit := 200000
      model := .liquidationBonus 0.05
      confidenceKnown := 0.4
      confidenceUnknown := 0.4
      minProfit := 0.01
      fallbackAmount := 0.001
      note := none }
  | .jitLiquidity => {
      gasLimit := 400000
      model := .feeCapture 0.001
      confidenceKnown := 0.7
      confidenceUnknown := 0.7
      minProfit := 0.01
      fallbackAmount := 0.1
      note := some "Requer detectar swap grande no mesmo bloco" }

def confidence (params : CategoryParams) (amountKnown : Bool) : Float :=
  if amountKnown then params.confidenceKnown else params.confidenceUnknown

end CategoryParams

/-- How amounts found in calldata are turned into native units. -/
structure AmountHeuristics where
  tokenDecimals : UInt32
  /-- Both ends of the plausible range are excluded. -/
  minPlausibleTokens : Float
  maxPlausibleTokens : Float
  tokenNativeRate : Float
deriving BEq

def AmountHeuristics.defaults : AmountHeuristics where
  tokenDecimals := 18
  minPlausibleTokens := 1e-6
  maxPlausibleTokens := 1e6
  tokenNativeRate := 0.001

structure Params where
  category : OpportunityKind → CategoryParams
  amounts : AmountHeuristics

namespace Params

def defaults : Params :=
  ⟨CategoryParams.defaults, AmountHeuristics.defaults⟩

/-- Equal in every category and in the heuristics; floats are compared as numbers. -/
def same (a b : Params) : Bool :=
  (OpportunityKind.all.all fun kind => a.category kind == b.category kind) && a.amounts == b.amounts

end Params

end MempoolWatch

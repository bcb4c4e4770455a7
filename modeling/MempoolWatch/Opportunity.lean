import MempoolWatch.Decimal.Fixed
import MempoolWatch.Identifier
import MempoolWatch.Named
import MempoolWatch.Tag

/-! Categories of opportunities, estimates of their profit, and the opportunities
that are reported. -/
namespace MempoolWatch

inductive OpportunityKind
  | arbitrage
  | sandwich
  | frontRun
  | backRun
  | liquidation
  | jitLiquidity
deriving DecidableEq

namespace OpportunityKind

/-- The categories in the order of their evaluation. -/
def all : List OpportunityKind :=
  [arbitrage, sandwich, frontRun, backRun, liquidation, jitLiquidity]

def name : OpportunityKind → String
  | arbitrage => "ARBITRAGE"
  | sandwich => "SANDWICH"
  | frontRun => "FRONT_RUN"
  | backRun => "BACK_RUN"
  | liquidation => "LIQUIDATION"
  | jitLiquidity => "JIT_LIQUIDITY"

def ofName? (name : String) : Option OpportunityKind :=
  all.find? (·.name = name)

/-- The place in the order of evaluation. -/
def index (kind : OpportunityKind) : Nat :=
  all.idxOf kind

/-- The tag without which a transaction is not evaluated for the category. -/
def gatingTag : OpportunityKind → Tag
  | arbitrage | sandwich | frontRun | backRun => .swap
  | liquidation => .liquidation
  | jitLiquidity => .liquidityOp

/-- The name of the category's table in a parameter file. -/
def tableName : OpportunityKind → String
  | arbitrage => "arbitrage"
  | sandwich => "sandwich"
  | frontRun => "front_run"
  | backRun => "back_run"
  | liquidation => "liquidation"
  | jitLiquidity => "jit_liquidity"

/-- Runs an action for every category in order and keeps each result. -/
def gather {m : Type → Type} [Monad m] {α : Type} (action : OpportunityKind → m α) :
    m (OpportunityKind → α) := do
  let forArbitrage ← action arbitrage
  let forSandwich ← action sandwich
  let forFrontRun ← action frontRun
  let forBackRun ← action backRun
  let forLiquidation ← action liquidation
  let forJitLiquidity ← action jitLiquidity
  return fun
    | arbitrage => forArbitrage
    | sandwich => forSandwich
    | frontRun => forFrontRun
    | backRun => forBackRun
    | liquidation => forLiquidation
    | jitLiquidity => forJitLiquidity

theorem mem_all (kind : OpportunityKind) : kind ∈ all := by
  cases kind <;> decide

end OpportunityKind

/-- Where the amount of an estimate comes from. -/
inductive AmountSource
  | nativeValue
  | calldata
  /-- Nothing plausible was found, and the minimum of the category stands in. -/
  | categoryMinimum
deriving DecidableEq

namespace AmountSource

def all : List AmountSource :=
  [nativeValue, calldata, categoryMinimum]

def name : AmountSource → String
  | nativeValue => "native-value"
  | calldata => "calldata"
  | categoryMinimum => "category-minimum"

/-- The label in an operator's listing. -/
def label : AmountSource → String
  | nativeValue => "NativeValue"
  | calldata => "Calldata"
  | categoryMinimum => "CategoryMinimum"

def ofName? (name : String) : Option AmountSource :=
  all.find? (·.name = name)

/-- The amount was read from the transaction. -/
def isKnown : AmountSource → Bool
  | categoryMinimum => false
  | _ => true

end AmountSource

inductive DetailValue
  | number (value : Float)
  | text (value : String)

/-- Numbers have six decimal places. -/
def DetailValue.display : DetailValue → String
  | number value => Decimal.fixed 6 value
  | text value => value

abbrev Details := Named DetailValue

/-- What a category would yield, before the minimum profit is asked for. Amounts
are in native units. -/
structure ProfitEstimate where
  kind : OpportunityKind
  amount : Float
  amountSource : AmountSource
  gross : Float
  gasCost : Float
  net : Float
  confidence : Float
  details : Details

structure Opportunity where
  txHash : Hash
  kind : OpportunityKind
  netProfit : Float
  grossEstimate : Float
  gasCost : Float
  confidence : Float
  details : Details

def ProfitEstimate.opportunity (estimate : ProfitEstimate) (txHash : Hash) : Opportunity where
  txHash := txHash
  kind := estimate.kind
  netProfit := estimate.net
  grossEstimate := estimate.gross
  gasCost := estimate.gasCost
  confidence := estimate.confidence
  details := estimate.details

end MempoolWatch

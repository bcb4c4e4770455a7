/-! Market models: how much a category yields for an amount, with the figures that
explain the yield. -/
namespace MempoolWatch

inductive MarketModel
  /-- The difference of prices between two exchanges. -/
  | priceDifferential (priceDiff : Float)
  /-- A purchase before and a sale after the victim. -/
  | sandwich (priceImpact positionShare : Float)
  /-- A fixed rate of the amount. -/
  | frontRun (profitRate : Float)
  /-- Part of the impact that the victim caused is won back. -/
  | backRun (priceImpact recoveryRate positionShare : Float)
  /-- The bonus that a lending protocol pays. -/
  | liquidationBonus (bonus : Float)
  /-- The fees that short-lived liquidity earns. -/
  | feeCapture (feeRate : Float)
deriving BEq

namespace MarketModel

/-- The gross yield of an amount and the figures behind it. -/
def gross (model : MarketModel) (amount : Float) : Float × List (String × Float) :=
  match model with
  | priceDifferential priceDiff =>
    (amount * priceDiff, [("amount", amount), ("priceDiff", priceDiff)])
  | sandwich priceImpact positionShare =>
    let position := amount * positionShare
    (position * priceImpact,
      [("userAmount", amount), ("frontRunAmount", position), ("priceImpact", priceImpact)])
  | frontRun profitRate =>
    let profit := amount * profitRate
    (profit, [("amount", amount), ("estimatedProfit", profit)])
  | backRun priceImpact recoveryRate positionShare =>
    let position := amount * positionShare
    (position * priceImpact * recoveryRate,
      [("userAmount", amount), ("backRunAmount", position), ("priceImpact", priceImpact),
        ("recoveryRate", recoveryRate)])
  | liquidationBonus bonus =>
    (amount * bonus, [("amount", amount), ("liquidationBonus", bonus)])
  | feeCapture feeRate =>
    let fees := amount * feeRate
    (fees, [("liquidityAmount", amount), ("estimatedFees", fees)])

/-- The name that selects the model in a document. -/
def name : MarketModel → String
  | priceDifferential .. => "price_differential"
  | sandwich .. => "sandwich"
  | frontRun .. => "front_run"
  | backRun .. => "back_run"
  | liquidationBonus .. => "liquidation_bonus"
  | feeCapture .. => "fee_capture"

/-- The fields with their names, in the declared order. -/
def fields : MarketModel → List (String × Float)
  | priceDifferential priceDiff => [("price_diff", priceDiff)]
  | sandwich priceImpact positionShare =>
    [("price_impact", priceImpact), ("position_share", positionShare)]
  | frontRun profitRate => [("profit_rate", profitRate)]
  | backRun priceImpact recoveryRate positionShare =>
    [("price_impact", priceImpact), ("recovery_rate", recoveryRate),
      ("position_share", positionShare)]
  | liquidationBonus bonus => [("bonus", bonus)]
  | feeCapture feeRate => [("fee_rate", feeRate)]

/-- The field names of the model of a name. -/
def fieldNames? : String → Option (List String)
  | "price_differential" => some ["price_diff"]
  | "sandwich" => some ["price_impact", "position_share"]
  | "front_run" => some ["profit_rate"]
  | "back_run" => some ["price_impact", "recovery_rate", "position_share"]
  | "liquidation_bonus" => some ["bonus"]
  | "fee_capture" => some ["fee_rate"]
  | _ => none

/-- The model of a name with exactly the fields that it has. -/
def ofFields? : String → List Float → Option MarketModel
  | "price_differential", [priceDiff] => some (priceDifferential priceDiff)
  | "sandwich", [priceImpact, positionShare] => some (sandwich priceImpact positionShare)
  | "front_run", [profitRate] => some (frontRun profitRate)
  | "back_run", [priceImpact, recoveryRate, positionShare] =>
    some (backRun priceImpact recoveryRate positionShare)
  | "liquidation_bonus", [bonus] => some (liquidationBonus bonus)
  | "fee_capture", [feeRate] => some (feeCapture feeRate)
  | _, _ => none

/-- The only value of a name among members. -/
def unique? {α : Type} (members : List (String × α)) (name : String) : Option α :=
  match members.filter (·.1 = name) with
  | [(_, value)] => some value
  | _ => none

/-- Reads a model from members: its name under `model`, wherever that stands, and
its fields. Other members are passed over. -/
def ofMembers? {α : Type} (text? : α → Option String) (number? : α → Option Float)
    (members : List (String × α)) : Option MarketModel := do
  let name ← (unique? members "model").bind text?
  let names ← fieldNames? name
  ofFields? name (← names.mapM fun field => (unique? members field).bind number?)

/-- Reads a model from its name and its fields in order, no more and no fewer. -/
def ofItems? {α : Type} (text? : α → Option String) (number? : α → Option Float) :
    List α → Option MarketModel
  | [] => none
  | first :: rest => do ofFields? (← text? first) (← rest.mapM number?)

end MarketModel

end MempoolWatch

import MempoolWatch.Estimate
import MempoolWatch.Node

/-! Detectors look at one transaction for one category. The heuristic detector of
a category asks for the gas price only when the transaction carries the gating
tag, and reports an opportunity when its net profit exceeds the minimum. -/
namespace MempoolWatch

inductive Finding
  | opportunity (found : Opportunity)
  | nothing
  | fault (cause : Fault)
  /-- The detector broke down, and with it the analysis. -/
  | crash

/-- A finding and how often the gas price was asked for on the way. -/
structure Examination where
  finding : Finding
  gasQueries : Nat

structure Detector where
  kind : OpportunityKind
  examine : ClassifiedTx → Examination

namespace Params

/-- The estimate at the node's gas price; nothing without the gating tag. -/
def evaluate (params : Params) (kind : OpportunityKind) (node : Node)
    (classified : ClassifiedTx) : Except Fault (Option ProfitEstimate) :=
  if classified.tags.contains kind.gatingTag then do
    return some (params.estimate kind classified (← node.gasPrice))
  else .ok none

/-- The estimate as an opportunity, if its net profit exceeds the minimum. -/
def detect (params : Params) (kind : OpportunityKind) (node : Node)
    (classified : ClassifiedTx) : Except Fault (Option Opportunity) := do
  match ← params.evaluate kind node classified with
  | none => return none
  | some estimate =>
    if (params.category kind).minProfit < estimate.net then
      return some (estimate.opportunity classified.tx.hash)
    else return none

/-- The heuristic asks for the gas price once, or not at all. -/
def gasQueries (kind : OpportunityKind) (classified : ClassifiedTx) : Nat :=
  if classified.tags.contains kind.gatingTag then 1 else 0

def detector (params : Params) (node : Node) (kind : OpportunityKind) : Detector where
  kind := kind
  examine := fun classified => {
    finding := match params.detect kind node classified with
      | .ok (some found) => .opportunity found
      | .ok none => .nothing
      | .error cause => .fault cause
    gasQueries := gasQueries kind classified }

/-- One heuristic detector for each category, in their order. -/
def detectors (params : Params) (node : Node) : List Detector :=
  OpportunityKind.all.map (params.detector node)

end Params

end MempoolWatch

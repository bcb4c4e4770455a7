import MempoolWatch.Analysis

/-! Counters of a run. Every event counts for a fixed amount, and recording it adds
that amount. -/
namespace MempoolWatch

structure Statistics where
  /-- Announcements whose analysis came to an end. -/
  notifications : Nat := 0
  analyzed : Nat := 0
  notFound : Nat := 0
  analysisErrors : Nat := 0
  detectorErrors : Nat := 0
  ethTransfers : Nat := 0
  swaps : Nat := 0
  liquidations : Nat := 0
  liquidityOps : Nat := 0
  /-- Transactions without a tag. -/
  unknown : Nat := 0
  opportunities : Nat := 0
  withOpportunities : Nat := 0
deriving DecidableEq

namespace Statistics

def add (a b : Statistics) : Statistics where
  notifications := a.notifications + b.notifications
  analyzed := a.analyzed + b.analyzed
  notFound := a.notFound + b.notFound
  analysisErrors := a.analysisErrors + b.analysisErrors
  detectorErrors := a.detectorErrors + b.detectorErrors
  ethTransfers := a.ethTransfers + b.ethTransfers
  swaps := a.swaps + b.swaps
  liquidations := a.liquidations + b.liquidations
  liquidityOps := a.liquidityOps + b.liquidityOps
  unknown := a.unknown + b.unknown
  opportunities := a.opportunities + b.opportunities
  withOpportunities := a.withOpportunities + b.withOpportunities

instance : Add Statistics := ⟨add⟩

protected theorem add_assoc (a b c : Statistics) : a + b + c = a + (b + c) := by
  show add (add a b) c = add a (add b c)
  simp [add, Nat.add_assoc]

protected theorem add_comm (a b : Statistics) : a + b = b + a := by
  show add a b = add b a
  simp [add, Nat.add_comm]

/-- What a report counts for. -/
def ofReport (report : TxReport) : Statistics where
  notifications := 1
  analyzed := 1
  detectorErrors := report.detectorErrors
  ethTransfers := report.classified.tags.ethTransfer.toNat
  swaps := report.classified.tags.swap.toNat
  liquidations := report.classified.tags.liquidation.toNat
  liquidityOps := report.classified.tags.liquidityOp.toNat
  unknown := report.classified.tags.isEmpty.toNat
  opportunities := report.opportunities.length
  withOpportunities := (! report.opportunities.isEmpty).toNat

/-- What an event counts for. -/
def ofEvent : Event → Statistics
  | .analyzed report => ofReport report
  | .notFound _ => { notifications := 1, notFound := 1 }
  | .failed _ _ => { notifications := 1, analysisErrors := 1 }

def record (stats : Statistics) (event : Event) : Statistics :=
  stats + ofEvent event

/-- A quotient of counters; nothing when the divisor is zero. -/
def ratio? (numerator denominator : Nat) : Option Float :=
  if denominator = 0 then none
  else some ((UInt64.ofNat numerator).toFloat / (UInt64.ofNat denominator).toFloat)

/-- Opportunities for each analysed transaction. -/
def detectionRate? (stats : Statistics) : Option Float :=
  ratio? stats.opportunities stats.analyzed

/-- Opportunities for each swap. -/
def swapDetectionRate? (stats : Statistics) : Option Float :=
  ratio? stats.opportunities stats.swaps

end Statistics

end MempoolWatch

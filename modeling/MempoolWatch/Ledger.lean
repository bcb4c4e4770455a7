import MempoolWatch.Report.Reporter

/-! The ledger of a run: the only writer of its statistics and its report. A failing
output is of no concern to the statistics. -/
namespace MempoolWatch

open Report

structure Ledger (σ : Type) where
  stats : Statistics
  reporter : Reporter σ

namespace Ledger

variable {σ : Type} [Sink σ]

def new (reporter : Reporter σ) : Ledger σ := ⟨{}, reporter⟩

/-- Writes about a report that the statistics have counted. Lines are numbered by
the analysed transactions, blocks by those with opportunities. -/
def write (stats : Statistics) (time : TimeOfDay) (report : TxReport) (reporter : Reporter σ) :
    Reporter σ :=
  let (reporter, _) := reporter.transaction stats.analyzed report
  if report.opportunities.isEmpty then reporter
  else (reporter.opportunities stats.withOpportunities time report).1

/-- Counts an event and writes about it. The time is that of the writing. -/
def record (ledger : Ledger σ) (time : TimeOfDay) (event : Event) : Ledger σ :=
  let stats := ledger.stats.record event
  let reporter := match event with
    | .analyzed report => write stats time report ledger.reporter
    | _ => ledger.reporter
  ⟨stats, (reporter.progress stats).1⟩

/-- Records events in order. -/
def recordAll (ledger : Ledger σ) (events : List (TimeOfDay × Event)) : Ledger σ :=
  events.foldl (fun ledger (time, event) => ledger.record time event) ledger

/-- Writes the summary. -/
def finish (ledger : Ledger σ) : Ledger σ :=
  { ledger with reporter := (ledger.reporter.summary ledger.stats).1 }

end Ledger

end MempoolWatch

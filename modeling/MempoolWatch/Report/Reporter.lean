import MempoolWatch.Report.Sink

/-! What is shown to the operator. With all transactions shown there is a line for
each; otherwise a line of counters is written over and over, and made blank before
anything else is written. -/
namespace MempoolWatch.Report

structure Display where
  /-- A line for each analysed transaction. -/
  showAll : Bool := false
  /-- The line of counters, unless all transactions are shown. -/
  liveStatus : Bool := true
  /-- The price of the native unit in dollars. -/
  usdPrice : Float := 2000.0

structure Reporter (σ : Type) where
  display : Display
  /-- The last thing written is the line of counters. -/
  statusShown : Bool
  sink : σ

namespace Reporter

variable {σ : Type} [Sink σ]

def new (display : Display) (sink : σ) : Reporter σ := ⟨display, false, sink⟩

/-- Writes an entry; the result says whether all of it was taken. -/
def write (reporter : Reporter σ) (entry : Entry) : Reporter σ × Bool :=
  let (sink, taken) := Sink.write reporter.sink entry
  ({ reporter with sink }, taken)

def banner (reporter : Reporter σ) (socketUrl nodeUrl : String) : Reporter σ × Bool :=
  reporter.write (.banner socketUrl nodeUrl reporter.display.showAll)

def snapshot (reporter : Reporter σ) (snapshot : Snapshot) : Reporter σ × Bool :=
  reporter.write (.snapshot snapshot)

def subscribed (reporter : Reporter σ) (subscription : String) : Reporter σ × Bool :=
  reporter.write (.subscribed subscription)

/-- A line for a transaction, if all are shown. -/
def transaction (reporter : Reporter σ) (index : Nat) (report : TxReport) : Reporter σ × Bool :=
  if reporter.display.showAll then reporter.write (.transaction index report)
  else (reporter, true)

/-- Writes the line of counters over, if it is shown. -/
def progress (reporter : Reporter σ) (stats : Statistics) : Reporter σ × Bool :=
  if reporter.display.showAll ∨ ! reporter.display.liveStatus then (reporter, true)
  else
    let (reporter, taken) := reporter.write (.status stats)
    (if taken then { reporter with statusShown := true } else reporter, taken)

/-- Makes the line of counters blank, if it is there. -/
def clear (reporter : Reporter σ) : Reporter σ × Bool :=
  if reporter.statusShown then { reporter with statusShown := false }.write .blanking
  else (reporter, true)

/-- Writes an entry on a line of its own. -/
def writeApart (reporter : Reporter σ) (entry : Entry) : Reporter σ × Bool :=
  let (reporter, taken) := reporter.clear
  if taken then reporter.write entry else (reporter, false)

/-- The opportunities of a transaction. -/
def opportunities (reporter : Reporter σ) (number : Nat) (time : TimeOfDay) (report : TxReport) :
    Reporter σ × Bool :=
  reporter.writeApart (.opportunities number time reporter.display.usdPrice report)

def summary (reporter : Reporter σ) (stats : Statistics) : Reporter σ × Bool :=
  reporter.writeApart (.summary stats)

end Reporter

end MempoolWatch.Report

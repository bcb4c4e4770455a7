import MempoolWatch.Detector

/-! The analysis of one announced transaction: it is fetched, classified and shown
to every detector. A failing detector is counted and does not disturb the others. -/
namespace MempoolWatch

structure TxReport where
  classified : ClassifiedTx
  opportunities : List Opportunity
  /-- How many detectors failed. -/
  detectorErrors : Nat

/-- What an analysis ends with. -/
inductive Event
  | analyzed (report : TxReport)
  /-- The transaction is already mined or dropped. -/
  | notFound (hash : Hash)
  /-- The transaction could not be fetched. -/
  | failed (hash : Hash) (reason : String)

/-- An event, or none when a detector crashed; and how often the gas price was
asked for. -/
structure Analysis where
  event? : Option Event
  gasQueries : Nat

namespace Finding

def opportunity? : Finding → Option Opportunity
  | opportunity found => some found
  | _ => none

def isFault : Finding → Bool
  | fault _ => true
  | _ => false

end Finding

/-- The findings of detectors in order, up to a crash. -/
def examineAll (classified : ClassifiedTx) : List Detector → Option (List Finding) × Nat
  | [] => (some [], 0)
  | detector :: rest =>
    let ⟨finding, queries⟩ := detector.examine classified
    match finding with
    | .crash => (none, queries)
    | finding =>
      let (findings, more) := examineAll classified rest
      (findings.map (finding :: ·), queries + more)

namespace TxReport

def ofFindings (classified : ClassifiedTx) (findings : List Finding) : TxReport where
  classified := classified
  opportunities := findings.filterMap Finding.opportunity?
  detectorErrors := findings.countP Finding.isFault

end TxReport

/-- Analyses the transaction of a hash. -/
def analyze (node : Node) (tagger : Tagger) (detectors : List Detector) (hash : Hash) : Analysis :=
  match node.transaction hash with
  | .error cause => ⟨some (.failed hash cause.message), 0⟩
  | .ok none => ⟨some (.notFound hash), 0⟩
  | .ok (some tx) =>
    let classified := tagger.classify tx
    let (findings, queries) := examineAll classified detectors
    ⟨findings.map fun findings => .analyzed (.ofFindings classified findings), queries⟩

end MempoolWatch

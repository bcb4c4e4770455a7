import MempoolWatch.Proofs.Gating
import Mathlib.Algebra.Ring.Nat

/-! Failures stay where they happen. A transaction that cannot be fetched is shown to no detector.
One that can is shown to each detector once, and what a detector finds decides its own share of
the report and nothing else, whatever the others find. -/
namespace MempoolWatch

variable {node : Node} {tagger : Tagger} {detectors : List Detector} {hash : Hash}
  {classified : ClassifiedTx}

/-- The analysis of a hash, with any way of showing a transaction to a detector. -/
def analyzeBy {m : Type → Type} [Monad m] (node : Node) (tagger : Tagger)
    (visit : Detector → ClassifiedTx → m Finding) (detectors : List Detector) (hash : Hash) :
    m Event :=
  match node.transaction hash with
  | .error cause => return .failed hash cause.message
  | .ok none => return .notFound hash
  | .ok (some tx) => do
    let findings ← detectors.mapM fun detector => visit detector (tagger.classify tx)
    return .analyzed (.ofFindings (tagger.classify tx) findings)

section

variable {m : Type → Type} [Monad m] {visit : Detector → ClassifiedTx → m Finding}

theorem analyzeBy_of_refused {cause : Fault} (refused : node.transaction hash = .error cause) :
    analyzeBy node tagger visit detectors hash = pure (.failed hash cause.message) := by
  unfold analyzeBy
  rw [refused]

theorem analyzeBy_of_gone (gone : node.transaction hash = .ok none) :
    analyzeBy node tagger visit detectors hash = pure (.notFound hash) := by
  unfold analyzeBy
  rw [gone]

end

theorem analyze_of_refused {cause : Fault} (refused : node.transaction hash = .error cause) :
    analyze node tagger detectors hash = ⟨some (.failed hash cause.message), 0⟩ := by
  rw [analyze, refused]

theorem analyze_of_gone (gone : node.transaction hash = .ok none) :
    analyze node tagger detectors hash = ⟨some (.notFound hash), 0⟩ := by
  rw [analyze, gone]

/-- The report of a finding between the reports of what comes before and after it. -/
def TxReport.joined (front : TxReport) (finding : Finding) (back : TxReport) : TxReport where
  classified := front.classified
  opportunities := front.opportunities ++ finding.opportunity?.toList ++ back.opportunities
  detectorErrors :=
    front.detectorErrors + (if finding.isFault then 1 else 0) + back.detectorErrors

namespace Detector

/-- What a detector finds in a transaction. -/
def finds (detector : Detector) (classified : ClassifiedTx) : Finding :=
  (detector.examine classified).finding

/-- The detectors that a transaction has been shown to, in order. -/
abbrev Visits := List (Detector × ClassifiedTx)

/-- Shows a transaction to a detector and takes note of it. -/
def noted (detector : Detector) (classified : ClassifiedTx) : StateM Visits Finding := do
  modify (· ++ [(detector, classified)])
  return detector.finds classified

/-- The report on a transaction whose detectors do not crash. -/
def report (detectors : List Detector) (classified : ClassifiedTx) : TxReport :=
  .ofFindings classified (detectors.map (·.finds classified))

theorem run_mapM_noted (detectors : List Detector) (visits : Visits) :
    (detectors.mapM (noted · classified)).run visits =
      (detectors.map (·.finds classified), visits ++ detectors.map (·, classified)) := by
  induction detectors generalizing visits with
  | nil => rw [List.map_nil, List.map_nil, List.append_nil]; rfl
  | cons detector rest ih =>
    rw [List.mapM_cons, StateT.run_bind, List.map_cons, List.map_cons, List.append_cons]
    show StateT.run (List.mapM (noted · classified) rest >>= _)
      (visits ++ [(detector, classified)]) = _
    rw [StateT.run_bind, ih]
    rfl

/-- How often detectors ask for the gas price. -/
def queries (detectors : List Detector) (classified : ClassifiedTx) : Nat :=
  (detectors.map fun detector => (detector.examine classified).gasQueries).sum

/-- Detectors that do not crash are all heard. -/
theorem examineAll_of_steady
    (steady : ∀ detector ∈ detectors, detector.finds classified ≠ .crash) :
    examineAll classified detectors =
      (some (detectors.map (·.finds classified)), queries detectors classified) := by
  induction detectors with
  | nil => rfl
  | cons detector rest ih =>
    rw [List.forall_mem_cons] at steady
    rw [examineAll_cons steady.1, ih steady.2, queries, queries, List.map_cons, List.map_cons,
      List.sum_cons]
    rfl

theorem analyze_of_steady {tx : Transaction} (fetched : node.transaction hash = .ok (some tx))
    (steady : ∀ detector ∈ detectors, detector.finds (tagger.classify tx) ≠ .crash) :
    analyze node tagger detectors hash =
      ⟨some (.analyzed (report detectors (tagger.classify tx))),
        queries detectors (tagger.classify tx)⟩ := by
  rw [analyze, fetched]
  simp only [examineAll_of_steady steady]
  rfl

theorem run_analyzeBy_noted {tx : Transaction} (fetched : node.transaction hash = .ok (some tx)) :
    (analyzeBy node tagger noted detectors hash).run [] =
      (.analyzed (report detectors (tagger.classify tx)),
        detectors.map (·, tagger.classify tx)) := by
  unfold analyzeBy
  rw [fetched]
  show StateT.run (List.mapM (noted · (tagger.classify tx)) detectors >>= _) [] = _
  rw [StateT.run_bind, run_mapM_noted]
  rfl

theorem opportunities_report :
    (report detectors classified).opportunities =
      detectors.filterMap fun detector => (detector.finds classified).opportunity? :=
  List.filterMap_map

theorem detectorErrors_report :
    (report detectors classified).detectorErrors =
      detectors.countP fun detector => (detector.finds classified).isFault :=
  List.countP_map

theorem report_append_cons (ahead : List Detector) (detector : Detector)
    (behind : List Detector) :
    report (ahead ++ detector :: behind) classified =
      (report ahead classified).joined (detector.finds classified) (report behind classified) := by
  have opportunities : (report (ahead ++ detector :: behind) classified).opportunities =
      (report ahead classified).opportunities ++ (detector.finds classified).opportunity?.toList ++
        (report behind classified).opportunities := by
    simp only [opportunities_report, List.filterMap_append, List.filterMap_cons]
    cases (detector.finds classified).opportunity? <;> simp
  have errors : (report (ahead ++ detector :: behind) classified).detectorErrors =
      (report ahead classified).detectorErrors +
        (if (detector.finds classified).isFault then 1 else 0) +
        (report behind classified).detectorErrors := by
    simp only [detectorErrors_report, List.countP_append, List.countP_cons]
    omega
  exact congr (congrArg (TxReport.mk classified) opportunities) errors

end Detector

/-- Detectors that do not crash are each shown a fetched transaction once, and none of them is
shown one that is gone or that the node refuses. The report has what they found in their order and
counts those that failed. Another detector in the place of one changes the share of that one, and
nothing else of the event. -/
theorem detectors_fail_alone (node : Node) (tagger : Tagger) (detectors : List Detector)
    (hash : Hash)
    (steady : ∀ tx, node.transaction hash = .ok (some tx) →
      ∀ detector ∈ detectors, detector.finds (tagger.classify tx) ≠ .crash) :
    let analysis := analyze node tagger detectors hash
    let visited := (analyzeBy node tagger Detector.noted detectors hash).run []
    analysis.event? = some visited.1 ∧
    (∀ cause, node.transaction hash = .error cause →
      visited = (.failed hash cause.message, []) ∧ analysis.gasQueries = 0) ∧
    (node.transaction hash = .ok none →
      visited = (.notFound hash, []) ∧ analysis.gasQueries = 0) ∧
    ∀ tx, node.transaction hash = .ok (some tx) →
      let classified := tagger.classify tx
      ∃ report,
        visited = (.analyzed report, detectors.map (·, classified)) ∧
        analysis.gasQueries = Detector.queries detectors classified ∧
        report.classified = classified ∧
        report.opportunities =
          detectors.filterMap (fun detector => (detector.finds classified).opportunity?) ∧
        report.detectorErrors =
          detectors.countP (fun detector => (detector.finds classified).isFault) ∧
        ∀ ahead detector behind, detectors = ahead ++ detector :: behind →
          let front := Detector.report ahead classified
          let back := Detector.report behind classified
          report = front.joined (detector.finds classified) back ∧
          ∀ other : Detector, other.finds classified ≠ .crash →
            (analyze node tagger (ahead ++ other :: behind) hash).event? =
              some (.analyzed (front.joined (other.finds classified) back)) := by
  intro analysis visited
  rcases answer : node.transaction hash with cause | _ | tx
  · have noted : visited = (.failed hash cause.message, []) := by
      unfold visited
      rw [analyzeBy_of_refused answer]
      rfl
    simp [analysis, analyze_of_refused answer, noted]
  · have noted : visited = (.notFound hash, []) := by
      unfold visited
      rw [analyzeBy_of_gone answer]
      rfl
    simp [analysis, analyze_of_gone answer, noted]
  · have steady := steady tx answer
    have analyzed := Detector.analyze_of_steady answer steady
    have noted : visited = (.analyzed (Detector.report detectors (tagger.classify tx)),
        detectors.map (·, tagger.classify tx)) := Detector.run_analyzeBy_noted answer
    refine ⟨?_, nofun, nofun, ?_⟩
    · exact (congrArg Analysis.event? analyzed).trans (congrArg (some ·.1) noted).symm
    rintro _ ⟨rfl⟩
    refine ⟨Detector.report detectors (tagger.classify tx), noted,
      congrArg Analysis.gasQueries analyzed, rfl, Detector.opportunities_report,
      Detector.detectorErrors_report, ?_⟩
    rintro ahead detector behind rfl
    refine ⟨Detector.report_append_cons ahead detector behind, ?_⟩
    intro other steadyOther
    rw [← Detector.report_append_cons]
    have steady : ∀ detector ∈ ahead ++ other :: behind,
        detector.finds (tagger.classify tx) ≠ .crash := by
      intro detector member
      rcases List.mem_append.mp member with before | after
      · exact steady detector (List.mem_append_left _ before)
      · rcases List.mem_cons.mp after with rfl | after
        · exact steadyOther
        · exact steady detector (List.mem_append_right _ (List.mem_cons_of_mem _ after))
    exact congrArg Analysis.event? (Detector.analyze_of_steady answer steady)

/-- A detector that finds the same in every transaction. -/
def Detector.always (finding : Finding) : Detector where
  kind := .arbitrage
  examine _ := ⟨finding, 0⟩

/-- An opportunity of this net profit. -/
def opportunityOf (profit : Float) : Opportunity where
  txHash := .fill 32 1
  kind := .arbitrage
  netProfit := profit
  grossEstimate := profit
  gasCost := 0
  confidence := 1
  details := []

/-- The second of four detectors fails. In its place, one that finds nothing takes a failure away
and leaves the opportunities of the others as they are. -/
theorem second_detector_fails_alone :
    let node := priceless Params.unknownCall
    let one := Detector.always (.opportunity (opportunityOf 1))
    let two := Detector.always (.opportunity (opportunityOf 2))
    let failing := Detector.always (.fault (.timeout ""))
    let idle := Detector.always .nothing
    (∀ tx, node.transaction (.fill 32 1) = .ok (some tx) →
      ∀ detector ∈ [one, failing, idle, two],
        detector.finds (Tagger.standard.classify tx) ≠ .crash) ∧
    (analyze node .standard [one, failing, idle, two] (.fill 32 1)).event? =
      some (.analyzed ⟨Tagger.standard.classify Params.unknownCall,
        [opportunityOf 1, opportunityOf 2], 1⟩) ∧
    (analyze node .standard [one, idle, idle, two] (.fill 32 1)).event? =
      some (.analyzed ⟨Tagger.standard.classify Params.unknownCall,
        [opportunityOf 1, opportunityOf 2], 0⟩) := by
  intro node one two failing idle
  have steady : ∀ tx, node.transaction (.fill 32 1) = .ok (some tx) →
      ∀ detector ∈ [one, failing, idle, two],
        detector.finds (Tagger.standard.classify tx) ≠ .crash := by
    intro tx _
    simp [one, failing, idle, two, Detector.finds, Detector.always]
  obtain ⟨heard, _, _, fetched⟩ := detectors_fail_alone node .standard _ (.fill 32 1) steady
  obtain ⟨report, visited, _, _, _, _, alone⟩ := fetched Params.unknownCall rfl
  obtain ⟨rfl, replaced⟩ := alone [one] failing [idle, two] rfl
  exact ⟨steady, heard.trans (congrArg (some ·.1) visited), replaced idle nofun⟩

end MempoolWatch

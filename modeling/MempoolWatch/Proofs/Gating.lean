import MempoolWatch.Analysis
import MempoolWatch.Proofs.Classification
import MempoolWatch.Proofs.Detection

/-! Tags decide which categories an analysis asks about. The heuristic of a category asks for
the gas price once if the transaction has the gating tag, and not at all without it, so that
only a gated category can find an opportunity or fail. A plain transfer has no gating tag. -/
namespace MempoolWatch

variable {params : Params} {kind : OpportunityKind} {node : Node} {classified : ClassifiedTx}

/-- The categories whose gating tag a transaction has, in the order of their evaluation. -/
def ClassifiedTx.gatedKinds (classified : ClassifiedTx) : List OpportunityKind :=
  OpportunityKind.all.filter fun kind => classified.tags.contains kind.gatingTag

theorem ClassifiedTx.mem_gatedKinds :
    kind ∈ classified.gatedKinds ↔ classified.tags.contains kind.gatingTag = true := by
  simp [gatedKinds, OpportunityKind.mem_all]

namespace Params

/-- The heuristic of a category, with any way of asking for the gas price. -/
def detectBy {m : Type → Type} [Monad m] (params : Params) (kind : OpportunityKind) (ask : m Word)
    (classified : ClassifiedTx) : m (Option Opportunity) :=
  if classified.tags.contains kind.gatingTag then do
    let estimate := params.estimate kind classified (← ask)
    if (params.category kind).minProfit < estimate.net then
      return some (estimate.opportunity classified.tx.hash)
    else return none
  else return none

theorem detect_eq_detectBy :
    params.detect kind node classified = params.detectBy kind node.gasPrice classified := by
  unfold detectBy
  split
  · next gated =>
    cases answer : node.gasPrice with
    | error cause => exact detect_of_fault gated answer
    | ok price =>
      rw [detect_of_price gated answer]
      show _ = if _ then _ else _
      split <;> rfl
  · next ungated => exact detect_of_ungated ungated

/-- A node's answer to the question for the gas price, which is counted. -/
def countedPrice (node : Node) : ExceptT Fault (StateM Nat) Word := do
  modify (· + 1)
  ExceptT.mk (pure node.gasPrice)

theorem run_detectBy_countedPrice (asked : Nat) :
    (params.detectBy kind (countedPrice node) classified).run.run asked =
      (params.detect kind node classified, asked + gasQueries kind classified) := by
  rw [detect_eq_detectBy]
  unfold detectBy gasQueries
  split
  · next gated =>
    cases answer : node.gasPrice with
    | error cause =>
      unfold countedPrice
      rw [answer]
      rfl
    | ok price =>
      unfold countedPrice
      rw [answer]
      show (if _ then _ else _ : ExceptT Fault (StateM Nat) (Option Opportunity)).run.run
        (asked + 1) = (if _ then _ else _, asked + 1)
      split <;> rfl
  · next ungated => rfl

/-- The heuristics of some categories, each with a node of its own to ask, since a node need
not give everyone the same answer. All categories with one node are the `detectors`. -/
def detectorsOf (params : Params) (nodes : OpportunityKind → Node)
    (kinds : List OpportunityKind) : List Detector :=
  kinds.map fun kind => params.detector (nodes kind) kind

end Params

/-- What a heuristic finds by its answer. -/
def Finding.ofAnswer : Except Fault (Option Opportunity) → Finding
  | .ok (some found) => .opportunity found
  | .ok none => .nothing
  | .error cause => .fault cause

theorem Finding.opportunity?_ofAnswer {answer : Except Fault (Option Opportunity)}
    {found : Opportunity} :
    (ofAnswer answer).opportunity? = some found ↔ answer = .ok (some found) := by
  rcases answer with cause | _ | other <;> simp [ofAnswer, opportunity?]

theorem Finding.isFault_ofAnswer (answer : Except Fault (Option Opportunity)) :
    (ofAnswer answer).isFault = ! answer.isOk := by
  rcases answer with cause | _ | other <;> rfl

theorem Finding.ofAnswer_ne_crash (answer : Except Fault (Option Opportunity)) :
    ofAnswer answer ≠ .crash := by
  rcases answer with cause | _ | other <;> simp [ofAnswer]

theorem examineAll_cons {detector : Detector}
    (steady : (detector.examine classified).finding ≠ .crash) (rest : List Detector) :
    examineAll classified (detector :: rest) =
      ((examineAll classified rest).1.map ((detector.examine classified).finding :: ·),
        (detector.examine classified).gasQueries + (examineAll classified rest).2) := by
  rw [examineAll]
  generalize detector.examine classified = examination at steady ⊢
  obtain ⟨finding, queries⟩ := examination
  cases finding with
  | crash => exact absurd rfl steady
  | opportunity | nothing | fault => rfl

namespace Params

theorem examine_detector :
    (params.detector node kind).examine classified =
      ⟨.ofAnswer (params.detect kind node classified), gasQueries kind classified⟩ := by
  simp only [detector]
  rcases params.detect kind node classified with cause | _ | found <;> rfl

/-- The heuristics do not crash, so that all of them are heard. -/
theorem examineAll_detectorsOf (nodes : OpportunityKind → Node) (kinds : List OpportunityKind) :
    examineAll classified (params.detectorsOf nodes kinds) =
      (some (kinds.map fun kind => .ofAnswer (params.detect kind (nodes kind) classified)),
        kinds.countP fun kind => classified.tags.contains kind.gatingTag) := by
  induction kinds with
  | nil => rfl
  | cons kind rest ih =>
    have steady : ((params.detector (nodes kind) kind).examine classified).finding ≠ .crash := by
      rw [examine_detector]
      exact Finding.ofAnswer_ne_crash _
    have others : examineAll classified (rest.map fun kind => params.detector (nodes kind) kind) =
        _ := ih
    rw [detectorsOf, List.map_cons, examineAll_cons steady, others, examine_detector,
      List.countP_cons, Nat.add_comm]
    rfl

theorem isOk_detect :
    (params.detect kind node classified).isOk =
      ! (classified.tags.contains kind.gatingTag && ! node.gasPrice.isOk) := by
  by_cases gated : classified.tags.contains kind.gatingTag = true
  · cases asked : node.gasPrice with
    | error cause => rw [detect_of_fault gated asked, gated]; rfl
    | ok price => rw [detect_of_price gated asked, gated]; rfl
  · rw [detect_of_ungated gated, Bool.eq_false_iff.mpr gated]
    rfl

theorem gated_of_detect {found : Opportunity}
    (emitted : params.detect kind node classified = .ok (some found)) :
    classified.tags.contains kind.gatingTag = true ∧ found.kind = kind := by
  obtain ⟨price, exceeds, rfl⟩ := detect_eq_some_iff.mp emitted
  exact ⟨exceeds.1, rfl⟩

variable (nodes : OpportunityKind → Node)

/-- What the heuristics of all categories say about a transaction. -/
def report (params : Params) (nodes : OpportunityKind → Node) (classified : ClassifiedTx) :
    TxReport :=
  .ofFindings classified (OpportunityKind.all.map fun kind =>
    .ofAnswer (params.detect kind (nodes kind) classified))

theorem analyze_detectorsOf {tagger : Tagger} {hash : Hash} {tx : Transaction}
    (fetched : node.transaction hash = .ok (some tx)) :
    analyze node tagger (params.detectorsOf nodes OpportunityKind.all) hash =
      ⟨some (.analyzed (params.report nodes (tagger.classify tx))),
        (tagger.classify tx).gatedKinds.length⟩ := by
  rw [analyze, fetched]
  simp only [examineAll_detectorsOf, Option.map_some, List.countP_eq_length_filter]
  rfl

theorem kinds_sublist (kinds : List OpportunityKind) :
    (((kinds.map fun kind => Finding.ofAnswer (params.detect kind (nodes kind) classified)).filterMap
      Finding.opportunity?).map Opportunity.kind).Sublist
        (kinds.filter fun kind => classified.tags.contains kind.gatingTag) := by
  induction kinds with
  | nil => exact .slnil
  | cons kind rest ih =>
    rw [List.map_cons, List.filterMap_cons]
    split
    · exact ih.trans ((List.sublist_cons_self kind rest).filter _)
    · next found finds =>
      obtain ⟨gated, same⟩ := gated_of_detect (Finding.opportunity?_ofAnswer.mp finds)
      simp only [List.map_cons, List.filter_cons, gated, if_true, same]
      exact ih.cons_cons kind

/-- As many heuristics fail as gated categories are not told the gas price. -/
theorem detectorErrors_report :
    (params.report nodes classified).detectorErrors =
      classified.gatedKinds.countP fun kind => ! (nodes kind).gasPrice.isOk := by
  simp only [report, TxReport.ofFindings, ClassifiedTx.gatedKinds, List.countP_map,
    List.countP_filter]
  apply List.countP_congr
  intro kind _
  simp only [Function.comp, Finding.isFault_ofAnswer, isOk_detect, Bool.not_not, Bool.and_comm]

theorem detectorErrors_of_unpriced
    (unpriced : ∀ kind ∈ classified.gatedKinds, ∃ cause, (nodes kind).gasPrice = .error cause) :
    (params.report nodes classified).detectorErrors = classified.gatedKinds.length := by
  rw [detectorErrors_report, List.countP_eq_length]
  intro kind member
  obtain ⟨cause, refused⟩ := unpriced kind member
  rw [refused]
  rfl

theorem detectorErrors_of_priced
    (priced : ∀ kind ∈ classified.gatedKinds, ∃ price, (nodes kind).gasPrice = .ok price) :
    (params.report nodes classified).detectorErrors = 0 := by
  rw [detectorErrors_report, List.countP_eq_zero]
  intro kind member
  obtain ⟨price, told⟩ := priced kind member
  rw [told]
  exact Bool.false_ne_true

theorem kinds_report_sublist :
    ((params.report nodes classified).opportunities.map Opportunity.kind).Sublist
      classified.gatedKinds :=
  kinds_sublist nodes OpportunityKind.all

theorem opportunities_eq_nil
    (unpriced : ∀ kind ∈ classified.gatedKinds, ∃ cause, (nodes kind).gasPrice = .error cause) :
    (params.report nodes classified).opportunities = [] := by
  apply List.filterMap_eq_nil_iff.mpr
  intro finding member
  obtain ⟨kind, _, rfl⟩ := List.mem_map.mp member
  apply Option.eq_none_iff_forall_ne_some.mpr
  intro found finds
  obtain ⟨price, ⟨gated, priced, _⟩, _⟩ :=
    detect_eq_some_iff.mp (Finding.opportunity?_ofAnswer.mp finds)
  obtain ⟨cause, refused⟩ := unpriced kind (ClassifiedTx.mem_gatedKinds.mpr gated)
  rw [refused] at priced
  contradiction

end Params

theorem ClassifiedTx.gatedKinds_of_transfer (transfer : classified.tags = { ethTransfer := true }) :
    classified.gatedKinds = [] := by
  rw [gatedKinds, transfer]
  rfl

/-- The analysis of a fetched transaction asks for the gas price once for each category whose
gating tag the transaction has, and never for the others, whatever entries the tagger has. The
categories of what it finds are among the gated ones, in order and each at most once. Without
any gas price nothing is found and every gated category fails; with all of them none fails. A
transfer of value without calldata has the tag of a transfer alone, and nothing is asked, found
or failed for it. -/
theorem analysis_asks_for_gated_kinds (params : Params) (entries : List (Selector × Tag))
    {node : Node} {hash : Hash} {tx : Transaction} (nodes : OpportunityKind → Node)
    (fetched : node.transaction hash = .ok (some tx)) :
    let tagger := Tagger.withEntries entries
    let classified := tagger.classify tx
    let gated := classified.gatedKinds
    (∀ kind, (params.detectBy kind (Params.countedPrice (nodes kind)) classified).run.run 0 =
      (params.detect kind (nodes kind) classified,
        if classified.tags.contains kind.gatingTag then 1 else 0)) ∧
    ∃ report,
      analyze node tagger (params.detectorsOf nodes OpportunityKind.all) hash =
        ⟨some (.analyzed report), gated.length⟩ ∧
      report.classified = classified ∧
      (report.opportunities.map Opportunity.kind).Sublist gated ∧
      (report.opportunities.map Opportunity.kind).Nodup ∧
      ((∀ kind ∈ gated, ∃ cause, (nodes kind).gasPrice = .error cause) →
        report.opportunities = [] ∧ report.detectorErrors = gated.length) ∧
      ((∀ kind ∈ gated, ∃ price, (nodes kind).gasPrice = .ok price) →
        report.detectorErrors = 0) ∧
      (tx.value ≠ 0 → tx.input = [] →
        classified.tags = { ethTransfer := true } ∧ classified.call = none ∧ gated = [] ∧
          report.opportunities = [] ∧ report.detectorErrors = 0) := by
  intro tagger classified gated
  have kinds : ((params.report nodes classified).opportunities.map Opportunity.kind).Sublist
      gated := Params.kinds_report_sublist nodes
  refine ⟨?_, params.report nodes classified, Params.analyze_detectorsOf nodes fetched, rfl, kinds,
    ?_, ?_, ?_, ?_⟩
  · intro kind
    rw [Params.run_detectBy_countedPrice, Nat.zero_add]
    rfl
  · have distinct : OpportunityKind.all.Nodup := by decide
    exact (distinct.filter _).sublist kinds
  · intro unpriced
    exact ⟨Params.opportunities_eq_nil nodes unpriced,
      Params.detectorErrors_of_unpriced nodes unpriced⟩
  · exact Params.detectorErrors_of_priced nodes
  · intro value empty
    have tags : classified.tags = { ethTransfer := true } := Tagger.tags_of_transfer value empty
    have none : gated = [] := ClassifiedTx.gatedKinds_of_transfer tags
    have errors : (params.report nodes classified).detectorErrors = 0 := by
      apply Params.detectorErrors_of_priced
      intro kind member
      rw [show classified.gatedKinds = [] from none] at member
      contradiction
    rw [none] at kinds
    refine ⟨tags, ?_, none, List.map_eq_nil_iff.mp (List.sublist_nil.mp kinds), errors⟩
    show DecodedCall.ofCalldata? tx.input = Option.none
    rw [empty]
    rfl

/-- A node that knows one transaction and no gas price. -/
def priceless (tx : Transaction) : Node :=
  { Params.pricing 0 with
    transaction := fun _ => .ok (some tx)
    gasPrice := .error (.rpc "") }

/-- The function is registered as a swap, as a transfer and as a liquidation. -/
def severalEntries : List (Selector × Tag) :=
  [Tag.swap, .ethTransfer, .liquidation].map fun tag => (.padRight 4 Params.unknownCall.input, tag)

theorem analysis_asks_for_kinds_of_unknownCall :
    let node := priceless Params.unknownCall
    node.transaction (.fill 32 1) = .ok (some Params.unknownCall) ∧
    ∃ report,
      analyze node (Tagger.withEntries severalEntries) (Params.defaults.detectors node)
        (.fill 32 1) = ⟨some (.analyzed report), 5⟩ ∧
      report.opportunities = [] ∧ report.detectorErrors = 5 := by
  intro node
  have fetched : node.transaction (.fill 32 1) = .ok (some Params.unknownCall) := rfl
  have asked : ((Tagger.withEntries severalEntries).classify Params.unknownCall).gatedKinds.length =
      5 := by decide +kernel
  obtain ⟨_, report, analysis, _, _, _, unpriced, _⟩ :=
    analysis_asks_for_gated_kinds Params.defaults severalEntries (fun _ => node) fetched
  obtain ⟨found, failed⟩ := unpriced fun kind _ => ⟨_, rfl⟩
  rw [asked] at analysis failed
  exact ⟨fetched, report, analysis, found, failed⟩

end MempoolWatch

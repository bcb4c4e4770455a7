import MempoolWatch.Detector
import MempoolWatch.Proofs.Params.Acceptance

/-! Which opportunities a detector emits and what they say. A transaction without the
gating tag is never priced; with it, the answer to the question for the gas price decides
between a fault and an estimate, and the minimum profit between the estimate's opportunity
and nothing. -/
namespace MempoolWatch

theorem Named.get?_ofList_concat {α : Type} (entries : List (String × α)) (name other : String)
    (value : α) :
    Named.get? (Named.ofList (entries ++ [(name, value)])) other =
      if other = name then some value else Named.get? (Named.ofList entries) other := by
  rw [Named.ofList, List.foldl_append]
  exact Named.get?_set _ name other value

/-- What an opportunity says of the transaction and the gas price that it was found at. -/
structure Opportunity.Reports (found : Opportunity) (category : CategoryParams)
    (kind : OpportunityKind) (tx : Transaction) (price : Word) : Prop where
  ofKind : found.kind = kind
  ofTx : found.txHash = tx.hash
  netProfit : found.netProfit = found.grossEstimate - found.gasCost
  aboveMinimum : category.minProfit < found.netProfit
  number : found.netProfit.isNaN = false
  gasCost : found.gasCost = price.gasCost category.gasLimit
  gasNeeded : 0 < category.gasLimit
  gasCostDetail : Named.get? found.details "gasCost" = some (.number found.gasCost)
  confidence : 0.0 ≤ found.confidence ∧ found.confidence ≤ 1.0

namespace Params

/-- The estimate is made, at this gas price, and its net profit exceeds the minimum. -/
def Exceeds (params : Params) (kind : OpportunityKind) (node : Node) (classified : ClassifiedTx)
    (price : Word) : Prop :=
  classified.tags.contains kind.gatingTag = true ∧ node.gasPrice = .ok price ∧
    (params.category kind).minProfit < (params.estimate kind classified price).net

variable {params : Params} {kind : OpportunityKind} {node : Node} {classified : ClassifiedTx}

/-- The note has a name of its own, so that it does not replace the gas cost. -/
theorem estimate_details_gasCost (price : Word) :
    Named.get? (params.estimate kind classified price).details "gasCost" =
      some (.number (params.estimate kind classified price).gasCost) := by
  simp only [estimate]
  cases note? (params.category kind)
      (classified.amount params.amounts (params.category kind).fallbackAmount).2 with
  | none =>
    rw [Option.toList_none, List.map_nil, List.append_nil, Named.get?_ofList_concat, if_pos rfl]
  | some note =>
    rw [Option.toList_some, List.map_singleton, Named.get?_ofList_concat, if_neg (by decide),
      Named.get?_ofList_concat, if_pos rfl]

theorem detect_of_ungated (ungated : ¬ classified.tags.contains kind.gatingTag = true) :
    params.detect kind node classified = .ok none := by
  rw [detect, evaluate, if_neg ungated]
  rfl

theorem detect_of_fault {cause : Fault} (gated : classified.tags.contains kind.gatingTag = true)
    (unpriced : node.gasPrice = .error cause) :
    params.detect kind node classified = .error cause := by
  rw [detect, evaluate, if_pos gated, unpriced]
  rfl

theorem detect_of_price {price : Word} (gated : classified.tags.contains kind.gatingTag = true)
    (priced : node.gasPrice = .ok price) :
    params.detect kind node classified = .ok
      (if (params.category kind).minProfit < (params.estimate kind classified price).net then
        some ((params.estimate kind classified price).opportunity classified.tx.hash)
      else none) := by
  rw [detect, evaluate, if_pos gated, priced]
  show (if (params.category kind).minProfit < (params.estimate kind classified price).net then
    _ else _) = _
  split <;> rfl

theorem detect_eq_error_iff {cause : Fault} :
    params.detect kind node classified = .error cause ↔
      classified.tags.contains kind.gatingTag = true ∧ node.gasPrice = .error cause := by
  by_cases gated : classified.tags.contains kind.gatingTag = true
  · cases asked : node.gasPrice with
    | error fault => simp only [detect_of_fault gated asked, gated, Except.error.injEq, true_and]
    | ok price => simp only [detect_of_price gated asked, reduceCtorEq, and_false]
  · simp only [detect_of_ungated gated, gated, reduceCtorEq, false_and]

theorem detect_eq_some_iff {found : Opportunity} :
    params.detect kind node classified = .ok (some found) ↔
      ∃ price, params.Exceeds kind node classified price ∧
        found = (params.estimate kind classified price).opportunity classified.tx.hash := by
  constructor
  · intro emitted
    by_cases gated : classified.tags.contains kind.gatingTag = true
    · cases asked : node.gasPrice with
      | error fault => rw [detect_of_fault gated asked] at emitted; cases emitted
      | ok price =>
        rw [detect_of_price gated asked] at emitted
        split at emitted
        · next exceeds => cases emitted; exact ⟨price, ⟨gated, asked, exceeds⟩, rfl⟩
        · cases emitted
    · rw [detect_of_ungated gated] at emitted
      cases emitted
  · rintro ⟨price, ⟨gated, priced, exceeds⟩, rfl⟩
    rw [detect_of_price gated priced, if_pos exceeds]

theorem detect_eq_none_iff :
    params.detect kind node classified = .ok none ↔
      ¬ classified.tags.contains kind.gatingTag = true ∨
        ∃ price, node.gasPrice = .ok price ∧
          ¬ (params.category kind).minProfit < (params.estimate kind classified price).net := by
  by_cases gated : classified.tags.contains kind.gatingTag = true
  · cases asked : node.gasPrice with
    | error fault => simp [detect_of_fault gated asked, gated]
    | ok price => simp [detect_of_price gated asked, gated]
  · simp [detect_of_ungated gated, gated]

/-- The opportunity of an estimate above the minimum reports what it should. -/
theorem Exceeds.reports {price : Word} (exceeds : params.Exceeds kind node classified price)
    (valid : (params.category kind).Valid) :
    ((params.estimate kind classified price).opportunity classified.tx.hash).Reports
      (params.category kind) kind classified.tx price where
  ofKind := rfl
  ofTx := rfl
  netProfit := rfl
  aboveMinimum := exceeds.2.2
  number := (not_isNaN_of_lt exceeds.2.2).2
  gasCost := rfl
  gasNeeded := UInt64.pos_iff_ne_zero.mpr valid.gasLimit
  gasCostDetail := estimate_details_gasCost price
  confidence := valid.confidence _

/-- With accepted parameters, a detector fails exactly when it asks for the gas price in
vain, and emits exactly when the net profit exceeds the minimum at the price it is told;
otherwise it finds nothing. All that is emitted reports what it should. -/
theorem emits_exactly_above_minimum (accepted : params.Accepted)
    (entries : List (Selector × Tag)) (tx : Transaction) (node : Node) (kind : OpportunityKind) :
    let classified := (Tagger.withEntries entries).classify tx
    let gated := classified.tags.contains kind.gatingTag = true
    let answer := params.detect kind node classified
    (∀ cause, answer = .error cause ↔ gated ∧ node.gasPrice = .error cause) ∧
    (∀ found, answer = .ok (some found) ↔
      ∃ price, params.Exceeds kind node classified price ∧
        found = (params.estimate kind classified price).opportunity tx.hash) ∧
    (answer = .ok none ↔ ¬ gated ∨ ∃ price, node.gasPrice = .ok price ∧
      ¬ (params.category kind).minProfit < (params.estimate kind classified price).net) ∧
    ∀ found, answer = .ok (some found) →
      ∃ price, node.gasPrice = .ok price ∧
        found.Reports (params.category kind) kind tx price := by
  refine ⟨fun _ => detect_eq_error_iff, fun _ => detect_eq_some_iff, detect_eq_none_iff, ?_⟩
  intro found emitted
  obtain ⟨price, exceeds, rfl⟩ := detect_eq_some_iff.mp emitted
  exact ⟨price, exceeds.2.1, exceeds.reports (accepted.category kind)⟩

/-- A transaction of fifty native units that calls a function no table knows. -/
def unknownCall : Transaction where
  hash := ⟨List.replicate 32 1, rfl⟩
  sender := ⟨List.replicate 20 2, rfl⟩
  recipient := none
  value := 50000000000000000000
  input := [0xde, 0xad, 0xbe, 0xef]
  gas := 0
  gasPrice := none

/-- A node that has nothing but a gas price. -/
def pricing (price : Word) : Node where
  transaction _ := .ok none
  gasPrice := .ok price
  blockNumber := .ok 0
  poolStatus := .ok .empty
  poolContent := .ok ⟨[], []⟩

/-- The function is registered as a liquidation. -/
def unknownCallEntries : List (Selector × Tag) :=
  [(⟨[0xde, 0xad, 0xbe, 0xef], rfl⟩, .liquidation)]

theorem emits_liquidation_of_unknownCall :
    defaults.Accepted ∧ ∃ found,
      defaults.detect .liquidation (pricing 3000000000)
        ((Tagger.withEntries unknownCallEntries).classify unknownCall) = .ok (some found) ∧
      ∃ price, (pricing 3000000000).gasPrice = .ok price ∧
        found.Reports (defaults.category .liquidation) .liquidation unknownCall price := by
  have accepted : defaults.Accepted := Or.inl rfl
  have exceeds : defaults.Exceeds .liquidation (pricing 3000000000)
      ((Tagger.withEntries unknownCallEntries).classify unknownCall) 3000000000 :=
    ⟨by decide, rfl, by decide +kernel⟩
  obtain ⟨_, some_iff, _, reports⟩ := emits_exactly_above_minimum accepted unknownCallEntries
    unknownCall (pricing 3000000000) .liquidation
  have emitted := (some_iff _).mpr ⟨_, exceeds, rfl⟩
  exact ⟨accepted, _, emitted, reports _ emitted⟩

end Params

end MempoolWatch

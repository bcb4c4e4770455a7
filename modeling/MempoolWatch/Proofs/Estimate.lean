import MempoolWatch.Proofs.Call.Calldata
import MempoolWatch.Proofs.Detection
import MempoolWatch.Proofs.Named

/-! What an estimate says of the amount. The value of the transaction comes first, then an amount
from calldata within the plausible range, and the minimum of the category last; the confidence, the
figures and the note of the estimate follow the one that was taken. -/
namespace MempoolWatch

namespace MarketModel

/-- The names of the figures that explain a yield. -/
def figureNames : MarketModel → List String
  | priceDifferential .. => ["amount", "priceDiff"]
  | sandwich .. => ["userAmount", "frontRunAmount", "priceImpact"]
  | frontRun .. => ["amount", "estimatedProfit"]
  | backRun .. => ["userAmount", "backRunAmount", "priceImpact", "recoveryRate"]
  | liquidationBonus .. => ["amount", "liquidationBonus"]
  | feeCapture .. => ["liquidityAmount", "estimatedFees"]

theorem names_gross (model : MarketModel) (amount : Float) :
    (model.gross amount).2.map Prod.fst = model.figureNames := by
  cases model <;> rfl

/-- The names that an estimate adds are others. -/
theorem nodup_figureNames (model : MarketModel) :
    (model.figureNames ++ ["gasCost"] ++ ["note"]).Nodup := by
  cases model <;> simp [figureNames]

end MarketModel

namespace AmountHeuristics

/-- The call carries an amount of so many tokens: the decoded amount, which is in the smallest unit,
over ten to the number of decimals. -/
def HasTokens (amounts : AmountHeuristics) (call : Option DecodedCall) (tokens : Float) : Prop :=
  ∃ raw, call.bind DecodedCall.amount = some raw ∧
    tokens = raw.toFloat / powerOfTen amounts.tokenDecimals.toInt32.toInt

/-- So many tokens are within the plausible range. -/
def Encloses (amounts : AmountHeuristics) (tokens : Float) : Prop :=
  amounts.minPlausibleTokens < tokens ∧ tokens < amounts.maxPlausibleTokens

theorem HasTokens.unique {amounts : AmountHeuristics} {call : Option DecodedCall}
    {tokens other : Float} (first : amounts.HasTokens call tokens)
    (second : amounts.HasTokens call other) : tokens = other := by
  obtain ⟨raw, carried, rfl⟩ := first
  obtain ⟨_, also, rfl⟩ := second
  cases carried.symm.trans also
  rfl

instance (amounts : AmountHeuristics) (tokens : Float) : Decidable (amounts.Encloses tokens) :=
  inferInstanceAs (Decidable (_ ∧ _))

end AmountHeuristics

namespace ClassifiedTx

variable {classified : ClassifiedTx} {heuristics : AmountHeuristics} {fallback : Float}

/-- Where an amount comes from, and what it is then. -/
inductive AmountFrom (classified : ClassifiedTx) (heuristics : AmountHeuristics)
    (fallback : Float) : AmountSource → Float → Prop
  | nativeValue (value : classified.tx.value ≠ 0) :
      AmountFrom classified heuristics fallback .nativeValue classified.tx.value.toNative
  | calldata {tokens : Float} (value : classified.tx.value = 0)
      (carried : heuristics.HasTokens classified.call tokens)
      (inside : heuristics.Encloses tokens) :
      AmountFrom classified heuristics fallback .calldata (tokens * heuristics.tokenNativeRate)
  | categoryMinimum (value : classified.tx.value = 0)
      (outside : ∀ tokens, heuristics.HasTokens classified.call tokens →
        ¬ heuristics.Encloses tokens) :
      AmountFrom classified heuristics fallback .categoryMinimum fallback

theorem amountFrom_amount (classified : ClassifiedTx) (heuristics : AmountHeuristics)
    (fallback : Float) :
    AmountFrom classified heuristics fallback (classified.amount heuristics fallback).2
      (classified.amount heuristics fallback).1 := by
  unfold amount
  split
  · next value => exact .nativeValue value
  · next value =>
    have value : classified.tx.value = 0 := not_not.mp value
    split
    · next raw found =>
      by_cases inside : heuristics.isPlausible (heuristics.tokens raw) = true
      · rw [if_pos inside]
        exact .calldata value ⟨raw, found, rfl⟩ (of_decide_eq_true inside)
      · rw [if_neg inside]
        refine .categoryMinimum value ?_
        rintro tokens ⟨other, carried, rfl⟩ within
        cases found.symm.trans carried
        exact inside (decide_eq_true within)
    · next missing =>
      refine .categoryMinimum value ?_
      rintro tokens ⟨raw, carried, _⟩
      cases missing.symm.trans carried

variable {source : AmountSource} {amount : Float}

theorem AmountFrom.nativeValue_iff
    (origin : AmountFrom classified heuristics fallback source amount) :
    source = .nativeValue ↔ classified.tx.value ≠ 0 := by
  cases origin with
  | nativeValue value => exact iff_of_true rfl value
  | calldata value | categoryMinimum value => exact iff_of_false nofun (not_not.mpr value)

theorem AmountFrom.calldata_iff
    (origin : AmountFrom classified heuristics fallback source amount) :
    source = .calldata ↔ classified.tx.value = 0 ∧
      ∃ tokens, heuristics.HasTokens classified.call tokens ∧ heuristics.Encloses tokens := by
  cases origin with
  | nativeValue value => exact iff_of_false nofun fun found => value found.1
  | calldata value carried inside => exact iff_of_true rfl ⟨value, _, carried, inside⟩
  | categoryMinimum value outside =>
    exact iff_of_false nofun fun ⟨_, tokens, carried, inside⟩ =>
      outside tokens carried inside

theorem AmountFrom.categoryMinimum_iff
    (origin : AmountFrom classified heuristics fallback source amount) :
    source = .categoryMinimum ↔ classified.tx.value = 0 ∧
      ∀ tokens, heuristics.HasTokens classified.call tokens → ¬ heuristics.Encloses tokens := by
  cases origin with
  | nativeValue value => exact iff_of_false nofun fun found => value found.1
  | calldata value carried inside =>
    exact iff_of_false nofun fun found => found.2 _ carried inside
  | categoryMinimum value outside => exact iff_of_true rfl ⟨value, outside⟩

theorem AmountFrom.amount_eq
    (origin : AmountFrom classified heuristics fallback source amount) :
    (source = .nativeValue → amount = classified.tx.value.toNative) ∧
    (source = .calldata → ∃ tokens, heuristics.HasTokens classified.call tokens ∧
      amount = tokens * heuristics.tokenNativeRate) ∧
    (source = .categoryMinimum → amount = fallback) := by
  cases origin with
  | nativeValue value => exact ⟨fun _ => rfl, nofun, nofun⟩
  | calldata value carried inside => exact ⟨nofun, fun _ => ⟨_, carried, rfl⟩, nofun⟩
  | categoryMinimum value outside => exact ⟨nofun, nofun, fun _ => rfl⟩

end ClassifiedTx

namespace DecodedCall

/-- Calldata that carry no amount: they name no call of the table, or the data behind the selector
cannot be read, or the call has its amount in the value of the transaction. -/
inductive Amountless (calldata : Bytes) : Prop
  | short (size : calldata.length < 4)
  | unknown (unnamed : ∀ call ∈ KnownCall.all, calldata.take 4 ≠ call.selector.bytes)
  | unread {call : KnownCall} (known : call ∈ KnownCall.all)
      (named : calldata.take 4 = call.selector.bytes)
      (refused : Abi.decode call.params (calldata.drop 4) = none)
  | native {call : KnownCall} (known : call ∈ KnownCall.all)
      (named : calldata.take 4 = call.selector.bytes) (amount : call.amount = .nativeValue)

theorem bind_amount_of_amountless {calldata : Bytes} (amountless : Amountless calldata) :
    (ofCalldata? calldata).bind amount = none := by
  cases amountless with
  | short size => rw [ofCalldata?_eq_none_iff.mpr (Or.inl size)]; rfl
  | unknown unnamed => rw [ofCalldata?_eq_none_iff.mpr (Or.inr unnamed)]; rfl
  | unread known named refused => rw [ofCalldata?_of_named known named, ofArguments, refused]; rfl
  | native known named native =>
    rw [ofCalldata?_of_named known named, ofArguments, native]
    split <;> rfl

end DecodedCall

namespace Params

/-- The note of the category, or else the one for an amount that is not known. -/
theorem note?_eq (category : CategoryParams) (source : AmountSource) :
    note? category source =
      category.note.or (if source = .categoryMinimum then some fallbackNote else none) := by
  cases source <;> rfl

variable {params : Params} {kind : OpportunityKind} {classified : ClassifiedTx} {price : Word}

theorem amountFrom_estimate (params : Params) (kind : OpportunityKind) (classified : ClassifiedTx)
    (price : Word) :
    classified.AmountFrom params.amounts (params.category kind).fallbackAmount
      (params.estimate kind classified price).amountSource
      (params.estimate kind classified price).amount :=
  classified.amountFrom_amount params.amounts (params.category kind).fallbackAmount

theorem confidence_estimate :
    (params.estimate kind classified price).confidence =
      if (params.estimate kind classified price).amountSource = .categoryMinimum then
        (params.category kind).confidenceUnknown
      else (params.category kind).confidenceKnown := by
  show (params.category kind).confidence
    (params.estimate kind classified price).amountSource.isKnown = _
  cases (params.estimate kind classified price).amountSource <;> rfl

/-- The figures of the model in the details of an estimate. -/
def figures (params : Params) (kind : OpportunityKind) (amount : Float) :
    List (String × DetailValue) :=
  ((params.category kind).model.gross amount).2.map fun (name, value) => (name, .number value)

theorem names_figures (amount : Float) :
    (params.figures kind amount).map Prod.fst = (params.category kind).model.figureNames := by
  rw [figures, List.map_map, ← MarketModel.names_gross _ amount]
  rfl

/-- The details of an estimate, with each name once. -/
def entries (params : Params) (kind : OpportunityKind) (estimate : ProfitEstimate) :
    List (String × DetailValue) :=
  params.figures kind estimate.amount ++ [("gasCost", .number estimate.gasCost)] ++
    (note? (params.category kind) estimate.amountSource).toList.map fun note => ("note", .text note)

theorem details_estimate :
    (params.estimate kind classified price).details =
      Named.ofList (params.entries kind (params.estimate kind classified price)) := rfl

theorem names_entries (estimate : ProfitEstimate) :
    (params.entries kind estimate).map Prod.fst =
      (params.category kind).model.figureNames ++ ["gasCost"] ++
        (note? (params.category kind) estimate.amountSource).toList.map fun _ => "note" := by
  rw [entries, List.map_append, List.map_append, names_figures, List.map_map]
  rfl

theorem nodup_names_entries (estimate : ProfitEstimate) :
    ((params.entries kind estimate).map Prod.fst).Nodup := by
  have distinct := (params.category kind).model.nodup_figureNames
  rw [names_entries]
  cases note? (params.category kind) estimate.amountSource with
  | none =>
    rw [Option.toList_none, List.map_nil, List.append_nil]
    exact distinct.sublist (List.sublist_append_left _ _)
  | some note => exact distinct

theorem mem_names_details {name : String} :
    let estimate := params.estimate kind classified price
    name ∈ estimate.details.names ↔
      name ∈ (params.category kind).model.figureNames ∨ name = "gasCost" ∨
        name = "note" ∧ ((params.category kind).note ≠ none ∨
          estimate.amountSource = .categoryMinimum) := by
  intro estimate
  have noted : name ∈ (note? (params.category kind) estimate.amountSource).toList.map
      (fun _ => "note") ↔ name = "note" ∧ ((params.category kind).note ≠ none ∨
        estimate.amountSource = .categoryMinimum) := by
    rw [note?_eq]
    cases (params.category kind).note <;>
      by_cases unknown : estimate.amountSource = .categoryMinimum <;> simp [unknown]
  rw [details_estimate, Named.mem_names_ofList, names_entries, List.mem_append, List.mem_append,
    noted, or_assoc, List.mem_singleton]

/-- Nothing that an estimate sets among its details is replaced later. -/
theorem get?_details_of_mem {name : String} {value : DetailValue}
    (member : (name, value) ∈ params.entries kind (params.estimate kind classified price)) :
    Named.get? (params.estimate kind classified price).details name = some value := by
  rw [details_estimate]
  exact Named.get?_ofList_of_mem (nodup_names_entries _) member

theorem get?_details_note :
    let estimate := params.estimate kind classified price
    Named.get? estimate.details "note" = ((params.category kind).note.or
      (if estimate.amountSource = .categoryMinimum then some fallbackNote else none)).map .text := by
  intro estimate
  rw [← note?_eq]
  cases noted : note? (params.category kind) estimate.amountSource with
  | none =>
    have others : "note" ∉ (params.category kind).model.figureNames ++ ["gasCost"] := by
      intro member
      have distinct := (params.category kind).model.nodup_figureNames
      exact (List.nodup_append.mp distinct).2.2 _ member _ (List.mem_singleton_self _) rfl
    rw [Option.map_none, Named.get?_eq_none_iff, details_estimate, Named.mem_names_ofList,
      names_entries, noted, Option.toList_none, List.map_nil, List.append_nil]
    exact others
  | some note =>
    apply get?_details_of_mem
    rw [entries, noted]
    simp

end Params

/-- What an estimate says of its amount. -/
structure ProfitEstimate.FollowsSource (estimate : ProfitEstimate) (category : CategoryParams)
    (amounts : AmountHeuristics) (tx : Transaction) : Prop where
  nativeValue_iff : estimate.amountSource = .nativeValue ↔ tx.value ≠ 0
  calldata_iff : estimate.amountSource = .calldata ↔ tx.value = 0 ∧
    ∃ tokens, amounts.HasTokens (DecodedCall.ofCalldata? tx.input) tokens ∧
      amounts.Encloses tokens
  categoryMinimum_iff : estimate.amountSource = .categoryMinimum ↔ tx.value = 0 ∧
    ∀ tokens, amounts.HasTokens (DecodedCall.ofCalldata? tx.input) tokens →
      ¬ amounts.Encloses tokens
  categoryMinimum_of_amountless : tx.value = 0 → DecodedCall.Amountless tx.input →
    estimate.amountSource = .categoryMinimum
  /-- In native units, of which each has 10^18 wei. -/
  amount_of_nativeValue : estimate.amountSource = .nativeValue →
    estimate.amount = tx.value.toFloat / 1e18
  amount_of_calldata : estimate.amountSource = .calldata →
    ∃ tokens, amounts.HasTokens (DecodedCall.ofCalldata? tx.input) tokens ∧
      estimate.amount = tokens * amounts.tokenNativeRate
  amount_of_categoryMinimum : estimate.amountSource = .categoryMinimum →
    estimate.amount = category.fallbackAmount
  confidence_of_unknown : estimate.amountSource = .categoryMinimum →
    estimate.confidence = category.confidenceUnknown
  confidence_of_known : estimate.amountSource ≠ .categoryMinimum →
    estimate.confidence = category.confidenceKnown
  confidence_iff : category.confidenceKnown ≠ category.confidenceUnknown →
    (estimate.confidence = category.confidenceUnknown ↔
      estimate.amountSource = .categoryMinimum)
  gross : estimate.gross = (category.model.gross estimate.amount).1
  nodup_names : estimate.details.names.Nodup
  mem_names_iff : ∀ name, name ∈ estimate.details.names ↔ name ∈ category.model.figureNames ∨
    name = "gasCost" ∨ name = "note" ∧
      (category.note ≠ none ∨ estimate.amountSource = .categoryMinimum)
  figures : ∀ name value, (name, value) ∈ (category.model.gross estimate.amount).2 →
    Named.get? estimate.details name = some (.number value)
  gasCost : Named.get? estimate.details "gasCost" = some (.number estimate.gasCost)
  note : Named.get? estimate.details "note" = (category.note.or
    (if estimate.amountSource = .categoryMinimum then some fallbackNote else none)).map .text

namespace Params

/-- The source of an estimate's amount is the value of the transaction if there is one, whatever
the calldata say, else the calldata if they carry an amount within the plausible range, else the
minimum of the category; so for calldata that carry none. The amount, the confidence, the gross
yield with its figures, and the note are those of that source. -/
theorem estimate_follows_source (params : Params) (kind : OpportunityKind) (tagger : Tagger)
    (tx : Transaction) (price : Word) :
    (params.estimate kind (tagger.classify tx) price).FollowsSource (params.category kind)
      params.amounts tx := by
  have origin := params.amountFrom_estimate kind (tagger.classify tx) price
  have known : (params.estimate kind (tagger.classify tx) price).confidence =
      if (params.estimate kind (tagger.classify tx) price).amountSource = .categoryMinimum then
        (params.category kind).confidenceUnknown
      else (params.category kind).confidenceKnown := confidence_estimate
  obtain ⟨fromValue, fromCalldata, fromMinimum⟩ := origin.amount_eq
  exact {
    nativeValue_iff := origin.nativeValue_iff
    calldata_iff := origin.calldata_iff
    categoryMinimum_iff := origin.categoryMinimum_iff
    categoryMinimum_of_amountless := by
      intro value amountless
      refine origin.categoryMinimum_iff.mpr ⟨value, ?_⟩
      rintro tokens ⟨raw, carried, _⟩
      cases (DecodedCall.bind_amount_of_amountless amountless).symm.trans carried
    amount_of_nativeValue := fromValue
    amount_of_calldata := fromCalldata
    amount_of_categoryMinimum := fromMinimum
    confidence_of_unknown := by
      intro unknown
      rw [known, if_pos unknown]
    confidence_of_known := by
      intro found
      rw [known, if_neg found]
    confidence_iff := by
      intro differ
      rw [known]
      split
      · next unknown => exact iff_of_true rfl unknown
      · next found => exact iff_of_false differ found
    gross := rfl
    nodup_names := (Named.ordered_ofList _).nodup
    mem_names_iff := fun _ => mem_names_details
    figures := by
      intro name value member
      apply get?_details_of_mem
      exact List.mem_append_left _ (List.mem_append_left _ (List.mem_map_of_mem member))
    gasCost := by
      apply get?_details_of_mem
      exact List.mem_append_left _ (List.mem_append_right _ (List.mem_singleton_self _))
    note := get?_details_note }

/-- Repays two tokens of a borrower and sends no value along. -/
def repayment : Transaction where
  hash := .fill 32 1
  sender := .fill 20 1
  recipient := some (.fill 20 2)
  value := 0
  input := [0x29, 0x86, 0xc0, 0xe5] ++
    (Abi.wordOf 0 ++ Abi.wordOf 2000000000000000000 ++ Abi.wordOf 0)
  gas := 21000
  gasPrice := none

/-- The same call with three units of value. -/
def paidRepayment : Transaction :=
  { repayment with value := 3000000000000000000 }

/-- The amount is that of the two tokens, unless there is a value. -/
theorem estimate_of_repayment :
    let estimate := defaults.estimate .frontRun (Tagger.standard.classify repayment) 0
    let paid := defaults.estimate .frontRun (Tagger.standard.classify paidRepayment) 0
    estimate.amountSource = .calldata ∧ estimate.amount = 2 * 0.001 ∧ estimate.confidence = 0.3 ∧
      Named.get? estimate.details "note" = none ∧
      paid.amountSource = .nativeValue ∧ paid.amount = 3 := by
  intro estimate paid
  have carried : defaults.amounts.HasTokens (DecodedCall.ofCalldata? repayment.input) 2 :=
    ⟨2000000000000000000, rfl, by decide +kernel⟩
  have follows : estimate.FollowsSource (defaults.category .frontRun) defaults.amounts repayment :=
    estimate_follows_source defaults .frontRun .standard repayment 0
  have source : estimate.amountSource = .calldata :=
    follows.calldata_iff.mpr ⟨rfl, 2, carried, by decide +kernel⟩
  have known : estimate.amountSource ≠ .categoryMinimum := by
    rw [source]
    simp
  obtain ⟨tokens, found, amount⟩ := follows.amount_of_calldata source
  rw [found.unique carried] at amount
  have followsPaid : paid.FollowsSource (defaults.category .frontRun) defaults.amounts
      paidRepayment := estimate_follows_source defaults .frontRun .standard paidRepayment 0
  have native : paid.amountSource = .nativeValue := followsPaid.nativeValue_iff.mpr (by decide)
  have three : paidRepayment.value.toFloat / 1e18 = 3 := by decide +kernel
  refine ⟨source, amount, follows.confidence_of_known known, ?_, native,
    (followsPaid.amount_of_nativeValue native).trans three⟩
  rw [follows.note, if_neg known]
  rfl

end Params

end MempoolWatch

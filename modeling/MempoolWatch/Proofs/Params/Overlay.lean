import MempoolWatch.Proofs.Params.Acceptance
import MempoolWatch.Proofs.Params.Model
import Mathlib.Tactic.Choose

/-! The parameters as a document laid over the defaults. A field that the document gives has the
value given there, and every other field its default. What a document says about one category has
no part in another one. -/
namespace MempoolWatch

namespace Toml

/-- What a text says of a note. The empty text says that there is none. -/
inductive IsNote : Toml → Option String → Prop
  | missing : IsNote (.string "") none
  | note {text : String} (present : text ≠ "") : IsNote (.string text) (some text)

theorem IsNote.isText {toml : Toml} {note : Option String} (meant : toml.IsNote note) :
    ∃ text, toml.IsText text := by
  cases meant with
  | missing | note => exact ⟨_, rfl⟩

theorem reads_note :
    Reads (fun toml => toml.string?.map CategoryOverlay.noteOfText) IsNote := by
  intro toml note _
  simp only [Option.map_eq_some_iff, string?_eq_some_iff]
  constructor
  · rintro ⟨text, rfl, rfl⟩
    unfold CategoryOverlay.noteOfText
    split
    · next empty =>
      rw [String.isEmpty_iff] at empty
      subst empty
      exact .missing
    · next present => exact .note fun empty => present (String.isEmpty_iff.mpr empty)
  · intro meant
    cases meant with
    | missing => exact ⟨"", rfl, rfl⟩
    | @note text present =>
      refine ⟨text, rfl, ?_⟩
      rw [CategoryOverlay.noteOfText, if_neg (mt String.isEmpty_iff.mp present)]

end Toml

namespace CategoryParams

/-- What a document gives, laid over the parameters beneath. -/
structure LaidOver (params beneath : CategoryParams) (given? : String → Option Toml) : Prop where
  gasLimit : Toml.Overlaid Toml.IsUInt64 beneath.gasLimit (given? "gas_limit") params.gasLimit
  model : Toml.Overlaid Toml.IsModel beneath.model (given? "model") params.model
  confidenceKnown : Toml.Overlaid Toml.IsNumber beneath.confidenceKnown
    (given? "confidence_known") params.confidenceKnown
  confidenceUnknown : Toml.Overlaid Toml.IsNumber beneath.confidenceUnknown
    (given? "confidence_unknown") params.confidenceUnknown
  minProfit : Toml.Overlaid Toml.IsNumber beneath.minProfit (given? "min_profit") params.minProfit
  fallbackAmount : Toml.Overlaid Toml.IsNumber beneath.fallbackAmount (given? "fallback_amount")
    params.fallbackAmount
  note : Toml.Overlaid Toml.IsNote beneath.note (given? "note") params.note

/-- Every field that is given is of its type. -/
structure Typed (given? : String → Option Toml) : Prop where
  gasLimit : Toml.Typed Toml.IsUInt64 (given? "gas_limit")
  model : Toml.Typed Toml.IsModel (given? "model")
  confidenceKnown : Toml.Typed Toml.IsNumber (given? "confidence_known")
  confidenceUnknown : Toml.Typed Toml.IsNumber (given? "confidence_unknown")
  minProfit : Toml.Typed Toml.IsNumber (given? "min_profit")
  fallbackAmount : Toml.Typed Toml.IsNumber (given? "fallback_amount")
  note : Toml.Typed Toml.IsText (given? "note")

variable {params beneath other : CategoryParams} {given? : String → Option Toml}

/-- Where nothing is given, the parameters are the ones beneath. -/
theorem laidOver_none (params : CategoryParams) : params.LaidOver params fun _ => none :=
  ⟨.missing, .missing, .missing, .missing, .missing, .missing, .missing⟩

theorem LaidOver.typed (laid : params.LaidOver beneath given?) : Typed given? := by
  refine ⟨laid.gasLimit.typed, laid.model.typed, laid.confidenceKnown.typed,
    laid.confidenceUnknown.typed, laid.minProfit.typed, laid.fallbackAmount.typed, ?_⟩
  intro toml given
  exact (laid.note.meant given).isText

theorem LaidOver.unique (wellFormed : ∀ name toml, given? name = some toml → toml.WellFormed)
    (laid : params.LaidOver beneath given?) (also : other.LaidOver beneath given?) :
    params = other := by
  have gasLimit := Toml.reads_uint64.unique (wellFormed _) laid.gasLimit also.gasLimit
  have model := Toml.reads_model?.unique (wellFormed _) laid.model also.model
  have confidenceKnown :=
    Toml.reads_float?.unique (wellFormed _) laid.confidenceKnown also.confidenceKnown
  have confidenceUnknown :=
    Toml.reads_float?.unique (wellFormed _) laid.confidenceUnknown also.confidenceUnknown
  have minProfit := Toml.reads_float?.unique (wellFormed _) laid.minProfit also.minProfit
  have fallbackAmount :=
    Toml.reads_float?.unique (wellFormed _) laid.fallbackAmount also.fallbackAmount
  have note := Toml.reads_note.unique (wellFormed _) laid.note also.note
  cases params
  cases other
  simp only [mk.injEq]
  exact ⟨gasLimit, model, confidenceKnown, confidenceUnknown, minProfit, fallbackAmount, note⟩

end CategoryParams

namespace CategoryOverlay

variable {toml : Toml} {overlay : CategoryOverlay}

theorem laidOver_of_ofToml? (wellFormed : toml.WellFormed) (read : ofToml? toml = some overlay)
    (beneath : CategoryParams) : toml.IsRecord fieldNames ∧
      (overlay.applyTo beneath).LaidOver beneath (toml.given? fieldNames) := by
  obtain ⟨field, record, read⟩ := Option.bind_eq_some_iff.mp read
  obtain ⟨isRecord, rfl⟩ := Toml.record?_eq_some_iff.mp record
  obtain ⟨gasLimit, gasLimitRead, read⟩ := Option.bind_eq_some_iff.mp read
  obtain ⟨model, modelRead, read⟩ := Option.bind_eq_some_iff.mp read
  obtain ⟨confidenceKnown, knownRead, read⟩ := Option.bind_eq_some_iff.mp read
  obtain ⟨confidenceUnknown, unknownRead, read⟩ := Option.bind_eq_some_iff.mp read
  obtain ⟨minProfit, minProfitRead, read⟩ := Option.bind_eq_some_iff.mp read
  obtain ⟨fallbackAmount, fallbackRead, read⟩ := Option.bind_eq_some_iff.mp read
  obtain ⟨note, noteRead, read⟩ := Option.bind_eq_some_iff.mp read
  cases read
  have given (name : String) : ∀ value, toml.given? fieldNames name = some value →
      value.WellFormed := fun _ found => wellFormed.given? found
  exact ⟨isRecord, ⟨Toml.reads_uint64.overlaid (given _) gasLimitRead,
    Toml.reads_model?.overlaid (given _) modelRead,
    Toml.reads_float?.overlaid (given _) knownRead,
    Toml.reads_float?.overlaid (given _) unknownRead,
    Toml.reads_float?.overlaid (given _) minProfitRead,
    Toml.reads_float?.overlaid (given _) fallbackRead,
    Toml.reads_note.overlaid (given _) (Toml.field?_map noteRead noteOfText)⟩⟩

theorem exists_ofToml? (wellFormed : toml.WellFormed) (isRecord : toml.IsRecord fieldNames)
    (typed : CategoryParams.Typed (toml.given? fieldNames)) :
    ∃ overlay, ofToml? toml = some overlay := by
  have record := Toml.record?_eq_some_iff.mpr ⟨isRecord, rfl⟩
  have given (name : String) : ∀ value, toml.given? fieldNames name = some value →
      value.WellFormed := fun _ found => wellFormed.given? found
  obtain ⟨gasLimit, gasLimitRead⟩ := Toml.reads_uint64.exists_field? (given _) typed.gasLimit
  obtain ⟨model, modelRead⟩ := Toml.reads_model?.exists_field? (given _) typed.model
  obtain ⟨confidenceKnown, knownRead⟩ :=
    Toml.reads_float?.exists_field? (given _) typed.confidenceKnown
  obtain ⟨confidenceUnknown, unknownRead⟩ :=
    Toml.reads_float?.exists_field? (given _) typed.confidenceUnknown
  obtain ⟨minProfit, minProfitRead⟩ := Toml.reads_float?.exists_field? (given _) typed.minProfit
  obtain ⟨fallbackAmount, fallbackRead⟩ :=
    Toml.reads_float?.exists_field? (given _) typed.fallbackAmount
  obtain ⟨note, noteRead⟩ := Toml.reads_string?.exists_field? (given _) typed.note
  refine ⟨⟨gasLimit, model, confidenceKnown, confidenceUnknown, minProfit, fallbackAmount,
    note⟩, ?_⟩
  rw [ofToml?, record]
  simp only [Option.bind_eq_bind, Option.bind_some, gasLimitRead, modelRead, knownRead,
    unknownRead, minProfitRead, fallbackRead, noteRead]
  rfl

variable {table : Option Toml} (wellFormed : ∀ toml, table = some toml → toml.WellFormed)
include wellFormed

theorem laidOver_of_field? {overlay : Option CategoryOverlay}
    (read : Toml.field? table ofToml? = some overlay) (beneath : CategoryParams) :
    (∀ toml, table = some toml → toml.IsRecord fieldNames) ∧
      ((overlay.getD empty).applyTo beneath).LaidOver beneath
        fun name => table.bind (·.given? fieldNames name) := by
  cases table with
  | none =>
    cases read
    exact ⟨nofun, beneath.laidOver_none⟩
  | some toml =>
    obtain ⟨given, found, rfl⟩ := Option.map_eq_some_iff.mp read
    obtain ⟨isRecord, laid⟩ := laidOver_of_ofToml? (wellFormed toml rfl) found beneath
    refine ⟨?_, laid⟩
    rintro _ ⟨rfl⟩
    exact isRecord

theorem exists_field? (isRecord : ∀ toml, table = some toml → toml.IsRecord fieldNames)
    (typed : CategoryParams.Typed fun name => table.bind (·.given? fieldNames name)) :
    ∃ overlay, Toml.field? table ofToml? = some overlay := by
  cases table with
  | none => exact ⟨none, rfl⟩
  | some toml =>
    obtain ⟨overlay, read⟩ := exists_ofToml? (wellFormed toml rfl) (isRecord toml rfl) typed
    exact ⟨some overlay, congrArg (Option.map some) read⟩

end CategoryOverlay

namespace AmountHeuristics

def fieldNames : List String :=
  ["token_decimals", "min_plausible_tokens", "max_plausible_tokens", "token_native_rate"]

/-- What a document gives, laid over the heuristics beneath. -/
structure LaidOver (amounts beneath : AmountHeuristics) (given? : String → Option Toml) :
    Prop where
  tokenDecimals : Toml.Overlaid Toml.IsUInt32 beneath.tokenDecimals (given? "token_decimals")
    amounts.tokenDecimals
  minPlausibleTokens : Toml.Overlaid Toml.IsNumber beneath.minPlausibleTokens
    (given? "min_plausible_tokens") amounts.minPlausibleTokens
  maxPlausibleTokens : Toml.Overlaid Toml.IsNumber beneath.maxPlausibleTokens
    (given? "max_plausible_tokens") amounts.maxPlausibleTokens
  tokenNativeRate : Toml.Overlaid Toml.IsNumber beneath.tokenNativeRate
    (given? "token_native_rate") amounts.tokenNativeRate

/-- Every field that is given is of its type. -/
structure Typed (given? : String → Option Toml) : Prop where
  tokenDecimals : Toml.Typed Toml.IsUInt32 (given? "token_decimals")
  minPlausibleTokens : Toml.Typed Toml.IsNumber (given? "min_plausible_tokens")
  maxPlausibleTokens : Toml.Typed Toml.IsNumber (given? "max_plausible_tokens")
  tokenNativeRate : Toml.Typed Toml.IsNumber (given? "token_native_rate")

variable {amounts other beneath : AmountHeuristics} {given? : String → Option Toml} {toml : Toml}

theorem LaidOver.unique (wellFormed : ∀ name toml, given? name = some toml → toml.WellFormed)
    (laid : amounts.LaidOver beneath given?) (also : other.LaidOver beneath given?) :
    amounts = other := by
  have tokenDecimals :=
    Toml.reads_small?.unique (wellFormed _) laid.tokenDecimals also.tokenDecimals
  have minPlausibleTokens :=
    Toml.reads_float?.unique (wellFormed _) laid.minPlausibleTokens also.minPlausibleTokens
  have maxPlausibleTokens :=
    Toml.reads_float?.unique (wellFormed _) laid.maxPlausibleTokens also.maxPlausibleTokens
  have tokenNativeRate :=
    Toml.reads_float?.unique (wellFormed _) laid.tokenNativeRate also.tokenNativeRate
  cases amounts
  cases other
  simp only [mk.injEq]
  exact ⟨tokenDecimals, minPlausibleTokens, maxPlausibleTokens, tokenNativeRate⟩

theorem LaidOver.typed (laid : amounts.LaidOver beneath given?) : Typed given? :=
  ⟨laid.tokenDecimals.typed, laid.minPlausibleTokens.typed, laid.maxPlausibleTokens.typed,
    laid.tokenNativeRate.typed⟩

theorem laidOver_of_ofToml? (wellFormed : toml.WellFormed) (read : ofToml? toml = some amounts) :
    toml.IsOpenRecord ∧ amounts.LaidOver defaults (toml.given? fieldNames) := by
  obtain ⟨field, record, read⟩ := Option.bind_eq_some_iff.mp read
  obtain ⟨isRecord, rfl⟩ := Toml.openRecord?_eq_some_iff.mp record
  obtain ⟨tokenDecimals, decimalsRead, read⟩ := Option.bind_eq_some_iff.mp read
  obtain ⟨minPlausibleTokens, minRead, read⟩ := Option.bind_eq_some_iff.mp read
  obtain ⟨maxPlausibleTokens, maxRead, read⟩ := Option.bind_eq_some_iff.mp read
  obtain ⟨tokenNativeRate, rateRead, read⟩ := Option.bind_eq_some_iff.mp read
  cases read
  have given (name : String) : ∀ value, toml.given? fieldNames name = some value →
      value.WellFormed := fun _ found => wellFormed.given? found
  exact ⟨isRecord, ⟨Toml.reads_small?.overlaid (given _) decimalsRead,
    Toml.reads_float?.overlaid (given _) minRead, Toml.reads_float?.overlaid (given _) maxRead,
    Toml.reads_float?.overlaid (given _) rateRead⟩⟩

theorem exists_ofToml? (wellFormed : toml.WellFormed) (isRecord : toml.IsOpenRecord)
    (typed : Typed (toml.given? fieldNames)) : ∃ amounts, ofToml? toml = some amounts := by
  have record : toml.openRecord? fieldNames = some (toml.given? fieldNames) :=
    Toml.openRecord?_eq_some_iff.mpr ⟨isRecord, rfl⟩
  have given (name : String) : ∀ value, toml.given? fieldNames name = some value →
      value.WellFormed := fun _ found => wellFormed.given? found
  obtain ⟨tokenDecimals, decimalsRead⟩ :=
    Toml.reads_small?.exists_field? (given _) typed.tokenDecimals
  obtain ⟨minPlausibleTokens, minRead⟩ :=
    Toml.reads_float?.exists_field? (given _) typed.minPlausibleTokens
  obtain ⟨maxPlausibleTokens, maxRead⟩ :=
    Toml.reads_float?.exists_field? (given _) typed.maxPlausibleTokens
  obtain ⟨tokenNativeRate, rateRead⟩ :=
    Toml.reads_float?.exists_field? (given _) typed.tokenNativeRate
  show ∃ amounts, toml.openRecord? fieldNames >>= _ = some amounts
  rw [record]
  simp only [Option.bind_eq_bind, Option.bind_some, decimalsRead, minRead, maxRead, rateRead]
  exact ⟨_, rfl⟩

variable {table : Option Toml} (wellFormed : ∀ toml, table = some toml → toml.WellFormed)
include wellFormed

theorem laidOver_of_field? {amounts : Option AmountHeuristics}
    (read : Toml.field? table ofToml? = some amounts) :
    (∀ toml, table = some toml → toml.IsOpenRecord) ∧
      (amounts.getD defaults).LaidOver defaults
        fun name => table.bind (·.given? fieldNames name) := by
  cases table with
  | none =>
    cases read
    exact ⟨nofun, .missing, .missing, .missing, .missing⟩
  | some toml =>
    obtain ⟨given, found, rfl⟩ := Option.map_eq_some_iff.mp read
    obtain ⟨isRecord, laid⟩ := laidOver_of_ofToml? (wellFormed toml rfl) found
    refine ⟨?_, laid⟩
    rintro _ ⟨rfl⟩
    exact isRecord

theorem exists_field? (isRecord : ∀ toml, table = some toml → toml.IsOpenRecord)
    (typed : Typed fun name => table.bind (·.given? fieldNames name)) :
    ∃ amounts, Toml.field? table ofToml? = some amounts := by
  cases table with
  | none => exact ⟨none, rfl⟩
  | some toml =>
    obtain ⟨amounts, read⟩ := exists_ofToml? (wellFormed toml rfl) (isRecord toml rfl) typed
    exact ⟨some amounts, congrArg (Option.map some) read⟩

end AmountHeuristics

theorem OpportunityKind.gather_eq_some_iff {α : Type} {action : OpportunityKind → Option α}
    {gathered : OpportunityKind → α} :
    gather action = some gathered ↔ ∀ kind, action kind = some (gathered kind) := by
  constructor
  · intro found kind
    obtain ⟨_, forArbitrage, found⟩ := Option.bind_eq_some_iff.mp found
    obtain ⟨_, forSandwich, found⟩ := Option.bind_eq_some_iff.mp found
    obtain ⟨_, forFrontRun, found⟩ := Option.bind_eq_some_iff.mp found
    obtain ⟨_, forBackRun, found⟩ := Option.bind_eq_some_iff.mp found
    obtain ⟨_, forLiquidation, found⟩ := Option.bind_eq_some_iff.mp found
    obtain ⟨_, forJitLiquidity, found⟩ := Option.bind_eq_some_iff.mp found
    cases found
    cases kind <;> assumption
  · intro each
    simp only [gather, each, Option.bind_eq_bind, Option.bind_some]
    refine congrArg some (funext fun kind => ?_)
    cases kind <;> rfl

namespace Params

/-- What the document says about a category. -/
def categoryGiven? (document : Toml) (kind : OpportunityKind) (name : String) : Option Toml :=
  (document.given? tableNames kind.tableName).bind (·.given? CategoryOverlay.fieldNames name)

/-- What the document says about the amounts. -/
def amountsGiven? (document : Toml) (name : String) : Option Toml :=
  (document.given? tableNames "amounts").bind (·.given? AmountHeuristics.fieldNames name)

/-- A document laid over the defaults. -/
structure LaidOver (params : Params) (document : Toml) : Prop where
  category (kind : OpportunityKind) :
    (params.category kind).LaidOver (.defaults kind) (categoryGiven? document kind)
  amounts : params.amounts.LaidOver .defaults (amountsGiven? document)

/-- The tables and the fields of the categories are known ones, and every field that is given is of
its type. -/
structure WellTyped (document : Toml) : Prop where
  tables : document.IsRecord ["arbitrage", "sandwich", "front_run", "back_run", "liquidation",
    "jit_liquidity", "amounts"]
  categoryRecord (kind : OpportunityKind) (toml : Toml) :
    document.given? tableNames kind.tableName = some toml →
      toml.IsRecord ["gas_limit", "model", "confidence_known", "confidence_unknown", "min_profit",
        "fallback_amount", "note"]
  category (kind : OpportunityKind) : CategoryParams.Typed (categoryGiven? document kind)
  amountsRecord (toml : Toml) :
    document.given? tableNames "amounts" = some toml → toml.IsOpenRecord
  amounts : AmountHeuristics.Typed (amountsGiven? document)

theorem wellFormed_categoryGiven? {document : Toml} (wellFormed : document.WellFormed)
    (kind : OpportunityKind) (name : String) (toml : Toml)
    (given : categoryGiven? document kind name = some toml) : toml.WellFormed := by
  obtain ⟨table, tableGiven, given⟩ := Option.bind_eq_some_iff.mp given
  exact (wellFormed.given? tableGiven).given? given

theorem wellFormed_amountsGiven? {document : Toml} (wellFormed : document.WellFormed)
    (name : String) (toml : Toml) (given : amountsGiven? document name = some toml) :
    toml.WellFormed := by
  obtain ⟨table, tableGiven, given⟩ := Option.bind_eq_some_iff.mp given
  exact (wellFormed.given? tableGiven).given? given

theorem LaidOver.unique {params other : Params} {document : Toml}
    (wellFormed : document.WellFormed) (laid : params.LaidOver document)
    (also : other.LaidOver document) : params = other := by
  have category := funext fun kind => (laid.category kind).unique
    (wellFormed_categoryGiven? wellFormed kind) (also.category kind)
  have amounts := laid.amounts.unique (wellFormed_amountsGiven? wellFormed) also.amounts
  cases params
  cases other
  rw [mk.injEq]
  exact ⟨category, amounts⟩

/-- A document that is read is well-typed, and the parameters are the document over the defaults. -/
theorem laidOver_of_ofToml? {document : Toml} {params : Params} (wellFormed : document.WellFormed)
    (read : ofToml? document = some params) : WellTyped document ∧ params.LaidOver document := by
  obtain ⟨field, record, read⟩ := Option.bind_eq_some_iff.mp read
  obtain ⟨tables, rfl⟩ := Toml.record?_eq_some_iff.mp record
  obtain ⟨category, categories, read⟩ := Option.bind_eq_some_iff.mp read
  obtain ⟨amounts, amountsRead, read⟩ := Option.bind_eq_some_iff.mp read
  cases read
  have categories (kind : OpportunityKind) :
      ∃ overlay, Toml.field? (document.given? tableNames kind.tableName) CategoryOverlay.ofToml? =
        some overlay ∧ (overlay.getD .empty).applyTo (.defaults kind) = category kind := by
    obtain ⟨overlay, read, applied⟩ :=
      Option.bind_eq_some_iff.mp (OpportunityKind.gather_eq_some_iff.mp categories kind)
    exact ⟨overlay, read, Option.some.inj applied⟩
  have each (kind : OpportunityKind) :
      (∀ toml, document.given? tableNames kind.tableName = some toml →
        toml.IsRecord CategoryOverlay.fieldNames) ∧
      (category kind).LaidOver (.defaults kind) (categoryGiven? document kind) := by
    obtain ⟨overlay, read, applied⟩ := categories kind
    rw [← applied]
    exact CategoryOverlay.laidOver_of_field? (fun _ given => wellFormed.given? given) read _
  have amountsLaid :=
    AmountHeuristics.laidOver_of_field? (fun _ given => wellFormed.given? given) amountsRead
  exact ⟨⟨tables, fun kind => (each kind).1, fun kind => (each kind).2.typed, amountsLaid.1,
    amountsLaid.2.typed⟩, ⟨fun kind => (each kind).2, amountsLaid.2⟩⟩

theorem exists_ofToml? {document : Toml} (wellFormed : document.WellFormed)
    (wellTyped : WellTyped document) : ∃ params, ofToml? document = some params := by
  have record := Toml.record?_eq_some_iff.mpr ⟨wellTyped.tables, rfl⟩
  choose overlay overlayRead using fun kind =>
    CategoryOverlay.exists_field? (fun _ given => wellFormed.given? given)
      (wellTyped.categoryRecord kind) (wellTyped.category kind)
  obtain ⟨amounts, amountsRead⟩ :=
    AmountHeuristics.exists_field? (fun _ given => wellFormed.given? given)
      wellTyped.amountsRecord wellTyped.amounts
  have categories : OpportunityKind.gather (fun kind => do
      let overlay ← Toml.field? (document.given? tableNames kind.tableName) CategoryOverlay.ofToml?
      return (overlay.getD .empty).applyTo (.defaults kind)) =
        some fun kind => ((overlay kind).getD .empty).applyTo (.defaults kind) := by
    rw [OpportunityKind.gather_eq_some_iff]
    intro kind
    rw [overlayRead kind]
    rfl
  refine ⟨⟨fun kind => ((overlay kind).getD .empty).applyTo (.defaults kind),
    amounts.getD .defaults⟩, ?_⟩
  refine Option.bind_eq_some_iff.mpr ⟨_, record, ?_⟩
  refine Option.bind_eq_some_iff.mpr ⟨_, categories, ?_⟩
  exact Option.bind_eq_some_iff.mpr ⟨_, amountsRead, rfl⟩

/-- A document is read as parameters when it is well-typed, and the parameters are then the ones
that the document gives over the defaults. -/
theorem ofToml?_eq_some_iff {document : Toml} {params : Params}
    (wellFormed : document.WellFormed) :
    ofToml? document = some params ↔ WellTyped document ∧ params.LaidOver document := by
  refine ⟨laidOver_of_ofToml? wellFormed, ?_⟩
  rintro ⟨wellTyped, laid⟩
  obtain ⟨other, read⟩ := exists_ofToml? wellFormed wellTyped
  rw [read, (laidOver_of_ofToml? wellFormed read).2.unique wellFormed laid]

/-- The parameters of a text, or the reason why it has none. -/
theorem ofText?_eq_of_laidOver {text : String} {document : Toml} {params : Params}
    (denoted : Toml.ofText? text = some document) (wellTyped : WellTyped document)
    (laid : params.LaidOver document) : ofText? text = params.validate.map fun _ => params := by
  have read := (ofToml?_eq_some_iff (Toml.wellFormed_of_ofText? denoted)).mpr ⟨wellTyped, laid⟩
  rw [ofText?, denoted, Option.bind_some, read]
  dsimp only
  cases params.validate <;> rfl

theorem ofText?_of_not_wellTyped {text : String}
    (illTyped : ∀ document, Toml.ofText? text = some document → ¬ WellTyped document) :
    ofText? text = .error .malformed := by
  have unread : (Toml.ofText? text).bind ofToml? = none := by
    rw [Option.bind_eq_none_iff]
    intro document denoted
    rw [Option.eq_none_iff_forall_ne_some]
    intro params read
    exact illTyped document denoted
      (laidOver_of_ofToml? (Toml.wellFormed_of_ofText? denoted) read).1
  rw [ofText?, unread]

theorem exists_laidOver {text : String} {document : Toml}
    (denoted : Toml.ofText? text = some document) (wellTyped : WellTyped document) :
    ∃ params : Params, params.LaidOver document := by
  have wellFormed := Toml.wellFormed_of_ofText? denoted
  obtain ⟨params, read⟩ := exists_ofToml? wellFormed wellTyped
  exact ⟨params, (laidOver_of_ofToml? wellFormed read).2⟩

theorem laidOver_of_ofText? {text : String} {params : Params} (accepted : ofText? text = .ok params) :
    ∃ document, Toml.ofText? text = some document ∧ WellTyped document ∧
      params.LaidOver document := by
  have overlaid := ((ofText?_eq_ok_iff text params).mp accepted).1
  obtain ⟨document, denoted, read⟩ := Option.bind_eq_some_iff.mp overlaid
  exact ⟨document, denoted, laidOver_of_ofToml? (Toml.wellFormed_of_ofText? denoted) read⟩

/-- The parameters of a text are its document laid over the defaults, if the document is well-typed
and the validation passes them, which it does if they are valid. What the text has about one
category or about the amounts decides these alone. The order of the tables decides nothing, nor,
where no key of an assignment has a point and no header adds to an array, that of headers for tables
in a table and of the lines behind them. -/
theorem overlays_document (text : String) :
    (∀ params, ofText? text = .ok params →
      params.validate = .ok () ∧
      ∃ document, Toml.ofText? text = some document ∧ WellTyped document ∧
        params.LaidOver document) ∧
    (∀ fault, ofText? text = .error fault →
      (fault = .malformed ∧ ∀ document, Toml.ofText? text = some document → ¬ WellTyped document) ∨
      ∃ document, ∃ params : Params, Toml.ofText? text = some document ∧ WellTyped document ∧
        params.LaidOver document ∧ params.validate = .error fault) ∧
    (∀ document, Toml.ofText? text = some document → WellTyped document →
      ∃ params : Params, params.LaidOver document ∧
        (∀ other : Params, other.LaidOver document → other = params) ∧
        (params.validate = .ok () ↔ params.Valid) ∧
        (params.Valid → ofText? text = .ok params)) ∧
    ∀ other layout otherLayout, Toml.Layout.ofText? text = some layout →
      Toml.Layout.ofText? other = some otherLayout →
      ((∀ name, layout.about name = otherLayout.about name) → ofText? text = ofText? other) ∧
      (layout.IsPlain → otherLayout.IsPlain → layout.lines.Perm otherLayout.lines →
        ofText? text = ofText? other) ∧
      ∀ params otherParams, ofText? text = .ok params → ofText? other = .ok otherParams →
        (∀ kind, layout.about kind.tableName = otherLayout.about kind.tableName →
          params.category kind = otherParams.category kind) ∧
        (layout.about "amounts" = otherLayout.about "amounts" →
          params.amounts = otherParams.amounts) := by
  refine ⟨?_, ?_, ?_, ?_⟩
  · intro params accepted
    exact ⟨((ofText?_eq_ok_iff text params).mp accepted).2, laidOver_of_ofText? accepted⟩
  · intro fault refused
    by_cases readable : ∃ document, Toml.ofText? text = some document ∧ WellTyped document
    · obtain ⟨document, denoted, wellTyped⟩ := readable
      obtain ⟨params, laid⟩ := exists_laidOver denoted wellTyped
      rw [ofText?_eq_of_laidOver denoted wellTyped laid] at refused
      refine Or.inr ⟨document, params, denoted, wellTyped, laid, ?_⟩
      cases checked : params.validate with
      | error found =>
        rw [checked] at refused
        cases refused
        rfl
      | ok =>
        rw [checked] at refused
        contradiction
    · have illTyped : ∀ document, Toml.ofText? text = some document → ¬ WellTyped document :=
        fun document denoted wellTyped => readable ⟨document, denoted, wellTyped⟩
      rw [ofText?_of_not_wellTyped illTyped] at refused
      cases refused
      exact Or.inl ⟨rfl, illTyped⟩
  · intro document denoted wellTyped
    obtain ⟨params, laid⟩ := exists_laidOver denoted wellTyped
    have wellFormed := Toml.wellFormed_of_ofText? denoted
    have rules := params.validate_eq_ok_iff_valid
    refine ⟨params, laid, fun other also => also.unique wellFormed laid, rules, ?_⟩
    intro valid
    rw [ofText?_eq_of_laidOver denoted wellTyped laid, rules.mpr valid]
    rfl
  · intro other layout otherLayout laidOut otherLaidOut
    have answer (same : layout.root? = otherLayout.root?) : ofText? text = ofText? other := by
      rw [ofText?, ofText?, Toml.Layout.ofText?_eq, Toml.Layout.ofText?_eq, laidOut, otherLaidOut,
        Option.bind_some, Option.bind_some, same]
    refine ⟨?_, ?_, ?_⟩
    · intro same
      exact answer (Toml.Layout.root?_eq same)
    · intro plain otherPlain perm
      exact answer (Toml.Layout.root?_eq_of_perm plain otherPlain perm)
    · intro params otherParams accepted otherAccepted
      obtain ⟨document, denoted, _, laid⟩ := laidOver_of_ofText? accepted
      obtain ⟨otherDocument, otherDenoted, _, otherLaid⟩ := laidOver_of_ofText? otherAccepted
      have wellFormed := Toml.wellFormed_of_ofText? otherDenoted
      have given {name : String} (same : layout.about name = otherLayout.about name) :
          document.given? tableNames name = otherDocument.given? tableNames name :=
        Toml.given?_eq_of_about laidOut otherLaidOut same denoted otherDenoted tableNames
      refine ⟨?_, ?_⟩
      · intro kind same
        have category := laid.category kind
        unfold categoryGiven? at category
        rw [given same] at category
        exact category.unique (wellFormed_categoryGiven? wellFormed kind)
          (otherLaid.category kind)
      · intro same
        have amounts := laid.amounts
        unfold amountsGiven? at amounts
        rw [given same] at amounts
        exact amounts.unique (wellFormed_amountsGiven? wellFormed) otherLaid.amounts

/-- A table in front of the one that it stands in. -/
def subtableFirst : String :=
  "[sandwich.model]\nmodel = \"front_run\"\nprofit_rate = 1\n" ++
    "[sandwich]\ngas_limit = 7\nconfidence_known = 1\nnote = \"caro\"\n" ++
    "[arbitrage]\nnote = \"\"\n"

/-- The same tables in another order. -/
def subtableLast : String :=
  "[sandwich]\ngas_limit = 7\nconfidence_known = 1\nnote = \"caro\"\n" ++
    "[sandwich.model]\nmodel = \"front_run\"\nprofit_rate = 1\n" ++
    "[arbitrage]\nnote = \"\"\n"

def subtableDocument : Toml :=
  .table [("arbitrage", .table [("note", .string "")]),
    ("sandwich", .table [("confidence_known", .integer 1), ("gas_limit", .integer 7),
      ("model", .table [("model", .string "front_run"), ("profit_rate", .integer 1)]),
      ("note", .string "caro")])]

def subtableBlock : Toml.Block :=
  ⟨⟨["sandwich"], "model"⟩, false,
    [(⟨[], "model"⟩, .string "front_run"), (⟨[], "profit_rate"⟩, .integer 1)]⟩

def tableBlock : Toml.Block :=
  ⟨⟨[], "sandwich"⟩, false, [(⟨[], "gas_limit"⟩, .integer 7),
    (⟨[], "confidence_known"⟩, .integer 1), (⟨[], "note"⟩, .string "caro")]⟩

def emptyNoteBlock : Toml.Block :=
  ⟨⟨[], "arbitrage"⟩, false, [(⟨[], "note"⟩, .string "")]⟩

theorem overlays_subtableDocument : ∃ params, ofText? subtableFirst = .ok params ∧
    ofText? subtableLast = .ok params ∧
    params.category .sandwich = { CategoryParams.defaults .sandwich with
      gasLimit := 7, model := .frontRun 1, confidenceKnown := 1, note := some "caro" } ∧
    params.category .arbitrage = { CategoryParams.defaults .arbitrage with note := none } ∧
    params.category .backRun = .defaults .backRun ∧ params.amounts = .defaults := by
  obtain ⟨_, _, answers, order⟩ := overlays_document subtableFirst
  have first : Toml.Layout.ofText? subtableFirst =
      some ⟨[], [subtableBlock, tableBlock, emptyNoteBlock]⟩ := by decide +kernel
  have last : Toml.Layout.ofText? subtableLast =
      some ⟨[], [tableBlock, subtableBlock, emptyNoteBlock]⟩ := by decide +kernel
  have denoted : Toml.ofText? subtableFirst = some subtableDocument := by
    rw [Toml.Layout.ofText?_eq, first]
    decide +kernel
  obtain ⟨params, read, valid, fields⟩ : ∃ params : Params,
      ofToml? subtableDocument = some params ∧ params.validate = .ok () ∧
      params.category .sandwich = { CategoryParams.defaults .sandwich with
        gasLimit := 7, model := .frontRun 1, confidenceKnown := 1, note := some "caro" } ∧
      params.category .arbitrage = { CategoryParams.defaults .arbitrage with note := none } ∧
      params.category .backRun = .defaults .backRun ∧ params.amounts = .defaults :=
    ⟨_, rfl, rfl, rfl, rfl, rfl, rfl⟩
  obtain ⟨wellTyped, laid⟩ := laidOver_of_ofToml? (Toml.wellFormed_of_ofText? denoted) read
  obtain ⟨_, _, unique, rules, answer⟩ := answers subtableDocument denoted wellTyped
  rw [← unique params laid] at rules answer
  have accepted : ofText? subtableFirst = .ok params := answer (rules.mp valid)
  have subtablePlain : subtableBlock.IsPlain := ⟨rfl, by simp [subtableBlock]⟩
  have tablePlain : tableBlock.IsPlain := ⟨rfl, by simp [tableBlock]⟩
  have emptyNotePlain : emptyNoteBlock.IsPlain := ⟨rfl, by simp [emptyNoteBlock]⟩
  have same : ofText? subtableFirst = ofText? subtableLast := by
    refine (order subtableLast _ _ first last).2.1 ⟨by simp, ?_⟩ ⟨by simp, ?_⟩ ?_
    · simpa using ⟨subtablePlain, tablePlain, emptyNotePlain⟩
    · simpa using ⟨tablePlain, subtablePlain, emptyNotePlain⟩
    · exact (List.Perm.swap tableBlock subtableBlock [emptyNoteBlock]).flatMap_right
        Toml.Block.lines
  exact ⟨params, accepted, same ▸ accepted, fields⟩

end Params

end MempoolWatch

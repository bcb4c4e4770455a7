import MempoolWatch.Proofs.Estimate
import MempoolWatch.Proofs.Params.Acceptance
import MempoolWatch.Proofs.Toml.Equality

/-! The plausible range of accepted parameters. The validation refuses a range whose upper end is
at most its lower end, which NaN satisfies on neither side, so that a range with such an end is
accepted. It contains no amount, and a transaction without a value is then always estimated at the
minimum of the category. -/
namespace MempoolWatch

namespace AmountHeuristics

variable {amounts : AmountHeuristics}

/-- The lower end of the plausible range is less than the upper one. -/
def Ordered (amounts : AmountHeuristics) : Prop :=
  amounts.minPlausibleTokens < amounts.maxPlausibleTokens

/-- An end of the plausible range is no number. -/
def HasNaN (amounts : AmountHeuristics) : Prop :=
  amounts.minPlausibleTokens.isNaN = true ∨ amounts.maxPlausibleTokens.isNaN = true

theorem not_hasNaN_iff : ¬ amounts.HasNaN ↔
    amounts.minPlausibleTokens.isNaN = false ∧ amounts.maxPlausibleTokens.isNaN = false := by
  rw [HasNaN, not_or, Bool.not_eq_true, Bool.not_eq_true]

theorem ordered_or_hasNaN_iff : amounts.Ordered ∨ amounts.HasNaN ↔
    ¬ amounts.maxPlausibleTokens ≤ amounts.minPlausibleTokens := by
  constructor
  · rintro (ordered | unmeasured) atMost
    · exact (lt_iff_not_le.mp ordered).2.2 atMost
    · have measured := not_isNaN_of_le atMost
      exact not_hasNaN_iff.mpr measured.symm unmeasured
  · intro unequal
    by_cases unmeasured : amounts.HasNaN
    · exact Or.inr unmeasured
    · obtain ⟨lower, upper⟩ := not_hasNaN_iff.mp unmeasured
      exact Or.inl (lt_iff_not_le.mpr ⟨lower, upper, unequal⟩)

theorem Ordered.not_hasNaN (ordered : amounts.Ordered) : ¬ amounts.HasNaN :=
  not_hasNaN_iff.mpr (not_isNaN_of_lt ordered)

/-- No amount lies between two ends of which one is no number. -/
theorem HasNaN.outside (unmeasured : amounts.HasNaN) (tokens : Float) :
    ¬ (amounts.minPlausibleTokens < tokens ∧ tokens < amounts.maxPlausibleTokens) := by
  rintro ⟨above, below⟩
  exact not_hasNaN_iff.mpr ⟨(not_isNaN_of_lt above).1, (not_isNaN_of_lt below).2⟩ unmeasured

theorem validate_eq_ok_iff : amounts.validate = .ok () ↔ amounts.Ordered ∨ amounts.HasNaN := by
  rw [validate_eq_ok_iff_not_le, ordered_or_hasNaN_iff]

end AmountHeuristics

namespace Params

variable {params : Params} {text : String}

theorem validate_of_atMost (valid : ∀ kind, (params.category kind).Valid)
    (atMost : params.amounts.maxPlausibleTokens ≤ params.amounts.minPlausibleTokens) :
    params.validate = .error .plausibleRangeEmpty := by
  have categories : (OpportunityKind.all.forM fun kind => (params.category kind).validate kind) =
      .ok () :=
    (forM_eq_ok_iff _ _).mpr fun kind _ =>
      (CategoryParams.validate_eq_ok_iff kind _).mpr (valid kind)
  rw [validate, categories]
  show params.amounts.validate = _
  rw [AmountHeuristics.validate_eq, if_pos atMost]

theorem amountSource_of_hasNaN (unmeasured : params.amounts.HasNaN) (kind : OpportunityKind)
    (classified : ClassifiedTx) (gasPrice : Word) :
    (params.estimate kind classified gasPrice).amountSource ≠ .calldata := by
  intro source
  have origin := amountFrom_estimate params kind classified gasPrice
  obtain ⟨_, tokens, _, inside⟩ := origin.calldata_iff.mp source
  exact unmeasured.outside tokens inside

/-- A document that is read and has valid categories is accepted exactly when the ends of its
plausible range are ordered or one of them is NaN, and otherwise it is refused for its range. So the
range of accepted parameters is ordered exactly when neither end is NaN. If one is, no amount is
plausible, and no estimate takes its amount from calldata. -/
theorem accepted_range_ordered_unless_nan (text : String) :
    (∀ params, ofText? text = .ok params ↔
      (Toml.ofText? text).bind ofToml? = some params ∧ (∀ kind, (params.category kind).Valid) ∧
        (params.amounts.Ordered ∨ params.amounts.HasNaN)) ∧
    (∀ params, (Toml.ofText? text).bind ofToml? = some params →
      (∀ kind, (params.category kind).Valid) → ¬ (params.amounts.Ordered ∨ params.amounts.HasNaN) →
      ofText? text = .error .plausibleRangeEmpty) ∧
    ∀ params, ofText? text = .ok params →
      (params.amounts.Ordered ↔ ¬ params.amounts.HasNaN) ∧
      (params.amounts.HasNaN → (∀ tokens, params.amounts.isPlausible tokens = false) ∧
        ∀ kind classified gasPrice,
          (params.estimate kind classified gasPrice).amountSource ≠ .calldata) := by
  have accepted (params : Params) : ofText? text = .ok params ↔
      (Toml.ofText? text).bind ofToml? = some params ∧ (∀ kind, (params.category kind).Valid) ∧
        (params.amounts.Ordered ∨ params.amounts.HasNaN) := by
    rw [ofText?_eq_ok_iff, validate_eq_ok_iff, AmountHeuristics.validate_eq_ok_iff]
  refine ⟨accepted, ?_, ?_⟩
  · intro params read valid disordered
    rw [AmountHeuristics.ordered_or_hasNaN_iff, not_not] at disordered
    rw [ofText?, read]
    show (params.validate >>= fun _ => pure params) = _
    rw [validate_of_atMost valid disordered]
    rfl
  · intro params read
    obtain ⟨_, _, range⟩ := (accepted params).mp read
    refine ⟨⟨fun ordered => ordered.not_hasNaN, range.resolve_right⟩, ?_⟩
    intro unmeasured
    refine ⟨?_, amountSource_of_hasNaN unmeasured⟩
    intro tokens
    exact decide_eq_false (unmeasured.outside tokens)

/-! ## A range without order -/

/-- A line that gives the lower end as NaN. -/
def unmeasuredLine : String :=
  "min_plausible_tokens = nan\n"

def unmeasuredText : String :=
  "[amounts]\n" ++ unmeasuredLine

def unmeasuredDocument : Toml :=
  .table [("amounts", .table [("min_plausible_tokens", .float (0.0 / 0.0))])]

theorem exists_unmeasured :
    ∃ params, ofText? unmeasuredText = .ok params ∧ params.amounts.HasNaN := by
  have denoted : Toml.ofText? unmeasuredText = some unmeasuredDocument := by decide +kernel
  obtain ⟨params, laid, category, unmeasured⟩ : ∃ params : Params,
      ofToml? unmeasuredDocument = some params ∧
        (∀ kind, params.category kind = .defaults kind) ∧ params.amounts.HasNaN :=
    ⟨_, rfl, fun kind => by cases kind <;> rfl, Or.inl rfl⟩
  refine ⟨params, ?_, unmeasured⟩
  rw [ofText?_eq_ok_iff, denoted, validate_eq_ok_iff, AmountHeuristics.validate_eq_ok_iff]
  refine ⟨laid, ?_, Or.inr unmeasured⟩
  intro kind
  rw [category]
  exact ((validate_eq_ok_iff defaults).mp validate_defaults).1 kind

/-- A range that is not ordered is accepted. -/
theorem unordered_range_accepted :
    ∃ params, ofText? unmeasuredText = .ok params ∧ ¬ params.amounts.Ordered := by
  obtain ⟨params, accepted, unmeasured⟩ := exists_unmeasured
  exact ⟨params, accepted, fun ordered => ordered.not_hasNaN unmeasured⟩

/-- The accepted range leaves out even a single token, and no estimate is from calldata. -/
theorem unmeasured_range_leaves_out_tokens : ∃ params, ofText? unmeasuredText = .ok params ∧
    params.amounts.HasNaN ∧ params.amounts.isPlausible 1 = false ∧
    ∀ kind classified gasPrice,
      (params.estimate kind classified gasPrice).amountSource ≠ .calldata := by
  obtain ⟨params, accepted, unmeasured⟩ := exists_unmeasured
  obtain ⟨_, _, ranges⟩ := accepted_range_ordered_unless_nan unmeasuredText
  obtain ⟨outside, sources⟩ := (ranges params accepted).2 unmeasured
  exact ⟨params, accepted, unmeasured, outside 1, sources⟩

end Params

end MempoolWatch

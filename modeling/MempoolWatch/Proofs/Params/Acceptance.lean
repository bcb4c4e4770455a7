import MempoolWatch.Params.Overlay
import MempoolWatch.Proofs.Comparison

/-! What accepted parameters have in common. The validation refuses a category whose
confidences leave the range from zero to one, that needs no gas or whose fallback amount
is no amount. The defaults pass it, and a document is not read without it. -/
namespace MempoolWatch

/-- What the validation asks of a category. -/
structure CategoryParams.Valid (params : CategoryParams) : Prop where
  confidenceKnown : isConfidence params.confidenceKnown = true
  confidenceUnknown : isConfidence params.confidenceUnknown = true
  gasLimit : params.gasLimit ≠ 0
  fallbackFinite : params.fallbackAmount.isFinite = true
  fallbackNotNegative : ¬ params.fallbackAmount < 0.0

theorem CategoryParams.validate_eq_ok_iff (kind : OpportunityKind) (params : CategoryParams) :
    params.validate kind = .ok () ↔ params.Valid := by
  rw [validate]
  constructor
  · intro accepted
    split at accepted
    · cases accepted
    rename_i known
    split at accepted
    · cases accepted
    rename_i unknown
    split at accepted
    · cases accepted
    rename_i gasLimit
    split at accepted
    · cases accepted
    rename_i fallback
    simp only [Bool.not_eq_true', Bool.not_eq_false, not_or] at known unknown fallback
    exact ⟨known, unknown, gasLimit, fallback.1, fallback.2⟩
  · intro valid
    simp [valid.confidenceKnown, valid.confidenceUnknown, valid.gasLimit, valid.fallbackFinite,
      valid.fallbackNotNegative]

theorem isConfidence_iff (value : Float) :
    isConfidence value = true ↔ 0.0 ≤ value ∧ value ≤ 1.0 := by
  rw [isConfidence, decide_eq_true_iff]

/-- Whichever of the two confidences is used, it lies in the range. -/
theorem CategoryParams.Valid.confidence {params : CategoryParams} (valid : params.Valid)
    (amountKnown : Bool) :
    0.0 ≤ params.confidence amountKnown ∧ params.confidence amountKnown ≤ 1.0 := by
  rw [← isConfidence_iff]
  cases amountKnown with
  | false => exact valid.confidenceUnknown
  | true => exact valid.confidenceKnown

namespace AmountHeuristics

theorem validate_eq (amounts : AmountHeuristics) : amounts.validate =
    if amounts.maxPlausibleTokens ≤ amounts.minPlausibleTokens then .error .plausibleRangeEmpty
    else .ok () := rfl

theorem validate_eq_ok_iff_not_le (amounts : AmountHeuristics) : amounts.validate = .ok () ↔
    ¬ amounts.maxPlausibleTokens ≤ amounts.minPlausibleTokens := by
  rw [validate_eq]
  split
  · next atMost => exact iff_of_false nofun fun unequal => unequal atMost
  · next unequal => exact iff_of_true rfl unequal

end AmountHeuristics

namespace Params

/-- What the validation asks of parameters. -/
structure Valid (params : Params) : Prop where
  category (kind : OpportunityKind) : (params.category kind).Valid
  /-- Passed also by an end that is NaN. -/
  range : ¬ params.amounts.maxPlausibleTokens ≤ params.amounts.minPlausibleTokens

/-- Two checks in a row pass when both pass. -/
theorem bind_eq_ok_iff {ε : Type} (first second : Except ε Unit) :
    (first >>= fun _ => second) = .ok () ↔ first = .ok () ∧ second = .ok () := by
  cases first with
  | error fault => exact iff_of_false (fun passed => nomatch passed) fun passed => nomatch passed.1
  | ok => exact (and_iff_right rfl).symm

/-- A check of a list passes when it passes for each of its elements. -/
theorem forM_eq_ok_iff {α ε : Type} (check : α → Except ε Unit) (list : List α) :
    list.forM check = .ok () ↔ ∀ element ∈ list, check element = .ok () := by
  induction list with
  | nil => exact iff_of_true rfl fun _ member => nomatch member
  | cons element rest ih =>
    rw [List.forall_mem_cons, ← ih, show (element :: rest).forM check =
      (check element >>= fun _ => rest.forM check) from rfl]
    exact bind_eq_ok_iff (check element) (rest.forM check)

theorem validate_eq_ok_iff (params : Params) :
    params.validate = .ok () ↔
      (∀ kind, (params.category kind).Valid) ∧ params.amounts.validate = .ok () := by
  have categories : (OpportunityKind.all.forM fun kind => (params.category kind).validate kind) =
      .ok () ↔ ∀ kind, (params.category kind).Valid := by
    rw [forM_eq_ok_iff]
    simp only [OpportunityKind.mem_all, true_implies, CategoryParams.validate_eq_ok_iff]
  rw [← categories]
  exact bind_eq_ok_iff _ params.amounts.validate

theorem validate_eq_ok_iff_valid (params : Params) : params.validate = .ok () ↔ params.Valid := by
  rw [validate_eq_ok_iff, AmountHeuristics.validate_eq_ok_iff_not_le]
  exact ⟨fun ⟨category, range⟩ => ⟨category, range⟩, fun valid => ⟨valid.category, valid.range⟩⟩

theorem ofText?_eq_ok_iff (text : String) (params : Params) :
    ofText? text = .ok params ↔
      (Toml.ofText? text).bind ofToml? = some params ∧ params.validate = .ok () := by
  rw [ofText?]
  cases (Toml.ofText? text).bind ofToml? with
  | none => exact iff_of_false (fun read => nomatch read) fun read => nomatch read.1
  | some overlaid =>
    simp only [Option.some.injEq]
    constructor
    · intro read
      cases checked : overlaid.validate with
      | error fault => rw [checked] at read; cases read
      | ok => rw [checked] at read; cases read; exact ⟨rfl, checked⟩
    · rintro ⟨rfl, checked⟩
      rw [checked]
      rfl

theorem validate_defaults : defaults.validate = .ok () := rfl

/-- The parameters that a run can have: the defaults, or those of a document. -/
def Accepted (params : Params) : Prop :=
  params = defaults ∨ ∃ text, ofText? text = .ok params

theorem Accepted.validate {params : Params} (accepted : params.Accepted) :
    params.validate = .ok () := by
  obtain rfl | ⟨text, read⟩ := accepted
  · exact validate_defaults
  · exact ((ofText?_eq_ok_iff text params).mp read).2

theorem Accepted.category {params : Params} (accepted : params.Accepted) (kind : OpportunityKind) :
    (params.category kind).Valid :=
  ((validate_eq_ok_iff params).mp accepted.validate).1 kind

end Params

end MempoolWatch

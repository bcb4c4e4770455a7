import MempoolWatch.Proofs.Params.Overlay

/-! The keys of a document and what becomes of them. Every table of a document has a known name, and
every key of the table of a category is a field, whose value the parameters have. The amounts and the
models are less strict: keys that they do not know are passed over, and nothing tells. -/
namespace MempoolWatch

namespace Toml

variable {names : List String} {takes : String → Toml → Prop} {toml : Toml}

/-- No key but the known ones, and no item in a list behind the last of them. -/
def Within (names : List String) : Toml → Prop
  | table members => ∀ member ∈ members, member.1 ∈ names
  | array items => items.length ≤ names.length
  | _ => False

/-- Every key is taken up with its value. The items of a list have the names as their keys. -/
def TakenUp (names : List String) (takes : String → Toml → Prop) : Toml → Prop
  | table members => ∀ member ∈ members, takes member.1 member.2
  | array items =>
    items.length ≤ names.length ∧ ∀ member ∈ names.zip items, takes member.1 member.2
  | _ => False

theorem nodup_names_zip (distinct : names.Nodup) (items : List Toml) :
    (Named.names (names.zip items)).Nodup := by
  induction names generalizing items with
  | nil => exact .nil
  | cons name rest ih =>
    cases items with
    | nil => exact .nil
    | cons item items =>
      obtain ⟨fresh, distinct⟩ := List.nodup_cons.mp distinct
      refine List.nodup_cons.mpr ⟨?_, ih distinct items⟩
      intro again
      obtain ⟨member, listed, same⟩ := List.mem_map.mp again
      have same : member.1 = name := same
      exact fresh (same ▸ (List.of_mem_zip listed).1)

/-- All keys are taken up when all of them are known and every known one is taken up. -/
theorem takenUp_iff (wellFormed : toml.WellFormed) (distinct : names.Nodup)
    (known : ∀ name value, takes name value → name ∈ names) :
    toml.TakenUp names takes ↔ toml.Within names ∧
      ∀ name ∈ names, ∀ value, toml.given? names name = some value → takes name value := by
  cases wellFormed with
  | @table members ordered each =>
    constructor
    · intro taken
      refine ⟨fun member listed => known _ _ (taken member listed), ?_⟩
      intro name _ value given
      exact taken _ (Named.mem_of_get? given)
    · rintro ⟨within, reads⟩ member listed
      exact reads _ (within member listed) _
        ((Named.get?_eq_some_iff (Named.Ordered.nodup ordered)).mpr listed)
  | @array items each =>
    constructor
    · rintro ⟨fits, taken⟩
      refine ⟨fits, ?_⟩
      intro name _ value given
      exact taken _ (Named.mem_of_get? given)
    · rintro ⟨fits, reads⟩
      refine ⟨fits, ?_⟩
      intro member listed
      exact reads _ (List.of_mem_zip listed).1 _
        ((Named.get?_eq_some_iff (nodup_names_zip distinct items)).mpr listed)
  | _ => exact iff_of_false id fun within => within.1

end Toml

namespace MarketModel

variable {model : MarketModel}

/-- The keys of a model in a document. -/
def keys (model : MarketModel) : List String :=
  "model" :: model.fields.map Prod.fst

/-- The key is one of the model, and has the value that the document gives it. -/
def Takes (model : MarketModel) (name : String) (toml : Toml) : Prop :=
  name = "model" ∧ toml.IsText model.name ∨
    ∃ value, (name, value) ∈ model.fields ∧ toml.IsNumber value

theorem nodup_keys (model : MarketModel) : model.keys.Nodup := by
  cases model <;> simp [keys, fields]

theorem mem_keys_of_takes {name : String} {toml : Toml} (taken : model.Takes name toml) :
    name ∈ model.keys := by
  rcases taken with ⟨rfl, _⟩ | ⟨value, declared, _⟩
  · exact List.mem_cons_self
  · exact List.mem_cons_of_mem _ (List.mem_map_of_mem declared)

/-- The items of a list are the values of the fields in their order. -/
theorem exists_field_of_mem_zip {fields : List (String × Float)} {items : List Toml}
    (numbers : List.Forall₂ Toml.IsNumber items (fields.map Prod.snd)) :
    ∀ member ∈ (fields.map Prod.fst).zip items,
      ∃ value, (member.1, value) ∈ fields ∧ member.2.IsNumber value := by
  induction fields generalizing items with
  | nil => exact List.forall_mem_nil _
  | cons field rest ih =>
    obtain ⟨item, others, first, behind, rfl⟩ := List.forall₂_cons_right_iff.mp numbers
    refine List.forall_mem_cons.mpr ⟨⟨field.2, List.mem_cons_self, first⟩, ?_⟩
    intro member listed
    obtain ⟨value, declared, number⟩ := ih behind member listed
    exact ⟨value, List.mem_cons_of_mem _ declared, number⟩

variable {toml : Toml}

theorem takenUp_iff (wellFormed : toml.WellFormed) (meant : toml.IsModel model) :
    toml.TakenUp model.keys model.Takes ↔ toml.Within model.keys := by
  rw [Toml.takenUp_iff wellFormed model.nodup_keys fun _ _ => mem_keys_of_takes]
  refine and_iff_left_of_imp fun _ => ?_
  cases meant with
  | table named fields =>
    intro name known value given
    rcases List.mem_cons.mp known with rfl | known
    · cases named.symm.trans given
      exact Or.inl ⟨rfl, rfl⟩
    · obtain ⟨field, declared, rfl⟩ := List.mem_map.mp known
      obtain ⟨number, found, isNumber⟩ := fields field declared
      cases found.symm.trans given
      exact Or.inr ⟨field.2, declared, isNumber⟩
  | list fields =>
    intro name _ value given
    rcases List.mem_cons.mp (Named.mem_of_get? given) with same | behind
    · cases same
      exact Or.inl ⟨rfl, rfl⟩
    · exact Or.inr (exists_field_of_mem_zip fields _ behind)

end MarketModel

namespace CategoryParams

/-- The key is a field of a category, and has the value that the document gives it. -/
def Takes (params : CategoryParams) (name : String) (toml : Toml) : Prop :=
  match name with
  | "gas_limit" => toml.IsUInt64 params.gasLimit
  | "model" => toml.TakenUp params.model.keys params.model.Takes
  | "confidence_known" => toml.IsNumber params.confidenceKnown
  | "confidence_unknown" => toml.IsNumber params.confidenceUnknown
  | "min_profit" => toml.IsNumber params.minProfit
  | "fallback_amount" => toml.IsNumber params.fallbackAmount
  | "note" => toml.IsNote params.note
  | _ => False

variable {params beneath : CategoryParams} {toml : Toml}

theorem mem_fieldNames_of_takes (name : String) (toml : Toml) (taken : params.Takes name toml) :
    name ∈ CategoryOverlay.fieldNames := by
  unfold Takes at taken
  split at taken
  all_goals first | contradiction | simp [CategoryOverlay.fieldNames]

theorem takenUp_iff (wellFormed : toml.WellFormed)
    (laid : params.LaidOver beneath (toml.given? CategoryOverlay.fieldNames)) :
    toml.TakenUp CategoryOverlay.fieldNames params.Takes ↔
      toml.Within CategoryOverlay.fieldNames ∧
      ∀ model, toml.given? CategoryOverlay.fieldNames "model" = some model →
        model.Within params.model.keys := by
  rw [Toml.takenUp_iff wellFormed (by decide) mem_fieldNames_of_takes]
  refine and_congr_right fun _ => ⟨?_, ?_⟩
  · intro taken model given
    have taken := taken "model" (by decide) model given
    exact (MarketModel.takenUp_iff (wellFormed.given? given) (laid.model.meant given)).mp taken
  · intro within name known value given
    simp only [CategoryOverlay.fieldNames, List.mem_cons, List.not_mem_nil, or_false] at known
    rcases known with rfl | rfl | rfl | rfl | rfl | rfl | rfl
    · exact laid.gasLimit.meant given
    · exact (MarketModel.takenUp_iff (wellFormed.given? given) (laid.model.meant given)).mpr
        (within value given)
    · exact laid.confidenceKnown.meant given
    · exact laid.confidenceUnknown.meant given
    · exact laid.minProfit.meant given
    · exact laid.fallbackAmount.meant given
    · exact laid.note.meant given

end CategoryParams

namespace AmountHeuristics

/-- The key is a field of the heuristics, and has the value that the document gives it. -/
def Takes (amounts : AmountHeuristics) (name : String) (toml : Toml) : Prop :=
  match name with
  | "token_decimals" => toml.IsUInt32 amounts.tokenDecimals
  | "min_plausible_tokens" => toml.IsNumber amounts.minPlausibleTokens
  | "max_plausible_tokens" => toml.IsNumber amounts.maxPlausibleTokens
  | "token_native_rate" => toml.IsNumber amounts.tokenNativeRate
  | _ => False

variable {amounts beneath : AmountHeuristics} {toml : Toml}

theorem mem_fieldNames_of_takes (name : String) (toml : Toml) (taken : amounts.Takes name toml) :
    name ∈ fieldNames := by
  unfold Takes at taken
  split at taken
  all_goals first | contradiction | simp [fieldNames]

theorem takenUp_iff (wellFormed : toml.WellFormed)
    (laid : amounts.LaidOver beneath (toml.given? fieldNames)) :
    toml.TakenUp fieldNames amounts.Takes ↔ toml.Within fieldNames := by
  rw [Toml.takenUp_iff wellFormed (by decide) mem_fieldNames_of_takes]
  refine and_iff_left_of_imp fun _ => ?_
  intro name known value given
  simp only [fieldNames, List.mem_cons, List.not_mem_nil, or_false] at known
  rcases known with rfl | rfl | rfl | rfl
  · exact laid.tokenDecimals.meant given
  · exact laid.minPlausibleTokens.meant given
  · exact laid.maxPlausibleTokens.meant given
  · exact laid.tokenNativeRate.meant given

end AmountHeuristics

namespace Params

/-- The key is that of a table, and every key of the table is taken up. -/
structure Takes (params : Params) (name : String) (toml : Toml) : Prop where
  known : name ∈ tableNames
  category (kind : OpportunityKind) (same : name = kind.tableName) :
    toml.TakenUp CategoryOverlay.fieldNames (params.category kind).Takes
  amounts (same : name = "amounts") : toml.TakenUp AmountHeuristics.fieldNames params.amounts.Takes

/-- Every key of the document, on every level, is a parameter that has the value given there. -/
def Reflects (params : Params) (document : Toml) : Prop :=
  document.TakenUp tableNames params.Takes

/-- There are no unknown keys among the amounts and in the models, and no items in a list behind the
last field. -/
structure Tidy (params : Params) (document : Toml) : Prop where
  category (kind : OpportunityKind) (toml : Toml) :
    document.given? tableNames kind.tableName = some toml → toml.Within CategoryOverlay.fieldNames
  model (kind : OpportunityKind) (toml : Toml) :
    categoryGiven? document kind "model" = some toml →
      toml.Within (params.category kind).model.keys
  amounts (toml : Toml) :
    document.given? tableNames "amounts" = some toml → toml.Within AmountHeuristics.fieldNames

theorem tableName_mem_tableNames (kind : OpportunityKind) : kind.tableName ∈ tableNames :=
  List.mem_append_left _ (List.mem_map_of_mem kind.mem_all)

theorem reflects_iff {document : Toml} {params : Params} (wellFormed : document.WellFormed)
    (within : document.Within tableNames) (laid : params.LaidOver document) :
    params.Reflects document ↔ params.Tidy document := by
  have category (kind : OpportunityKind) (toml : Toml)
      (given : document.given? tableNames kind.tableName = some toml) :
      toml.TakenUp CategoryOverlay.fieldNames (params.category kind).Takes ↔
        toml.Within CategoryOverlay.fieldNames ∧
        ∀ model, categoryGiven? document kind "model" = some model →
          model.Within (params.category kind).model.keys := by
    have laid := laid.category kind
    unfold categoryGiven? at laid ⊢
    rw [given] at laid ⊢
    exact CategoryParams.takenUp_iff (wellFormed.given? given) laid
  have amounts (toml : Toml) (given : document.given? tableNames "amounts" = some toml) :
      toml.TakenUp AmountHeuristics.fieldNames params.amounts.Takes ↔
        toml.Within AmountHeuristics.fieldNames := by
    have laid := laid.amounts
    unfold amountsGiven? at laid
    rw [given] at laid
    exact AmountHeuristics.takenUp_iff (wellFormed.given? given) laid
  rw [Reflects, Toml.takenUp_iff wellFormed (by decide) fun _ _ taken => taken.known]
  constructor
  · rintro ⟨_, taken⟩
    have categoryTaken (kind : OpportunityKind) (toml : Toml)
        (given : document.given? tableNames kind.tableName = some toml) :=
      (category kind toml given).mp
        ((taken _ (tableName_mem_tableNames kind) toml given).category kind rfl)
    refine ⟨fun kind toml given => (categoryTaken kind toml given).1, ?_, ?_⟩
    · intro kind model given
      obtain ⟨toml, tableGiven, _⟩ := Option.bind_eq_some_iff.mp given
      exact (categoryTaken kind toml tableGiven).2 model given
    · intro toml given
      exact (amounts toml given).mp ((taken _ (by decide) toml given).amounts rfl)
  · intro tidy
    refine ⟨within, ?_⟩
    intro name known toml given
    refine ⟨known, ?_, ?_⟩
    · rintro kind rfl
      exact (category kind toml given).mpr ⟨tidy.category kind toml given, tidy.model kind⟩
    · rintro rfl
      exact (amounts toml given).mpr (tidy.amounts toml given)

/-- A document is a table. -/
theorem exists_table_of_ofText? {text : String} {document : Toml}
    (denoted : Toml.ofText? text = some document) : ∃ members, document = .table members := by
  obtain ⟨statements, _, denoted⟩ := Option.bind_eq_some_iff.mp denoted
  obtain ⟨draft, _, denoted⟩ := Option.bind_eq_some_iff.mp denoted
  cases denoted
  exact ⟨_, by rw [Toml.Table.toml, Toml.Table.node, Toml.Node.toml]⟩

/-- A text with an unknown table, or with an unknown key in the table of a category, has no
parameters. If it has parameters, they reflect every key of its document exactly when the amounts and
the models have no unknown keys; those are passed over. -/
theorem reflects_unless_untidy {text : String} {document : Toml}
    (denoted : Toml.ofText? text = some document) :
    ∃ members, document = .table members ∧
      ((∃ member ∈ members, member.1 ∉ tableNames) → ofText? text = .error .malformed) ∧
      (∀ (kind : OpportunityKind) (fields : Named Toml),
        document.given? tableNames kind.tableName = some (.table fields) →
        (∃ field ∈ fields, field.1 ∉ CategoryOverlay.fieldNames) →
        ofText? text = .error .malformed) ∧
      ∀ params, ofText? text = .ok params → (params.Reflects document ↔ params.Tidy document) := by
  obtain ⟨members, rfl⟩ := exists_table_of_ofText? denoted
  refine ⟨members, rfl, ?_, ?_, ?_⟩
  · rintro ⟨member, listed, unknown⟩
    apply ofText?_of_not_wellTyped
    intro document also wellTyped
    cases denoted.symm.trans also
    exact unknown (wellTyped.tables member listed)
  · rintro kind fields given ⟨field, listed, unknown⟩
    apply ofText?_of_not_wellTyped
    intro document also wellTyped
    cases denoted.symm.trans also
    exact unknown (wellTyped.categoryRecord kind _ given field listed)
  · intro params accepted
    obtain ⟨document, also, wellTyped, laid⟩ := laidOver_of_ofText? accepted
    cases denoted.symm.trans also
    exact reflects_iff (Toml.wellFormed_of_ofText? denoted) wellTyped.tables laid

/-- A spelling of a key that is known, and one that is not. -/
def amountsText (key : String) : String :=
  "[amounts]\n" ++ key ++ " = 6\n"

def amountsDocument (key : String) : Toml :=
  .table [("amounts", .table [(key, .integer 6)])]

theorem reflects_amountsText : ∃ params, ofText? (amountsText "token_decimals") = .ok params ∧
    params.amounts.tokenDecimals = 6 ∧ params.Reflects (amountsDocument "token_decimals") := by
  have denoted : Toml.ofText? (amountsText "token_decimals") =
      some (amountsDocument "token_decimals") := by decide +kernel
  obtain ⟨params, read, valid, decimals⟩ : ∃ params : Params,
      ofToml? (amountsDocument "token_decimals") = some params ∧ params.validate = .ok () ∧
      params.amounts.tokenDecimals = 6 := ⟨_, rfl, rfl, rfl⟩
  have accepted : ofText? (amountsText "token_decimals") = .ok params := by
    rw [ofText?_eq_ok_iff, denoted]
    exact ⟨read, valid⟩
  refine ⟨params, accepted, decimals, ?_⟩
  obtain ⟨_, _, _, _, reflects⟩ := reflects_unless_untidy denoted
  refine (reflects params accepted).mpr ⟨?_, ?_, ?_⟩
  · intro kind toml given
    cases kind <;> cases given
  · intro kind toml given
    cases kind <;> cases given
  · rintro _ ⟨rfl⟩
    exact List.forall_mem_singleton.mpr List.mem_cons_self

/-- The decimals under a misspelt key are lost, and the parameters are the defaults. -/
theorem misspelt_amount_passed_over : ∃ document params,
    Toml.ofText? (amountsText "token_decimal") = some document ∧
    ofText? (amountsText "token_decimal") = .ok params ∧ params = defaults ∧
    ¬ params.Reflects document := by
  have denoted : Toml.ofText? (amountsText "token_decimal") =
      some (amountsDocument "token_decimal") := by decide +kernel
  obtain ⟨params, read, valid, category, amounts⟩ : ∃ params : Params,
      ofToml? (amountsDocument "token_decimal") = some params ∧ params.validate = .ok () ∧
      (∀ kind, params.category kind = .defaults kind) ∧ params.amounts = .defaults :=
    ⟨_, rfl, rfl, fun kind => by cases kind <;> rfl, rfl⟩
  refine ⟨amountsDocument "token_decimal", params, denoted, ?_, ?_, ?_⟩
  · rw [ofText?_eq_ok_iff, denoted]
    exact ⟨read, valid⟩
  · cases params
    exact congrArg₂ Params.mk (funext category) amounts
  · intro reflects
    have taken := (reflects _ List.mem_cons_self).amounts rfl
    exact taken _ List.mem_cons_self

end Params

end MempoolWatch

import MempoolWatch.Proofs.Params.Record
import Mathlib.Data.List.Forall2

/-! Market models in a document. A table has the name of the model under `model` and each field of the
model under its name; a list has the name first and the fields behind it, in their order. -/
namespace MempoolWatch

theorem mapM_eq_some_iff {α β : Type} {read : α → Option β} {items : List α} {values : List β} :
    items.mapM read = some values ↔
      List.Forall₂ (fun item value => read item = some value) items values := by
  induction items generalizing values with
  | nil => cases values <;> simp
  | cons item rest ih =>
    rw [List.mapM_cons]
    cases values with
    | nil => simp [Option.bind_eq_some_iff]
    | cons value values => simp [Option.bind_eq_some_iff, ← ih]

namespace MarketModel

variable {model : MarketModel} {α : Type}

theorem fieldNames?_name (model : MarketModel) :
    fieldNames? model.name = some (model.fields.map Prod.fst) := by
  cases model <;> rfl

theorem ofFields?_eq_some_iff {name : String} {values : List Float} :
    ofFields? name values = some model ↔
      name = model.name ∧ values = model.fields.map Prod.snd := by
  constructor
  · intro read
    unfold ofFields? at read
    split at read <;> cases read <;> exact ⟨rfl, rfl⟩
  · rintro ⟨rfl, rfl⟩
    cases model <;> rfl

/-- Where no name is given twice, the only value of a name is the one that it has. -/
theorem unique?_eq_get? {members : Named α} (distinct : members.names.Nodup) (name : String) :
    unique? members name = members.get? name := by
  induction members with
  | nil => rfl
  | cons member rest ih =>
    obtain ⟨first, value⟩ := member
    obtain ⟨fresh, distinct⟩ := List.nodup_cons.mp distinct
    rw [Named.get?_cons]
    split
    · next same =>
      have alone : rest.filter (·.1 = name) = [] := by
        rw [List.filter_eq_nil_iff]
        intro other listed again
        have again : other.1 = first := (of_decide_eq_true again).trans same
        exact fresh (List.mem_map.mpr ⟨other, listed, again⟩)
      have only : ((first, value) :: rest).filter (·.1 = name) = [(first, value)] := by
        rw [List.filter_cons_of_pos (by simpa using same.symm), alone]
      rw [unique?, only]
    · next differ =>
      rw [← ih distinct, unique?, List.filter_cons_of_neg (by simpa using Ne.symm differ), unique?]

variable {text? : α → Option String} {number? : α → Option Float}

theorem ofMembers?_eq_some_iff {members : Named α} (distinct : members.names.Nodup) :
    ofMembers? text? number? members = some model ↔
      (members.get? "model").bind text? = some model.name ∧
        ∀ field ∈ model.fields, (members.get? field.1).bind number? = some field.2 := by
  have values : (model.fields.map Prod.fst).mapM
        (fun name => (unique? members name).bind number?) = some (model.fields.map Prod.snd) ↔
      ∀ field ∈ model.fields, (members.get? field.1).bind number? = some field.2 := by
    simp only [mapM_eq_some_iff, List.forall₂_map_left_iff, List.forall₂_map_right_iff,
      List.forall₂_same, unique?_eq_get? distinct]
  rw [← values, ← unique?_eq_get? distinct]
  constructor
  · intro read
    obtain ⟨name, named, read⟩ := Option.bind_eq_some_iff.mp read
    obtain ⟨names, fieldNames, read⟩ := Option.bind_eq_some_iff.mp read
    obtain ⟨values, found, read⟩ := Option.bind_eq_some_iff.mp read
    obtain ⟨rfl, rfl⟩ := ofFields?_eq_some_iff.mp read
    cases (fieldNames?_name model).symm.trans fieldNames
    exact ⟨named, found⟩
  · rintro ⟨named, found⟩
    refine Option.bind_eq_some_iff.mpr ⟨_, named, ?_⟩
    refine Option.bind_eq_some_iff.mpr ⟨_, fieldNames?_name model, ?_⟩
    exact Option.bind_eq_some_iff.mpr ⟨_, found, ofFields?_eq_some_iff.mpr ⟨rfl, rfl⟩⟩

theorem ofItems?_cons_eq_some_iff {first : α} {rest : List α} :
    ofItems? text? number? (first :: rest) = some model ↔
      text? first = some model.name ∧ rest.mapM number? = some (model.fields.map Prod.snd) := by
  constructor
  · intro read
    obtain ⟨name, named, read⟩ := Option.bind_eq_some_iff.mp read
    obtain ⟨values, found, read⟩ := Option.bind_eq_some_iff.mp read
    obtain ⟨rfl, rfl⟩ := ofFields?_eq_some_iff.mp read
    exact ⟨named, found⟩
  · rintro ⟨named, found⟩
    refine Option.bind_eq_some_iff.mpr ⟨_, named, ?_⟩
    exact Option.bind_eq_some_iff.mpr ⟨_, found, ofFields?_eq_some_iff.mpr ⟨rfl, rfl⟩⟩

end MarketModel

namespace Toml

/-- A table or a list that gives a model. -/
inductive IsModel : Toml → MarketModel → Prop
  | table {members : Named Toml} {model : MarketModel}
      (name : members.get? "model" = some (.string model.name))
      (fields : ∀ field ∈ model.fields,
        ∃ value, members.get? field.1 = some value ∧ value.IsNumber field.2) :
      IsModel (.table members) model
  | list {items : List Toml} {model : MarketModel}
      (fields : List.Forall₂ IsNumber items (model.fields.map Prod.snd)) :
      IsModel (.array (.string model.name :: items)) model

theorem reads_model? : Reads model? IsModel := by
  intro toml model wellFormed
  cases wellFormed with
  | @table members ordered each =>
    rw [model?, MarketModel.ofMembers?_eq_some_iff ordered.nodup]
    simp only [Option.bind_eq_some_iff, string?_eq_some_iff, float?_eq_some_iff]
    constructor
    · rintro ⟨⟨_, name, rfl⟩, fields⟩
      exact .table name fields
    · rintro ⟨name, fields⟩
      exact ⟨⟨_, name, rfl⟩, fields⟩
  | @array items each =>
    cases items with
    | nil => exact iff_of_false nofun nofun
    | cons first rest =>
      rw [model?, MarketModel.ofItems?_cons_eq_some_iff, mapM_eq_some_iff]
      simp only [string?_eq_some_iff, float?_eq_some_iff]
      constructor
      · rintro ⟨rfl, fields⟩
        exact .list fields
      · intro meant
        cases meant with
        | list fields => exact ⟨rfl, fields⟩
  | _ => exact iff_of_false nofun nofun

end Toml

end MempoolWatch

import MempoolWatch.Json.Record
import Mathlib.Data.List.Forall2

/-! Members of a written object by name. An object keeps every value that has been given to a
name, and its value and a record of it are read from the same members: the value takes the last
one of a name, and a record accepts a field of its own only once. -/
namespace MempoolWatch.Json

variable {α : Type}

namespace Source

/-- The entries are the members one by one: their names denote a text, and their values are
what a reader makes of them. -/
def ReadAs (read : Source → Option α) (members : List (Literal × Source))
    (entries : List (String × α)) : Prop :=
  List.Forall₂ (fun member entry => member.1 = some entry.1 ∧ read member.2 = some entry.2)
    members entries

namespace ReadAs

variable {read : Source → Option α} {members : List (Literal × Source)}
  {entries : List (String × α)}

theorem reverse (h : ReadAs read members entries) : ReadAs read members.reverse entries.reverse :=
  List.forall₂_reverse_iff.mpr h

theorem lookup (h : ReadAs read members entries) (name : String) :
    entries.lookup name = (members.lookup (some name)).bind read := by
  induction h with
  | nil => rfl
  | @cons member entry members entries first _ ih =>
    obtain ⟨literal, source⟩ := member
    obtain ⟨other, value⟩ := entry
    obtain ⟨rfl, value_eq⟩ := first
    rw [List.lookup_cons, List.lookup_cons]
    by_cases same : name = other
    · rw [beq_iff_eq.mpr same, beq_iff_eq.mpr (congrArg some same)]
      exact value_eq.symm
    · have differ : some name ≠ some other := fun equal => same (Option.some.inj equal)
      rw [beq_eq_false_iff_ne.mpr same, beq_eq_false_iff_ne.mpr differ]
      exact ih

end ReadAs

/-- The member of this name; of a repeated name the last one counts. -/
def member? (members : List (Literal × Source)) (name : String) : Option Source :=
  members.reverse.lookup (some name)

theorem member?_eq_none_iff {members : List (Literal × Source)} {name : String} :
    member? members name = none ↔ ∀ member ∈ members, member.1 ≠ some name := by
  rw [member?, List.lookup_eq_none_iff]
  simp only [List.mem_reverse, bne_iff_ne, ne_comm]

theorem mem_of_member? {members : List (Literal × Source)} {name : String} {source : Source}
    (given : member? members name = some source) : (some name, source) ∈ members := by
  obtain ⟨before, behind, split, _⟩ := List.lookup_eq_some_iff.mp given
  rw [← List.mem_reverse, split]
  exact List.mem_append_right before List.mem_cons_self

theorem isSome_membersWithin? {room : Nat} {members : List (Literal × Source)} :
    (membersWithin? room members).isSome = true ↔
      ∀ member ∈ members,
        member.1.isSome = true ∧ (valueWithin? room member.2).isSome = true := by
  induction members with
  | nil => simp [membersWithin?]
  | cons member rest ih =>
    obtain ⟨literal, source⟩ := member
    rw [List.forall_mem_cons, ← ih, membersWithin?]
    cases literal <;> cases valueWithin? room source <;> cases membersWithin? room rest <;> simp

theorem readAs_of_membersWithin? {room : Nat} {members : List (Literal × Source)}
    {values : List (String × Json)} (read : membersWithin? room members = some values) :
    ReadAs (valueWithin? room) members values := by
  induction members generalizing values with
  | nil =>
    obtain rfl : [] = values := Option.some.inj read
    exact .nil
  | cons member rest ih =>
    obtain ⟨literal, source⟩ := member
    rw [membersWithin?] at read
    simp only [Option.bind_eq_bind, Option.bind_eq_some_iff, Option.pure_def,
      Option.some.injEq] at read
    obtain ⟨name, denoted, value, value_eq, others, others_eq, rfl⟩ := read
    exact .cons ⟨denoted, value_eq⟩ (ih others_eq)

theorem get?_of_valueWithin? {room : Nat} {members : List (Literal × Source)} {value : Json}
    (read : valueWithin? (room + 1) (.object members) = some value) (name : String) :
    value.get? name = (member? members name).bind (valueWithin? room) := by
  rw [valueWithin?, Option.map_eq_some_iff] at read
  obtain ⟨values, values_eq, rfl⟩ := read
  calc Named.get? (Named.ofList values) name
    _ = values.reverse.lookup name := Named.get?_ofList values name
    _ = (members.reverse.lookup (some name)).bind (valueWithin? room) :=
      (readAs_of_membersWithin? values_eq).reverse.lookup name

/-- What is not read from a list or an object does not depend on how deep these may be. -/
theorem valueWithin?_bind (room : Nat) (source : Source) {read : Json → Option α}
    (array : ∀ items, read (.array items) = none)
    (object : ∀ members, read (.object members) = none) :
    (valueWithin? room source).bind read = (valueWithin? 0 source).bind read := by
  cases source with
  | null | bool | number | string => cases room <;> rfl
  | array items =>
    cases room with
    | zero => rfl
    | succ room =>
      show ((valuesWithin? room items).map Json.array).bind read = none
      rw [Option.bind_map]
      exact Option.bind_eq_none_iff.mpr fun values _ => array values
  | object members =>
    cases room with
    | zero => rfl
    | succ room =>
      show ((membersWithin? room members).map (Json.object ∘ Named.ofList)).bind read = none
      rw [Option.bind_map]
      exact Option.bind_eq_none_iff.mpr fun values _ => object (Named.ofList values)

theorem valueWithin?_bind_string? (room : Nat) (source : Source) :
    (valueWithin? room source).bind Json.string? = source.string? := by
  rw [valueWithin?_bind room source (fun _ => rfl) (fun _ => rfl)]
  rcases source with _ | _ | numeral | literal | _ | _
  · rfl
  · rfl
  · rcases numeral with _ | _ | _ <;> rfl
  · cases literal <;> rfl
  · rfl
  · rfl

theorem valueWithin?_bind_natural? (room : Nat) (source : Source) :
    (valueWithin? room source).bind Json.natural? = source.natural? := by
  rw [valueWithin?_bind room source (fun _ => rfl) (fun _ => rfl)]
  rcases source with _ | _ | numeral | literal | _ | _
  · rfl
  · rfl
  · rcases numeral with _ | _ | _ <;> rfl
  · cases literal <;> rfl
  · rfl
  · rfl

theorem valueWithin?_eq_some_string_iff {room : Nat} {source : Source} {text : String} :
    valueWithin? room source = some (.string text) ↔ source = .string (some text) := by
  constructor
  · intro read
    have denoted : source.string? = some text := by
      rw [← valueWithin?_bind_string? room source, read]
      rfl
    cases source with
    | string literal => exact congrArg Source.string denoted
    | null | bool | number | array | object => cases denoted
  · rintro rfl
    rfl

theorem readAs_of_mapM {members : List (Literal × Source)} {entries : List (String × Source)}
    (named : members.mapM (fun (name, value) => name.map (·, value)) = some entries) :
    ReadAs some members entries := by
  induction members generalizing entries with
  | nil =>
    obtain rfl : [] = entries := Option.some.inj named
    exact .nil
  | cons member rest ih =>
    obtain ⟨literal, source⟩ := member
    rw [List.mapM_cons] at named
    simp only [Option.bind_eq_bind, Option.bind_eq_some_iff, Option.pure_def,
      Option.some.injEq, Option.map_eq_some_iff] at named
    obtain ⟨_, ⟨name, denoted, rfl⟩, others, others_eq, rfl⟩ := named
    exact .cons ⟨denoted, rfl⟩ (ih others_eq)

/-- A name that is given at most once is the same from both ends. -/
theorem lookup_reverse_of_once {entries : List (String × α)} {name : String}
    (once : (entries.filter (·.1 = name)).length ≤ 1) :
    entries.reverse.lookup name = entries.lookup name := by
  have by_filter : ∀ entries : List (String × α),
      entries.lookup name = (entries.filter (·.1 = name)).head?.map (·.2) := by
    intro entries
    induction entries with
    | nil => rfl
    | cons entry rest ih =>
      rw [List.lookup_cons, List.filter_cons]
      by_cases same : name = entry.1
      · rw [beq_iff_eq.mpr same, if_pos (decide_eq_true same.symm)]
        rfl
      · rw [beq_eq_false_iff_ne.mpr same, if_neg (by simpa using Ne.symm same)]
        exact ih
  rw [by_filter, by_filter, List.filter_reverse]
  generalize entries.filter (·.1 = name) = given at once ⊢
  match given, once with
  | [], _ => rfl
  | [_], _ => rfl

/-- A record's fields are the members of the object with their names. -/
theorem field_of_record? {names : List String} {members : List (Literal × Source)}
    {field : String → Option Source}
    (record : record? names (.object members) = some field) {name : String}
    (declared : name ∈ names) : field name = member? members name := by
  simp only [record?, Option.bind_eq_bind, Option.bind_eq_some_iff,
    Option.ite_none_right_eq_some, Option.pure_def, Option.some.injEq] at record
  obtain ⟨entries, entries_eq, once, rfl⟩ := record
  have once : (entries.filter (·.1 = name)).length ≤ 1 := by
    simpa using List.all_eq_true.mp once name declared
  calc entries.lookup name
    _ = entries.reverse.lookup name := (lookup_reverse_of_once once).symm
    _ = (members.reverse.lookup (some name)).bind some :=
      (readAs_of_mapM entries_eq).reverse.lookup name
    _ = member? members name := Option.bind_fun_some _

end Source

theorem optional?_nullable?_eq_none_iff {field : Option Source} {read : Source → Option α} :
    optional? field none (Source.nullable? read) = some none ↔
      field = none ∨ field = some .null := by
  rcases field with _ | source
  · simp [optional?]
  · cases source <;> simp [optional?, Source.nullable?]

end MempoolWatch.Json

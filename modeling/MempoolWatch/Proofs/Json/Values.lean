import MempoolWatch.Proofs.Json.Members
import MempoolWatch.Proofs.Json.Reading

/-! Values and their texts. A source has a value if its literals denote texts, its numbers are in
the range of a float and it is not nested too deeply. The text that is printed for a value without
floats is one of its spellings. -/
namespace MempoolWatch.Json

namespace Source

/-- All literals denote a text, all numbers are in the range of a float, and there are at most
so many levels. -/
inductive Valued : Nat → Source → Prop
  | null {room : Nat} : Valued room .null
  | bool {room : Nat} {flag : Bool} : Valued room (.bool flag)
  | number {room : Nat} {number : Number} : Valued room (.number (some number))
  | string {room : Nat} {text : String} : Valued room (.string (some text))
  | array {room : Nat} {items : List Source} (valued : ∀ item ∈ items, Valued room item) :
      Valued (room + 1) (.array items)
  | object {room : Nat} {members : List (Literal × Source)}
      (named : ∀ member ∈ members, member.1.isSome = true)
      (valued : ∀ member ∈ members, Valued room member.2) : Valued (room + 1) (.object members)

theorem isSome_valuesWithin? {room : Nat} {items : List Source} :
    (valuesWithin? room items).isSome = true ↔
      ∀ item ∈ items, (valueWithin? room item).isSome = true := by
  induction items with
  | nil => simp [valuesWithin?]
  | cons item rest ih =>
    rw [List.forall_mem_cons, ← ih, valuesWithin?]
    cases valueWithin? room item <;> cases valuesWithin? room rest <;> simp

/-- Neither a list nor an object. -/
def isScalar : Source → Bool
  | .array _ | .object _ => false
  | .null | .bool _ | .number _ | .string _ => true

theorem isSome_valueWithin?_of_isScalar {room : Nat} {source : Source}
    (scalar : source.isScalar = true) :
    (valueWithin? room source).isSome = true ↔ Valued room source := by
  cases source with
  | null => exact iff_of_true rfl .null
  | bool => exact iff_of_true rfl .bool
  | number numeral =>
    cases numeral with
    | none => exact ⟨fun valued => (by cases valued), fun valued => (by cases valued)⟩
    | some => exact iff_of_true rfl .number
  | string literal =>
    cases literal with
    | none => exact ⟨fun valued => (by cases valued), fun valued => (by cases valued)⟩
    | some => exact iff_of_true rfl .string
  | array | object => contradiction

/-- What the reader of values accepts. -/
theorem isSome_valueWithin?_iff {room : Nat} {source : Source} :
    (valueWithin? room source).isSome = true ↔ Valued room source := by
  induction room generalizing source with
  | zero =>
    cases source with
    | null | bool | number | string => exact isSome_valueWithin?_of_isScalar rfl
    | array | object => constructor <;> intro valued <;> cases valued
  | succ room ih =>
    cases source with
    | null | bool | number | string => exact isSome_valueWithin?_of_isScalar rfl
    | array items =>
      rw [valueWithin?, Option.isSome_map, isSome_valuesWithin?]
      simp only [ih]
      constructor
      · exact .array
      · intro valued
        cases valued
        assumption
    | object members =>
      rw [valueWithin?, Option.isSome_map, isSome_membersWithin?]
      simp only [ih]
      constructor
      · intro each
        exact .object (fun member given => (each member given).1)
          fun member given => (each member given).2
      · intro valued member given
        cases valued with
        | object named valued => exact ⟨named member given, valued member given⟩

end Source

/-! ## Printed values -/

/-- Values without floats, whose numbers are naturals below 2^64. -/
inductive Plain : Json → Prop
  | null : Plain .null
  | bool {flag : Bool} : Plain (.bool flag)
  | natural {value : Nat} (fits : value < UInt64.size) : Plain (.integer value)
  | string {text : String} : Plain (.string text)
  | array {items : List Json} (plain : ∀ item ∈ items, Plain item) : Plain (.array items)
  | object {members : List (String × Json)} (plain : ∀ member ∈ members, Plain member.2) :
      Plain (.object members)

namespace Plain

theorem emptyObject : Plain (.object []) :=
  .object fun _ member => absurd member List.not_mem_nil

theorem member {name : String} {value : Json} {members : List (String × Json)}
    (plain : Plain value) (others : Plain (.object members)) :
    Plain (.object ((name, value) :: members)) := by
  cases others with
  | object each => exact .object (List.forall_mem_cons.mpr ⟨plain, each⟩)

end Plain

theorem Spelling.spaced {source : Source} {spelling : List Char}
    (spelled : Spelling source spelling) : SpacedSpelling source spelling := by
  have spaced : SpacedSpelling source ([] ++ spelling ++ []) := .intro rfl spelled rfl
  rwa [List.nil_append, List.append_nil] at spaced

theorem itemSpelling_itemChars {item : Json} {rest : List Json}
    (each : ∀ other ∈ item :: rest, Spelling other.source other.chars) :
    ItemSpelling (sources (item :: rest)) (itemChars (item :: rest)) := by
  induction rest generalizing item with
  | nil =>
    exact .last (each item List.mem_cons_self).spaced
  | cons next rest ih =>
    rw [List.forall_mem_cons] at each
    exact .more each.1.spaced (ih each.2)

theorem memberSpelling_memberChars {member : String × Json} {rest : List (String × Json)}
    (each : ∀ other ∈ member :: rest, Spelling other.2.source other.2.chars) :
    MemberSpelling (memberSources (member :: rest)) (memberChars (member :: rest)) := by
  induction rest generalizing member with
  | nil =>
    have spelled := @MemberSpelling.last _ [] _ [] _ _ rfl (textSpelling_escape member.1.toList)
      rfl (each member List.mem_cons_self).spaced
    simpa [memberSources, memberChars, quote] using spelled
  | cons next rest ih =>
    rw [List.forall_mem_cons] at each
    have spelled := @MemberSpelling.more _ [] _ [] _ _ _ _ rfl
      (textSpelling_escape member.1.toList) rfl each.1.spaced (ih each.2)
    simpa [memberSources, memberChars, quote] using spelled

theorem toList_toString_natural (value : Nat) :
    (toString (value : Int)).toList = Nat.toDigits 10 value := by
  show value.repr.toList = _
  exact Nat.toList_repr

/-- The printer spells a value. -/
theorem Plain.spelling {json : Json} (plain : Plain json) : Spelling json.source json.chars := by
  induction plain with
  | null => exact .null
  | @bool flag =>
    cases flag with
    | true => exact .true
    | false => exact .false
  | natural fits =>
    rw [chars, toList_toString_natural]
    exact .number (numeralSpelling_toDigits fits)
  | @string text =>
    have spelled := Spelling.string (textSpelling_escape text.toList)
    rwa [String.ofList_toList] at spelled
  | @array items _ ih =>
    cases items with
    | nil => exact @Spelling.emptyArray [] rfl
    | cons item rest => exact .array (itemSpelling_itemChars ih)
  | @object members _ ih =>
    cases members with
    | nil => exact @Spelling.emptyObject [] rfl
    | cons member rest => exact .object (memberSpelling_memberChars ih)

theorem Plain.spelled {json : Json} (plain : Plain json) :
    SpacedSpelling json.source (text json).toList := by
  rw [text, String.toList_ofList]
  exact plain.spelling.spaced

/-- What is printed is read as the source of the value. -/
theorem Plain.ofText?_eq {json : Json} (plain : Plain json) {printed : String}
    (same : json.text = printed) : Source.ofText? printed = some json.source := by
  rw [← same]
  exact plain.spelled.ofText?_eq

end MempoolWatch.Json

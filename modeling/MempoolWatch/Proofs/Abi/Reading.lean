import Mathlib.Data.List.Infix
import MempoolWatch.Abi.Decode

/-! What the reader of arguments does with data of any kind. Whatever it reads has the declared
types, wherever offsets and lengths point. And it never looks at the length of the data but to
make sure that something is there, so that it reads the same from data that go on. -/
namespace MempoolWatch.Abi

section Typing

theorem allHaveType_of_repeatRead {read : Nat → Option (Value × Nat)} {item : Param}
    (typed : ∀ position value next, read position = some (value, next) → HasType value item)
    {count position next : Nat} {values : List Value}
    (repeated : repeatRead read count position = some (values, next)) :
    AllHaveType values item := by
  induction count generalizing position values next with
  | zero =>
    cases repeated
    exact .nil item
  | succ count ih =>
    simp only [repeatRead, Option.bind_eq_bind, Option.bind_eq_some_iff] at repeated
    obtain ⟨⟨value, behind⟩, first, ⟨others, last⟩, rest, result⟩ := repeated
    cases result
    exact .cons (typed position value behind first) (ih rest)

mutual

theorem hasType_of_decodeAt {data : Bytes} {position next : Nat} {value : Value} :
    (param : Param) → decodeAt data position param = some (value, next) → HasType value param
  | .uint bits, read => by
    simp only [decodeAt, Option.bind_eq_bind, Option.bind_eq_some_iff] at read
    obtain ⟨word, _, result⟩ := read
    cases result
    exact .uint _ bits
  | .int bits, read => by
    simp only [decodeAt, Option.bind_eq_bind, Option.bind_eq_some_iff] at read
    obtain ⟨word, _, result⟩ := read
    cases result
    exact .int _ bits
  | .bool, read => by
    simp only [decodeAt, Option.bind_eq_bind, Option.bind_eq_some_iff] at read
    obtain ⟨truth, _, result⟩ := read
    cases result
    exact .bool truth
  | .address, read => by
    simp only [decodeAt, Option.bind_eq_bind, Option.bind_eq_some_iff] at read
    obtain ⟨word, _, result⟩ := read
    cases result
    exact .address _
  | .bytes, read => by
    simp only [decodeAt, Option.bind_eq_bind, Option.bind_eq_some_iff] at read
    obtain ⟨start, _, length, _, content, _, result⟩ := read
    cases result
    exact .bytes content
  | .array item, read => by
    simp only [decodeAt, Option.bind_eq_bind, Option.bind_eq_some_iff] at read
    obtain ⟨start, _, count, _, ⟨items, last⟩, repeated, result⟩ := read
    cases result
    exact .array (allHaveType_of_repeatRead (fun _ _ _ => hasType_of_decodeAt item) repeated)
  | .tuple fields, read => by
    rw [decodeAt] at read
    split at read
    · simp only [Option.bind_eq_bind, Option.bind_eq_some_iff] at read
      obtain ⟨start, _, read⟩ := read
      split at read
      · obtain ⟨⟨values, last⟩, inner, result⟩ := Option.bind_eq_some_iff.mp read
        cases result
        exact .tuple (haveTypes_of_decodeFields fields inner)
      · contradiction
    · obtain ⟨⟨values, last⟩, inner, result⟩ := Option.bind_eq_some_iff.mp read
      cases result
      exact .tuple (haveTypes_of_decodeFields fields inner)

theorem haveTypes_of_decodeFields {data : Bytes} {position next : Nat} {values : List Value} :
    (params : List Param) → decodeFields data position params = some (values, next) →
      HaveTypes values params
  | [], read => by
    cases read
    exact .nil
  | param :: params, read => by
    simp only [decodeFields, Option.bind_eq_bind, Option.bind_eq_some_iff] at read
    obtain ⟨⟨value, behind⟩, first, ⟨others, last⟩, rest, result⟩ := read
    cases result
    exact .cons (hasType_of_decodeAt param first) (haveTypes_of_decodeFields params rest)

end

theorem haveTypes_of_decode {params : List Param} {data : Bytes} {values : List Value}
    (read : decode params data = some values) : HaveTypes values params := by
  unfold decode at read
  split at read
  · contradiction
  · obtain ⟨⟨others, next⟩, fields, rfl⟩ := Option.map_eq_some_iff.mp read
    exact haveTypes_of_decodeFields params fields

end Typing

section Extension

variable {data longer : Bytes} {position : Nat}

theorem take_drop_of_isPrefix (short : data <+: longer) {length : Nat}
    (inside : ((data.drop position).take length).length = length) :
    (longer.drop position).take length = (data.drop position).take length := by
  have front : (data.drop position).take length <+: (longer.drop position).take length :=
    (short.drop position).take length
  refine (front.eq_of_length_le ?_).symm
  rw [inside]
  exact List.length_take_le _ _

theorem wordAt?_of_isPrefix (short : data <+: longer) {word : Bytes}
    (read : wordAt? data position = some word) : wordAt? longer position = some word := by
  simp only [wordAt?] at read ⊢
  split at read
  · next whole =>
    cases read
    rw [take_drop_of_isPrefix short whole]
    exact if_pos whole
  · contradiction

theorem offsetAt?_of_isPrefix (short : data <+: longer) {offset : Nat}
    (read : offsetAt? data position = some offset) : offsetAt? longer position = some offset := by
  obtain ⟨word, found, rest⟩ := Option.bind_eq_some_iff.mp read
  rw [offsetAt?, wordAt?_of_isPrefix short found]
  exact rest

theorem boolAt?_of_isPrefix (short : data <+: longer) {truth : Bool}
    (read : boolAt? data position = some truth) : boolAt? longer position = some truth := by
  obtain ⟨word, found, rest⟩ := Option.bind_eq_some_iff.mp read
  rw [boolAt?, wordAt?_of_isPrefix short found]
  exact rest

theorem sliceAt?_of_isPrefix (short : data <+: longer) {length : Nat} {bytes : Bytes}
    (read : sliceAt? data position length = some bytes) :
    sliceAt? longer position length = some bytes := by
  unfold sliceAt? at read ⊢
  split at read
  · next inside =>
    cases read
    have size := short.length_le
    have whole : ((data.drop position).take length).length = length := by
      rw [List.length_take, List.length_drop]
      omega
    rw [if_pos (by omega), take_drop_of_isPrefix short whole]
  · contradiction

theorem repeatRead_of_forall {read other : Nat → Option (Value × Nat)}
    (same : ∀ position result, read position = some result → other position = some result)
    {count : Nat} {result : List Value × Nat}
    (repeated : repeatRead read count position = some result) :
    repeatRead other count position = some result := by
  induction count generalizing position result with
  | zero => exact repeated
  | succ count ih =>
    simp only [repeatRead, Option.bind_eq_bind, Option.bind_eq_some_iff] at repeated ⊢
    obtain ⟨⟨value, behind⟩, first, ⟨values, last⟩, rest, produced⟩ := repeated
    exact ⟨(value, behind), same _ _ first, (values, last), ih rest, produced⟩

mutual

theorem decodeAt_of_isPrefix {data longer : Bytes} {position : Nat} {result : Value × Nat}
    (short : data <+: longer) :
    (param : Param) → decodeAt data position param = some result →
      decodeAt longer position param = some result
  | .uint bits, read | .int bits, read | .address, read => by
    simp only [decodeAt, Option.bind_eq_bind, Option.bind_eq_some_iff] at read ⊢
    obtain ⟨word, found, produced⟩ := read
    exact ⟨word, wordAt?_of_isPrefix short found, produced⟩
  | .bool, read => by
    simp only [decodeAt, Option.bind_eq_bind, Option.bind_eq_some_iff] at read ⊢
    obtain ⟨truth, found, produced⟩ := read
    exact ⟨truth, boolAt?_of_isPrefix short found, produced⟩
  | .bytes, read => by
    simp only [decodeAt, Option.bind_eq_bind, Option.bind_eq_some_iff] at read ⊢
    obtain ⟨start, pointed, length, counted, content, found, produced⟩ := read
    exact ⟨start, offsetAt?_of_isPrefix short pointed, length, offsetAt?_of_isPrefix short counted,
      content, sliceAt?_of_isPrefix short found, produced⟩
  | .array item, read => by
    simp only [decodeAt, Option.bind_eq_bind, Option.bind_eq_some_iff] at read ⊢
    obtain ⟨start, pointed, count, counted, items, repeated, produced⟩ := read
    have tail : data.drop (start + 32) <+: longer.drop (start + 32) := short.drop (start + 32)
    exact ⟨start, offsetAt?_of_isPrefix short pointed, count, offsetAt?_of_isPrefix short counted,
      items, repeatRead_of_forall (fun _ _ => decodeAt_of_isPrefix tail item) repeated, produced⟩
  | .tuple fields, read => by
    rw [decodeAt] at read ⊢
    split at read
    · next dynamic =>
      rw [if_pos dynamic]
      simp only [Option.bind_eq_bind, Option.bind_eq_some_iff] at read ⊢
      obtain ⟨start, pointed, read⟩ := read
      split at read
      · next inside =>
        obtain ⟨values, inner, produced⟩ := Option.bind_eq_some_iff.mp read
        refine ⟨start, offsetAt?_of_isPrefix short pointed, ?_⟩
        rw [if_pos (Nat.le_trans inside short.length_le)]
        exact Option.bind_eq_some_iff.mpr
          ⟨values, decodeFields_of_isPrefix (short.drop start) fields inner, produced⟩
      · contradiction
    · next static =>
      rw [if_neg static]
      obtain ⟨values, inner, produced⟩ := Option.bind_eq_some_iff.mp read
      exact Option.bind_eq_some_iff.mpr
        ⟨values, decodeFields_of_isPrefix short fields inner, produced⟩

theorem decodeFields_of_isPrefix {data longer : Bytes} {position : Nat}
    {result : List Value × Nat} (short : data <+: longer) :
    (params : List Param) → decodeFields data position params = some result →
      decodeFields longer position params = some result
  | [], read => read
  | param :: params, read => by
    simp only [decodeFields, Option.bind_eq_bind, Option.bind_eq_some_iff] at read ⊢
    obtain ⟨value, first, values, rest, produced⟩ := read
    exact ⟨value, decodeAt_of_isPrefix short param first, values,
      decodeFields_of_isPrefix short params rest, produced⟩

end

/-- Arguments that are read are read from every continuation of the data, too. -/
theorem decode_of_isPrefix {params : List Param} {values : List Value} (short : data <+: longer)
    (read : decode params data = some values) : decode params longer = some values := by
  unfold decode at read ⊢
  split at read
  · contradiction
  · next present =>
    obtain ⟨result, fields, produced⟩ := Option.map_eq_some_iff.mp read
    rw [if_neg, decodeFields_of_isPrefix short params fields, ← produced]
    · rfl
    · rintro ⟨empty, some⟩
      rw [List.isEmpty_iff] at empty
      rw [empty, List.prefix_nil] at short
      exact present ⟨List.isEmpty_iff.mpr short, some⟩

end Extension

end MempoolWatch.Abi

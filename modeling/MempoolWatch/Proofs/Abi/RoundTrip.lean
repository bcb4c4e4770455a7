import MempoolWatch.Proofs.Abi.Layout

/-! Reading back what the standard layout encodes. The reader follows the typing of the
values: a value in place is read from its head, a dynamic one from the tail that its head
points at, and the parts of an array or a tuple are placed in a frame of their own. -/
namespace MempoolWatch.Abi

mutual

/-- Every length and every offset in the encoding of the value can be read. -/
def Value.Fits : Value → Prop
  | .bytes value => value.length < offsetLimit
  | .array items =>
    items.length < offsetLimit ∧ OffsetsFit (headsSize (parts items)) (parts items) ∧ AllFit items
  | .tuple fields => OffsetsFit (headsSize (parts fields)) (parts fields) ∧ AllFit fields
  | _ => True

def AllFit : List Value → Prop
  | [] => True
  | value :: rest => value.Fits ∧ AllFit rest

end

mutual

theorem HasType.isDynamic_eq {value : Value} {param : Param} :
    HasType value param → value.isDynamic = param.isDynamic
  | .uint .. | .int .. | .bool .. | .address .. | .bytes .. | .array .. => rfl
  | .tuple each => each.anyDynamic_eq

theorem HaveTypes.anyDynamic_eq {values : List Value} {params : List Param} :
    HaveTypes values params → anyDynamic values = Param.anyDynamic params
  | .nil => rfl
  | .cons first others => by
    rw [anyDynamic, Param.anyDynamic, first.isDynamic_eq, others.anyDynamic_eq]

end

theorem Value.part_static (value : Value) (static : value.isDynamic = false) :
    value.part = .static value.encode := by
  rw [part, static]
  rfl

theorem Value.part_dynamic (value : Value) (dynamic : value.isDynamic = true) :
    value.part = .dynamic value.encode := by
  rw [part, dynamic]
  rfl

theorem parts_cons (value : Value) (rest : List Value) :
    parts (value :: rest) = value.part :: parts rest := rfl

theorem tails_of_static {values : List Value} (static : anyDynamic values = false) :
    (parts values).flatMap Part.tail = [] := by
  induction values with
  | nil => rfl
  | cons value rest ih =>
    rw [anyDynamic, Bool.or_eq_false_iff] at static
    rw [parts_cons, List.flatMap_cons, ih static.2, Value.part_static value static.1]
    rfl

theorem headsSize_pos_of_dynamic {values : List Value} (dynamic : anyDynamic values = true) :
    0 < headsSize (parts values) := by
  induction values with
  | nil => cases dynamic
  | cons value rest ih =>
    rw [parts_cons, headsSize]
    cases first : value.isDynamic with
    | true =>
      rw [Value.part_dynamic value first, Part.headSize]
      omega
    | false =>
      rw [anyDynamic, first, Bool.false_or] at dynamic
      exact Nat.add_pos_right _ (ih dynamic)

mutual

/-- A value is read back from where its part is placed. -/
theorem decodeAt_of_placed {value : Value} {param : Param} {data : Bytes} {position offset : Nat} :
    HasType value param → value.Fits → value.part.Placed data position offset →
      decodeAt data position param = some (value, position + value.part.headSize)
  | .uint word bits, _, placed => by
    rw [Value.part_static (.uint word) rfl] at placed ⊢
    have stands : StandsAt word.toBytes data position := placed.head
    have read := wordAt?_of_standsAt stands word.length_toBytes
    simp only [decodeAt, read, Option.bind_eq_bind, Option.bind_some, Word.ofBytes_toBytes,
      Part.headSize, Value.encode, Word.length_toBytes]
    rfl
  | .int word bits, _, placed => by
    rw [Value.part_static (.int word) rfl] at placed ⊢
    have stands : StandsAt word.toBytes data position := placed.head
    have read := wordAt?_of_standsAt stands word.length_toBytes
    simp only [decodeAt, read, Option.bind_eq_bind, Option.bind_some, Word.ofBytes_toBytes,
      Part.headSize, Value.encode, Word.length_toBytes]
    rfl
  | .bool value, _, placed => by
    rw [Value.part_static (.bool value) rfl] at placed ⊢
    have stands : StandsAt (wordOf value.toNat) data position := placed.head
    have read := boolAt?_of_standsAt stands
    simp only [decodeAt, read, Option.bind_eq_bind, Option.bind_some, Part.headSize, Value.encode,
      length_wordOf]
    rfl
  | .address value, _, placed => by
    rw [Value.part_static (.address value) rfl] at placed ⊢
    have stands : StandsAt (List.replicate 12 0 ++ value.bytes) data position := placed.head
    have read := wordAt?_of_standsAt stands (length_addressWord value)
    simp only [decodeAt, read, Option.bind_eq_bind, Option.bind_some, padRight_drop_address,
      Part.headSize, Value.encode, length_addressWord]
    rfl
  | .bytes value, fits, placed => by
    rw [Value.part_dynamic (.bytes value) rfl] at placed ⊢
    have stands : StandsAt (wordOf value.length ++ padded value) data offset := placed.tail
    have start := offsetAt?_of_standsAt placed.head placed.fits
    have length := offsetAt?_of_standsAt stands.left fits
    have inside := stands.left.length_le
    have content : StandsAt value data (offset + (wordOf value.length).length) := stands.right.left
    rw [length_wordOf] at inside content
    have read := sliceAt?_of_standsAt content (by omega)
    simp only [decodeAt, start, length, read, Option.bind_eq_bind, Option.bind_some]
    rfl
  | @HasType.array items item each, fits, placed => by
    rw [Value.part_dynamic (.array items) rfl] at placed ⊢
    have stands : StandsAt (wordOf items.length ++ joinParts (parts items)) data offset :=
      placed.tail
    have start := offsetAt?_of_standsAt placed.head placed.fits
    have count := offsetAt?_of_standsAt stands.left fits.1
    have joined := stands.right
    rw [length_wordOf] at joined
    have read := repeatRead_of_placed each fits.2.2 (.of_join joined fits.2.1)
    simp only [decodeAt, start, count, read, Option.bind_eq_bind, Option.bind_some]
    rfl
  | @HasType.tuple values fields each, fits, placed => by
    have same : Param.isDynamic (.tuple fields) = anyDynamic values := each.anyDynamic_eq.symm
    cases dynamic : anyDynamic values with
    | true =>
      rw [Value.part_dynamic (.tuple values) dynamic] at placed ⊢
      have stands : StandsAt (joinParts (parts values)) data offset := placed.tail
      have start := offsetAt?_of_standsAt placed.head placed.fits
      have inside : offset ≤ data.length := by
        have pos := headsSize_pos_of_dynamic dynamic
        have short := stands.left.length_le
        rw [length_heads] at short
        omega
      have read := decodeFields_of_placed each fits.2 (.of_join stands fits.1)
      simp only [decodeAt, same, dynamic, start, inside, read, if_true, Option.bind_eq_bind,
        Option.bind_some]
      rfl
    | false =>
      rw [Value.part_static (.tuple values) dynamic] at placed ⊢
      have stands : StandsAt (joinParts (parts values)) data position := placed.head
      have noTails := tails_of_static dynamic
      have read := decodeFields_of_placed each fits.2 (.of_join_static stands noTails fits.1)
      have size : (Value.tuple values).encode.length = headsSize (parts values) := by
        rw [Value.encode, joinParts, noTails, List.append_nil, length_heads]
      simp only [decodeAt, same, dynamic, read, Option.bind_eq_bind, Option.bind_some,
        Part.headSize, size]
      rfl

theorem repeatRead_of_placed {items : List Value} {item : Param} {data : Bytes}
    {position offset : Nat} :
    AllHaveType items item → AllFit items → PartsPlaced (parts items) data position offset →
      repeatRead (fun position => decodeAt data position item) items.length position =
        some (items, position + headsSize (parts items))
  | .nil item, _, _ => rfl
  | .cons first others, fit, placed => by
    rw [parts_cons] at placed ⊢
    have read := decodeAt_of_placed first fit.1 placed.first
    have readOthers := repeatRead_of_placed others fit.2 placed.others
    simp only [List.length_cons, repeatRead, read, readOthers, Option.bind_eq_bind,
      Option.bind_some, headsSize, Nat.add_assoc]
    rfl

theorem decodeFields_of_placed {values : List Value} {params : List Param} {data : Bytes}
    {position offset : Nat} :
    HaveTypes values params → AllFit values → PartsPlaced (parts values) data position offset →
      decodeFields data position params = some (values, position + headsSize (parts values))
  | .nil, _, _ => rfl
  | .cons first others, fit, placed => by
    rw [parts_cons] at placed ⊢
    have read := decodeAt_of_placed first fit.1 placed.first
    have readOthers := decodeFields_of_placed others fit.2 placed.others
    simp only [decodeFields, read, readOthers, Option.bind_eq_bind, Option.bind_some,
      headsSize, Nat.add_assoc]
    rfl

end

/-- The arguments of a call are read back from their encoding, whatever stands behind it.
Arguments that take no room at all cannot be told from missing ones. -/
theorem decode_encode {values : List Value} {params : List Param} (typed : HaveTypes values params)
    (fit : AllFit values) (offsets : OffsetsFit (headsSize (parts values)) (parts values))
    (present : params.isEmpty = true ∨ 0 < headsSize (parts values)) (trailing : Bytes) :
    decode params (encode values ++ trailing) = some values := by
  have stands : StandsAt (joinParts (parts values)) (encode values ++ trailing) 0 :=
    List.prefix_append (encode values) trailing
  have read := decodeFields_of_placed typed fit (.of_join stands offsets)
  rw [decode, if_neg, ← List.drop_zero (l := encode values ++ trailing), read]
  · rfl
  · rintro ⟨empty, some⟩
    obtain none | pos := present
    · exact some none
    · have short := stands.left.length_le
      rw [length_heads, List.isEmpty_iff.mp empty, List.length_nil] at short
      omega

end MempoolWatch.Abi

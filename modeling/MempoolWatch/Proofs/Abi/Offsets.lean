import MempoolWatch.Proofs.Abi.RoundTrip

/-! Offsets that the types alone keep small. An offset exceeds the size of the heads only
by the tails in front of it. Where at most one argument of a frame is dynamic there are
none, so that nothing but the lengths in the values decides whether they can be read. -/
namespace MempoolWatch.Abi

namespace Param

mutual

/-- The size of the head of every value of the type. -/
def headSize : Param → Nat
  | .tuple fields => if anyDynamic fields then 32 else headsSize fields
  | _ => 32

def headsSize : List Param → Nat
  | [] => 0
  | param :: rest => param.headSize + headsSize rest

end

def atMostOneDynamic : List Param → Bool
  | [] => true
  | param :: rest => if param.isDynamic then ! anyDynamic rest else atMostOneDynamic rest

/-- The only offset that such a frame can have is the size of its heads. -/
def hasSmallOffset (params : List Param) : Bool :=
  atMostOneDynamic params && decide (headsSize params < offsetLimit)

mutual

/-- All frames inside a value of the type have small offsets. -/
def isShallow : Param → Bool
  | .array item => ! item.isDynamic && item.isShallow
  | .tuple fields => hasSmallOffset fields && areShallow fields
  | _ => true

def areShallow : List Param → Bool
  | [] => true
  | param :: rest => param.isShallow && areShallow rest

end

end Param

mutual

/-- Every byte string and every array in the value has a length that can be read. -/
def Value.LengthsFit : Value → Prop
  | .bytes value => value.length < offsetLimit
  | .array items => items.length < offsetLimit ∧ AllLengthsFit items
  | .tuple fields => AllLengthsFit fields
  | _ => True

def AllLengthsFit : List Value → Prop
  | [] => True
  | value :: rest => value.LengthsFit ∧ AllLengthsFit rest

end

mutual

theorem HasType.headSize_eq {value : Value} {param : Param} :
    HasType value param → value.part.headSize = param.headSize
  | .uint word _ => word.length_toBytes
  | .int word _ => word.length_toBytes
  | .bool value => length_wordOf value.toNat
  | .address value => length_addressWord value
  | .bytes _ | .array _ => rfl
  | @HasType.tuple values fields each => by
    have same := each.anyDynamic_eq
    rw [Param.headSize, ← same]
    cases dynamic : anyDynamic values with
    | true =>
      rw [Value.part_dynamic (.tuple values) dynamic]
      rfl
    | false =>
      rw [Value.part_static (.tuple values) dynamic, Part.headSize, Value.encode, joinParts,
        tails_of_static dynamic, List.append_nil, length_heads, each.headsSize_eq]
      rfl

theorem HaveTypes.headsSize_eq {values : List Value} {params : List Param} :
    HaveTypes values params → headsSize (parts values) = Param.headsSize params
  | .nil => rfl
  | .cons first others => by
    rw [parts_cons, headsSize, Param.headsSize, first.headSize_eq, others.headsSize_eq]

end

theorem offsetsFit_of_static {values : List Value} (static : anyDynamic values = false)
    (offset : Nat) : OffsetsFit offset (parts values) := by
  induction values generalizing offset with
  | nil => trivial
  | cons value rest ih =>
    rw [anyDynamic, Bool.or_eq_false_iff] at static
    rw [parts_cons, Value.part_static value static.1]
    exact ⟨trivial, ih static.2 _⟩

theorem HaveTypes.offsetsFit {values : List Value} {params : List Param}
    (typed : HaveTypes values params) (sole : Param.atMostOneDynamic params = true) {offset : Nat}
    (small : offset < offsetLimit) : OffsetsFit offset (parts values) := by
  induction values generalizing params with
  | nil => trivial
  | cons value rest ih =>
    obtain _ | ⟨first, others⟩ := typed
    rw [Param.atMostOneDynamic, ← first.isDynamic_eq] at sole
    cases dynamic : value.isDynamic with
    | true =>
      rw [dynamic, if_pos rfl, ← others.anyDynamic_eq, Bool.not_eq_true'] at sole
      rw [parts_cons, Value.part_dynamic value dynamic]
      exact ⟨small, offsetsFit_of_static sole _⟩
    | false =>
      rw [dynamic, if_neg Bool.false_ne_true] at sole
      rw [parts_cons, Value.part_static value dynamic]
      exact ⟨trivial, ih others sole⟩

theorem HaveTypes.offsetsFit_heads {values : List Value} {params : List Param}
    (typed : HaveTypes values params) (small : Param.hasSmallOffset params = true) :
    OffsetsFit (headsSize (parts values)) (parts values) := by
  rw [Param.hasSmallOffset, Bool.and_eq_true, decide_eq_true_iff, ← typed.headsSize_eq] at small
  exact typed.offsetsFit small.1 small.2

theorem AllHaveType.anyDynamic_eq {items : List Value} {item : Param}
    (each : AllHaveType items item) (static : item.isDynamic = false) :
    anyDynamic items = false := by
  induction items with
  | nil => rfl
  | cons value rest ih =>
    obtain _ | ⟨first, others⟩ := each
    rw [anyDynamic, first.isDynamic_eq, static, ih others]
    rfl

mutual

theorem HasType.fits {value : Value} {param : Param} :
    HasType value param → param.isShallow = true → value.LengthsFit → value.Fits
  | .uint .., _, _ | .int .., _, _ | .bool .., _, _ | .address .., _, _ => trivial
  | .bytes _, _, length => length
  | .array each, shallow, lengths => by
    rw [Param.isShallow, Bool.and_eq_true, Bool.not_eq_true'] at shallow
    exact ⟨lengths.1, offsetsFit_of_static (each.anyDynamic_eq shallow.1) _,
      each.allFit shallow.2 lengths.2⟩
  | .tuple each, shallow, lengths => by
    rw [Param.isShallow, Bool.and_eq_true] at shallow
    exact ⟨each.offsetsFit_heads shallow.1, each.allFit shallow.2 lengths⟩

theorem AllHaveType.allFit {items : List Value} {item : Param} :
    AllHaveType items item → item.isShallow = true → AllLengthsFit items → AllFit items
  | .nil _, _, _ => trivial
  | .cons first others, shallow, lengths =>
    ⟨first.fits shallow lengths.1, others.allFit shallow lengths.2⟩

theorem HaveTypes.allFit {values : List Value} {params : List Param} :
    HaveTypes values params → Param.areShallow params = true → AllLengthsFit values →
      AllFit values
  | .nil, _, _ => trivial
  | .cons first others, shallow, lengths => by
    rw [Param.areShallow, Bool.and_eq_true] at shallow
    exact ⟨first.fits shallow.1 lengths.1, others.allFit shallow.2 lengths.2⟩

end

/-- With small offsets, the lengths in the values decide whether they are read back. -/
theorem decode_encode_of_shallow {values : List Value} {params : List Param}
    (typed : HaveTypes values params) (shallow : Param.isShallow (.tuple params) = true)
    (present : params.isEmpty = true ∨ 0 < Param.headsSize params) (lengths : AllLengthsFit values)
    (trailing : Bytes) : decode params (encode values ++ trailing) = some values := by
  rw [Param.isShallow, Bool.and_eq_true] at shallow
  rw [← typed.headsSize_eq] at present
  exact decode_encode typed (typed.allFit shallow.2 lengths) (typed.offsetsFit_heads shallow.1)
    present trailing

end MempoolWatch.Abi

import MempoolWatch.Abi.Decode
import MempoolWatch.Abi.Encode

/-! Where the words of an encoding stand. The readers of words look at the data from a
position on, so that what they read is a fact about a prefix of the rest. Offsets and
lengths are read from the last four bytes of a word, and fit in them below 2^32. -/
namespace MempoolWatch

namespace Bytes

theorem ofNat_zero (width : Nat) : ofNat width 0 = List.replicate width 0 := by
  induction width with
  | zero => rfl
  | succ width ih => rw [ofNat, Nat.zero_div, ih, List.replicate_succ']; rfl

theorem ofNat_add (high low value : Nat) :
    ofNat (high + low) value = ofNat high (value / Nat.pow 256 low) ++ ofNat low value := by
  induction low generalizing value with
  | zero => rw [Nat.pow, Nat.div_one, ofNat, List.append_nil, Nat.add_zero]
  | succ low ih =>
    rw [← Nat.add_assoc, ofNat, ih, ofNat, List.append_assoc, Nat.div_div_eq_div_mul,
      Nat.mul_comm]
    rfl

/-- A small number has zeros in front. -/
theorem ofNat_of_lt (high : Nat) {low value : Nat} (small : value < Nat.pow 256 low) :
    ofNat (high + low) value = List.replicate high 0 ++ ofNat low value := by
  rw [ofNat_add, Nat.div_eq_of_lt small, ofNat_zero]

end Bytes

theorem Word.length_toBytes (word : Word) : word.toBytes.length = 32 :=
  Bytes.length_ofNat 32 word.toNat

namespace Abi

/-- The bytes stand in the data from a position on. -/
def StandsAt (bytes data : Bytes) (position : Nat) : Prop :=
  bytes <+: data.drop position

namespace StandsAt

variable {bytes more data : Bytes} {position start : Nat}

theorem nil : StandsAt [] data position :=
  List.nil_prefix

theorem left (stands : StandsAt (bytes ++ more) data position) : StandsAt bytes data position :=
  (List.prefix_append bytes more).trans stands

theorem right (stands : StandsAt (bytes ++ more) data position) :
    StandsAt more data (position + bytes.length) := by
  obtain ⟨rest, whole⟩ := stands
  refine ⟨rest, ?_⟩
  rw [← List.drop_drop, ← whole, List.append_assoc, List.drop_left]

theorem of_drop (stands : StandsAt bytes data (start + position)) :
    StandsAt bytes (data.drop start) position := by
  rwa [StandsAt, List.drop_drop]

theorem length_le (stands : StandsAt bytes data position) :
    bytes.length ≤ data.length - position := by
  rw [← List.length_drop]
  exact List.IsPrefix.length_le stands

theorem take_eq (stands : StandsAt bytes data position) :
    (data.drop position).take bytes.length = bytes :=
  (List.prefix_iff_eq_take.mp stands).symm

end StandsAt

@[simp] theorem length_wordOf (value : Nat) : (wordOf value).length = 32 :=
  Bytes.length_ofNat 32 value

/-- The first number that no longer fits in the four bytes of an offset or a length. -/
def offsetLimit : Nat := Nat.pow 256 4

section Readers

variable {bytes data : Bytes} {position : Nat}

theorem wordAt?_of_standsAt (stands : StandsAt bytes data position) (size : bytes.length = 32) :
    wordAt? data position = some bytes := by
  rw [wordAt?, ← size, stands.take_eq]
  exact if_pos rfl

theorem offsetAt?_of_standsAt {value : Nat} (stands : StandsAt (wordOf value) data position)
    (small : value < offsetLimit) : offsetAt? data position = some value := by
  have word : wordOf value = List.replicate 28 0 ++ Bytes.ofNat 4 value := by
    rw [wordOf, ← Bytes.ofNat_of_lt 28 small]
  have zeros : ((wordOf value).take 28).all (· = 0) = true := by
    rw [word, List.take_left' List.length_replicate]
    decide
  have number : Bytes.toNat ((wordOf value).drop 28) = value := by
    rw [word, List.drop_left' List.length_replicate, Bytes.toNat_ofNat]
    exact Nat.mod_eq_of_lt small
  rw [offsetAt?, wordAt?_of_standsAt stands (length_wordOf value), Option.bind_eq_bind,
    Option.bind_some, if_pos zeros, number]
  rfl

theorem boolAt?_of_standsAt {value : Bool} (stands : StandsAt (wordOf value.toNat) data position) :
    boolAt? data position = some value := by
  rw [boolAt?, wordAt?_of_standsAt stands (length_wordOf _)]
  cases value <;> rfl

theorem sliceAt?_of_standsAt (stands : StandsAt bytes data position)
    (inside : position ≤ data.length) :
    sliceAt? data position bytes.length = some bytes := by
  have := stands.length_le
  rw [sliceAt?, if_pos (by omega), stands.take_eq]

end Readers

theorem length_addressWord (address : Address) :
    (List.replicate 12 0 ++ address.bytes).length = 32 := by
  rw [List.length_append, List.length_replicate, address.length_eq]

theorem padRight_drop_address (address : Address) :
    FixedBytes.padRight 20 ((List.replicate 12 0 ++ address.bytes).drop 12) = address := by
  apply FixedBytes.ext_bytes
  rw [List.drop_left' List.length_replicate]
  exact List.take_left' address.length_eq

/-- The offset of a tail is one that can be read. -/
def Part.OffsetFits (offset : Nat) : Part → Prop
  | static _ => True
  | dynamic _ => offset < offsetLimit

/-- So are the offsets of all tails, the first of which starts at `offset`. -/
def OffsetsFit (offset : Nat) : List Part → Prop
  | [] => True
  | part :: rest => part.OffsetFits offset ∧ OffsetsFit (offset + part.tail.length) rest

@[simp] theorem Part.length_head (offset : Nat) (part : Part) :
    (part.head offset).length = part.headSize := by
  cases part with
  | static bytes => rfl
  | dynamic bytes => exact length_wordOf offset

@[simp] theorem length_heads (offset : Nat) (parts : List Part) :
    (heads offset parts).length = headsSize parts := by
  induction parts generalizing offset with
  | nil => rfl
  | cons part rest ih => rw [heads, List.length_append, Part.length_head, ih, headsSize]

/-- The head of a part stands at a position and its tail at an offset. -/
structure Part.Placed (part : Part) (data : Bytes) (position offset : Nat) : Prop where
  head : StandsAt (part.head offset) data position
  tail : StandsAt part.tail data offset
  fits : part.OffsetFits offset

/-- The heads stand one behind the other, and so do the tails. -/
structure PartsPlaced (parts : List Part) (data : Bytes) (position offset : Nat) : Prop where
  heads : StandsAt (heads offset parts) data position
  tails : StandsAt (parts.flatMap Part.tail) data offset
  fit : OffsetsFit offset parts

namespace PartsPlaced

variable {part : Part} {parts rest : List Part} {data : Bytes} {position offset start : Nat}

theorem first (placed : PartsPlaced (part :: rest) data position offset) :
    part.Placed data position offset :=
  ⟨placed.heads.left, placed.tails.left, placed.fit.1⟩

theorem others (placed : PartsPlaced (part :: rest) data position offset) :
    PartsPlaced rest data (position + part.headSize) (offset + part.tail.length) := by
  refine ⟨?_, placed.tails.right, placed.fit.2⟩
  rw [← Part.length_head offset part]
  exact placed.heads.right

/-- Joined parts are placed in the data from their start on. -/
theorem of_join (stands : StandsAt (joinParts parts) data start)
    (fit : OffsetsFit (headsSize parts) parts) :
    PartsPlaced parts (data.drop start) 0 (headsSize parts) := by
  refine ⟨stands.left.of_drop, ?_, fit⟩
  have tails := stands.right
  rw [length_heads] at tails
  exact tails.of_drop

/-- Without tails, it does not matter where the tails start. -/
theorem of_join_static (stands : StandsAt (joinParts parts) data position)
    (noTails : parts.flatMap Part.tail = []) (fit : OffsetsFit (headsSize parts) parts) :
    PartsPlaced parts data position (headsSize parts) :=
  ⟨stands.left, noTails ▸ StandsAt.nil, fit⟩

end PartsPlaced

end Abi

end MempoolWatch

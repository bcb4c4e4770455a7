import Mathlib.Data.Nat.Digits.Defs
import MempoolWatch.Proofs.Identifier
import MempoolWatch.Quantity

/-! The hexadecimal texts in the answers of a node are read back as they are written. The digits of
a quantity are grouped two by two from the right, so that an odd one stands alone in the first byte;
the bytes of an identifier and of data have two digits each, and none is left over. -/
namespace MempoolWatch

namespace Hex

/-- The number with these digits, most significant first. -/
def valueOf (digits : List Nat) : Nat :=
  digits.foldl (fun value digit => value * 16 + digit) 0

/-- A number is written with digits of this value. -/
theorem exists_toDigits_eq (value : Nat) : ∃ digits, (∀ digit ∈ digits, digit < 16) ∧
    Nat.toDigits 16 value = digits.map Nat.digitChar ∧ valueOf digits = value := by
  induction value using Nat.strongRecOn with
  | ind value ih =>
    by_cases single : value < 16
    · exact ⟨[value], by simpa using single, Nat.toDigits_of_lt_base single, by simp [valueOf]⟩
    · obtain ⟨front, bounds, written, same⟩ := ih (value / 16) (by omega)
      refine ⟨front ++ [value % 16], ?_, ?_, ?_⟩
      · rw [List.forall_mem_append, List.forall_mem_singleton]
        exact ⟨bounds, Nat.mod_lt _ (by decide)⟩
      · rw [Nat.toDigits_of_base_le (by decide) (by omega), written, List.map_append]
        rfl
      · rw [valueOf] at same
        rw [valueOf, List.foldl_append, same]
        exact Nat.div_add_mod' value 16

theorem digits?_map_digitChar {digits : List Nat} (bounds : ∀ digit ∈ digits, digit < 16) :
    digits? (digits.map Nat.digitChar) = some digits := by
  have facts : ∀ digit : Fin 16, isBlank (Nat.digitChar digit) = false ∧
      lowerDigit (Nat.digitChar digit) = Nat.digitChar digit := by decide
  refine digits?_eq_some_iff.mpr ⟨bounds, ?_⟩
  rw [bare_of_no_blank, List.map_map]
  · exact List.map_congr_left fun digit member => (facts ⟨digit, bounds digit member⟩).2
  · intro c member
    obtain ⟨digit, inside, rfl⟩ := List.mem_map.mp member
    exact (facts ⟨digit, bounds digit inside⟩).1

theorem length_encode (bytes : Bytes) : (encode bytes).length = 2 * bytes.length := by
  induction bytes with
  | nil => rfl
  | cons byte rest ih =>
    show (encode rest).length + 1 + 1 = 2 * (rest.length + 1)
    omega

/-- Joining an even number of digits does not change the number that they continue. -/
theorem foldl_pairUp {digits : List Nat} (bounds : ∀ digit ∈ digits, digit < 16)
    (even : digits.length % 2 = 0) (front : Nat) :
    (pairUp digits).1.foldl (fun value byte => value * 256 + byte.toNat) front =
      digits.foldl (fun value digit => value * 16 + digit) front := by
  induction digits using pairUp.induct generalizing front with
  | case1 => rfl
  | case2 lone => cases even
  | case3 high low rest others lone paired ih =>
    obtain ⟨highBound, bounds⟩ := List.forall_mem_cons.mp bounds
    obtain ⟨lowBound, bounds⟩ := List.forall_mem_cons.mp bounds
    have even : rest.length % 2 = 0 := by
      simp only [List.length_cons] at even
      omega
    have joined : front * 256 + (high * 16 + low) = (front * 16 + high) * 16 + low := by omega
    rw [pairUp, List.foldl_cons, List.foldl_cons, toNat_byteOfDigits highBound lowBound, joined]
    exact ih bounds even _

end Hex

namespace Quantity

theorem bytes?_of_even {text : List Char} {digits : List Nat}
    (read : Hex.digits? text = some digits) (even : text.length % 2 = 0) :
    bytes? text = some (Hex.pairUp digits).1 := by
  simp only [bytes?, read, even, Option.bind_eq_bind, Option.bind_some, Option.pure_def]

theorem bytes?_of_odd {text : List Char} {digit : Nat} {rest : List Nat}
    (read : Hex.digits? text = some (digit :: rest)) (odd : text.length % 2 = 1) :
    bytes? text = some (Hex.byteOfDigits 0 digit :: (Hex.pairUp rest).1) := by
  simp only [bytes?, read, odd, Option.bind_eq_bind, Option.bind_some, Option.pure_def]

/-- Whether the number of the digits is even or odd, the bytes have the value of the digits. -/
theorem bytes?_map_digitChar {digits : List Nat} (bounds : ∀ digit ∈ digits, digit < 16) :
    ∃ bytes, bytes? (digits.map Nat.digitChar) = some bytes ∧
      bytes.toNat = Hex.valueOf digits := by
  have read := Hex.digits?_map_digitChar bounds
  have same : (digits.map Nat.digitChar).length = digits.length := List.length_map _
  rcases Nat.mod_two_eq_zero_or_one digits.length with even | odd
  · exact ⟨_, bytes?_of_even read (same ▸ even), Hex.foldl_pairUp bounds even 0⟩
  · cases digits with
    | nil => cases odd
    | cons digit rest =>
      obtain ⟨bound, bounds⟩ := List.forall_mem_cons.mp bounds
      have even : rest.length % 2 = 0 := by
        rw [List.length_cons] at odd
        omega
      have alone : 0 * 256 + (Hex.byteOfDigits 0 digit).toNat = 0 * 16 + digit := by
        rw [Hex.toNat_byteOfDigits (by decide) bound]
        omega
      refine ⟨_, bytes?_of_odd read (same ▸ odd), ?_⟩
      rw [Bytes.toNat, List.foldl_cons, alone]
      exact Hex.foldl_pairUp bounds even (0 * 16 + digit)

/-- A quantity is read back from its text. -/
theorem word?_hex (word : Word) : word? word.hex = some word := by
  obtain ⟨digits, bounds, written, same⟩ := Hex.exists_toDigits_eq word.toNat
  obtain ⟨bytes, read, value⟩ := bytes?_map_digitChar bounds
  have marked : Hex.dropMarker word.hex.toList = digits.map Nat.digitChar := by
    rw [Word.hex, String.toList_ofList, written]
    rfl
  have some : 0 < (digits.map Nat.digitChar).length := by
    rw [← written]
    exact Nat.length_toDigits_pos
  have few : (digits.map Nat.digitChar).length ≤ 64 := by
    rw [← written]
    exact (Nat.length_toDigits_le_iff (by decide) (by decide)).mpr word.isLt
  have number : nat? 64 word.hex = Option.some word.toNat := by
    rw [nat?, marked]
    simp only [some, few, and_self, if_true, read, Option.bind_eq_bind, Option.bind_some,
      Option.pure_def, value, same]
  rw [word?, number, Option.map_some, BitVec.ofNat_toNat, BitVec.setWidth_eq]

/-- The bytes are read back from their digits. -/
theorem bytes?_encode (bytes : Bytes) : bytes? (Hex.encode bytes) = some bytes := by
  have read : Hex.digits? (Hex.encode bytes) = some (bytes.flatMap Hex.halves) := by
    rw [Hex.encode_eq_map]
    exact Hex.digits?_map_digitChar fun _ => Hex.lt_of_mem_halves
  have even : (Hex.encode bytes).length % 2 = 0 := by
    rw [Hex.length_encode]
    exact Nat.mul_mod_right 2 _
  rw [bytes?_of_even read even, Hex.pairUp_flatMap_halves]

/-- An identifier is read back from its text. -/
theorem fixed?_text {size : Nat} (x : FixedBytes size) : fixed? size x.text = some x := by
  have digits : Hex.dropMarker x.text.toList = Hex.encode x.bytes := by
    rw [x.toList_text]
    exact Hex.dropMarker_marker_append _
  have length : (Hex.encode x.bytes).length = 2 * size := by
    rw [Hex.length_encode, x.length_eq]
  have padded : FixedBytes.padRight size x.bytes = x := by
    apply FixedBytes.ext_bytes
    exact List.take_left' x.length_eq
  rw [fixed?, digits]
  simp only [length, if_true, bytes?_encode, Option.bind_eq_bind, Option.bind_some,
    Option.pure_def, padded]

/-- Data is read back from its text. -/
theorem data?_marked (bytes : Bytes) : data? (Hex.marked bytes) = some bytes := by
  rw [data?, Hex.marked, String.toList_ofList]
  exact Hex.decode_encode bytes

end Quantity

end MempoolWatch

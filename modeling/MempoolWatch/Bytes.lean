/-! Byte strings, and byte strings of a fixed length such as hashes, addresses
and function selectors. The big-endian number of a byte string is its value
read most significant byte first. -/
namespace MempoolWatch

abbrev Bytes := List UInt8

namespace Bytes

/-- The number whose base-256 digits are the bytes, most significant first. -/
def toNat (bytes : Bytes) : Nat :=
  bytes.foldl (fun value byte => value * 256 + byte.toNat) 0

/-- The low `width` base-256 digits of a number, most significant first. -/
def ofNat : (width value : Nat) → Bytes
  | 0, _ => []
  | width + 1, value => ofNat width (value / 256) ++ [UInt8.ofNat value]

@[simp] theorem length_ofNat (width value : Nat) : (ofNat width value).length = width := by
  induction width generalizing value with
  | zero => rfl
  | succ width ih => simp [ofNat, ih]

theorem toNat_append (front : Bytes) (byte : UInt8) :
    toNat (front ++ [byte]) = toNat front * 256 + byte.toNat := by
  simp [toNat]

theorem toNat_ofNat (width value : Nat) :
    toNat (ofNat width value) = value % Nat.pow 256 width := by
  induction width generalizing value with
  | zero => simp [ofNat, toNat, Nat.mod_one]
  | succ width ih =>
    rw [ofNat, toNat_append, ih, UInt8.toNat_ofNat']
    show value / 256 % Nat.pow 256 width * 256 + value % 256 = value % (Nat.pow 256 width * 256)
    rw [Nat.mul_comm (Nat.pow 256 width) 256, Nat.mod_mul,
      Nat.mul_comm 256 (value / 256 % Nat.pow 256 width), Nat.add_comm]

end Bytes

/-- A byte string of exactly `size` bytes. -/
structure FixedBytes (size : Nat) where
  bytes : Bytes
  length_eq : bytes.length = size
deriving DecidableEq

namespace FixedBytes

theorem ext_bytes {size : Nat} {a b : FixedBytes size} (same : a.bytes = b.bytes) : a = b := by
  cases a
  cases b
  cases same
  rfl

def ofBytes? (size : Nat) (bytes : Bytes) : Option (FixedBytes size) :=
  if fits : bytes.length = size then some ⟨bytes, fits⟩ else none

/-- The first `size` bytes, with zeros in the place of missing ones. -/
def padRight (size : Nat) (bytes : Bytes) : FixedBytes size :=
  ⟨(bytes ++ List.replicate size 0).take size, by simp⟩

def fill (size : Nat) (byte : UInt8) : FixedBytes size :=
  ⟨List.replicate size byte, by simp⟩

theorem ofBytes?_bytes {size : Nat} (x : FixedBytes size) : ofBytes? size x.bytes = some x := by
  simp [ofBytes?, x.length_eq]

theorem ofBytes?_eq_some_iff {size : Nat} {bytes : Bytes} {fixed : FixedBytes size} :
    ofBytes? size bytes = some fixed ↔ bytes = fixed.bytes := by
  constructor
  · intro read
    rw [ofBytes?, Option.dite_none_right_eq_some] at read
    obtain ⟨fits, same⟩ := read
    cases same
    rfl
  · rintro rfl
    exact ofBytes?_bytes fixed

instance {size : Nat} : Inhabited (FixedBytes size) := ⟨fill size 0⟩

end FixedBytes

/-- Identifies a transaction. -/
abbrev Hash := FixedBytes 32

/-- Identifies an account or a contract. -/
abbrev Address := FixedBytes 20

/-- The first four bytes of calldata, which name the called function. -/
abbrev Selector := FixedBytes 4

end MempoolWatch

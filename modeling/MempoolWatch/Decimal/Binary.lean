/-! The value behind the 64 bits of a float. A finite magnitude is a significand
times a power of two, which is the exact number that all writing of floats
starts from. -/
namespace MempoolWatch.Decimal

/-- The magnitude `significand * 2 ^ exponent`. The flag says that the gap to the
next smaller magnitude is half the gap to the next larger one. -/
structure Magnitude where
  significand : Nat
  exponent : Int
  narrowBelow : Bool
deriving DecidableEq

inductive Shape
  | notANumber
  | infinite (negative : Bool)
  | finite (negative : Bool) (magnitude : Magnitude)
deriving DecidableEq

namespace Magnitude

/-- The magnitude as a fraction of naturals. -/
def fraction (m : Magnitude) : Nat × Nat :=
  if m.exponent < 0 then (m.significand, Nat.pow 2 m.exponent.natAbs)
  else (m.significand * Nat.pow 2 m.exponent.toNat, 1)

end Magnitude

/-- Reads the sign, the exponent field and the fraction field of 64 bits. -/
def Shape.ofBits (bits : UInt64) : Shape :=
  let raw := bits.toNat
  let negative := raw / Nat.pow 2 63 = 1
  let field : Nat := raw / Nat.pow 2 52 % Nat.pow 2 11
  let fraction : Nat := raw % Nat.pow 2 52
  if field = 2047 then
    if fraction = 0 then .infinite negative else .notANumber
  else if field = 0 then .finite negative ⟨fraction, -1074, false⟩
  else .finite negative ⟨Nat.pow 2 52 + fraction, (field : Int) - 1075, fraction = 0 ∧ 1 < field⟩

def Shape.ofFloat (x : Float) : Shape :=
  Shape.ofBits x.toBits

/-- Digits padded on the left with zeros to a width. -/
def padded (width value : Nat) : List Char :=
  let digits := Nat.toDigits 10 value
  List.replicate (width - digits.length) '0' ++ digits

def signed (negative : Bool) (text : List Char) : List Char :=
  if negative then '-' :: text else text

end MempoolWatch.Decimal

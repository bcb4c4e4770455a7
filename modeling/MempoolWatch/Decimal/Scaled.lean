import MempoolWatch.Decimal.Reading

/-! A quick reading of decimal numbers. The digits make a significand of 64 bits,
which is then multiplied or divided by a power of ten as a float, so that the
result may be a neighbour of the nearest float. -/
namespace MempoolWatch.Decimal

/-- Takes digits into a significand as long as it stays below 2^64. The second
result is how many digits are left. -/
def absorb (significand : Nat) : List Char → Nat × Nat
  | [] => (significand, 0)
  | digit :: rest =>
    let next := significand * 10 + (digit.toNat - '0'.toNat)
    if next < UInt64.size then absorb next rest else (significand, rest.length + 1)

/-- Ten to a power that a float can hold. -/
def tenTo (power : Nat) : Float :=
  toFloat false 1 power

/-- The significand times ten to the exponent; nothing when that is beyond the range.
Powers below the least power of ten are divided by in two steps. -/
def scaled? (significand : Nat) (exponent : Int) : Option Float :=
  let value := (UInt64.ofNat significand).toFloat
  if significand = 0 then some value
  else if 308 < exponent then none
  else if 0 ≤ exponent then
    let value := value * tenTo exponent.toNat
    if value.isInf then none else some value
  else if -308 ≤ exponent then some (value / tenTo exponent.natAbs)
  else if -616 ≤ exponent then some (value / tenTo 308 / tenTo (exponent.natAbs - 308))
  else some 0

/-- The float of a written number without sign. Digits of the integer part that the
significand has no room for count as zeros, those of the fraction do not count. -/
def ofScientific? (integer fraction : List Char) (exponent : Int) : Option Float :=
  let (significand, zeros) := absorb 0 integer
  let (significand, unread) := absorb significand fraction
  scaled? significand (exponent + zeros - (fraction.length - unread : Nat))

end MempoolWatch.Decimal

import MempoolWatch.Decimal.Binary

/-! Floats with a set number of decimal places. The exact value of the float is
rounded once, and a value halfway between two neighbours goes to the even one. -/
namespace MempoolWatch.Decimal

/-- The quotient rounded to the nearest natural, a half to the even neighbour. -/
def roundHalfEven (numerator denominator : Nat) : Nat :=
  let quotient := numerator / denominator
  let twice := 2 * (numerator % denominator)
  if twice < denominator then quotient
  else if denominator < twice then quotient + 1
  else if quotient % 2 = 0 then quotient else quotient + 1

/-- The magnitude in units of the last of `places` decimal places. -/
def Magnitude.units (places : Nat) (m : Magnitude) : Nat :=
  let (numerator, denominator) := m.fraction
  roundHalfEven (numerator * Nat.pow 10 places) denominator

/-- A number of such units with its point; no point when there are no places. -/
def pointed (places units : Nat) : List Char :=
  if places = 0 then Nat.toDigits 10 units
  else Nat.toDigits 10 (units / Nat.pow 10 places) ++ '.' :: padded places (units % Nat.pow 10 places)

/-- A float with `places` decimal places. A negative zero keeps its sign. -/
def fixed (places : Nat) (x : Float) : String :=
  match Shape.ofFloat x with
  | .notANumber => "NaN"
  | .infinite negative => String.ofList (signed negative ['i', 'n', 'f'])
  | .finite negative m => String.ofList (signed negative (pointed places (m.units places)))

end MempoolWatch.Decimal

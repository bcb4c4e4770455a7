/-! Decimal numbers read as floats: the float nearest to the exact value, a tie
going to the even significand. -/
namespace MempoolWatch.Decimal

/-- The float nearest to `±digits * 10 ^ exponent`. Values far beyond either end
of the range are settled by their size alone. -/
def toFloat (negative : Bool) (digits : Nat) (exponent : Int) : Float :=
  let size : Int := (Nat.toDigits 10 digits).length + exponent
  let magnitude : Float :=
    if digits = 0 ∨ size < -400 then 0
    else if 400 < size then 1 / 0
    else if exponent < 0 then Float.ofScientific digits true exponent.natAbs
    else Float.ofScientific digits false exponent.toNat
  if negative then -magnitude else magnitude

/-- The value of a run of decimal digits. -/
def natOfDigits (digits : List Char) : Nat :=
  digits.foldl (fun value c => value * 10 + (c.toNat - '0'.toNat)) 0

/-- The float of a written number: integer digits, fraction digits and a power of ten. -/
def ofWritten (negative : Bool) (integer fraction : List Char) (exponent : Int) : Float :=
  toFloat negative (natOfDigits (integer ++ fraction)) (exponent - fraction.length)

/-- An exponent behind its mark: an optional sign and at least one digit. -/
def exponent? (text : List Char) : Option Int :=
  let (negative, digits) := match text with
    | '-' :: rest => (true, rest)
    | '+' :: rest => (false, rest)
    | rest => (false, rest)
  if digits.isEmpty ∨ ! digits.all Char.isDigit then none
  else
    let size : Int := natOfDigits digits
    some (if negative then -size else size)

/-- A number without sign: digits around an optional point, at least one in all, and
an optional exponent. -/
def unsigned? (negative : Bool) (text : List Char) : Option Float := do
  let isMark (c : Char) : Bool := c = 'e' ∨ c = 'E'
  let mantissa := text.takeWhile (! isMark ·)
  let exponent ← match text.dropWhile (! isMark ·) with
    | [] => some 0
    | _ :: rest => exponent? rest
  let integer := mantissa.takeWhile (· ≠ '.')
  let fraction := (mantissa.dropWhile (· ≠ '.')).drop 1
  if (integer ++ fraction).isEmpty ∨ ! (integer ++ fraction).all Char.isDigit then none
  else return ofWritten negative integer fraction exponent

/-- A float as an operator writes it, also in words. -/
def ofText? (text : String) : Option Float :=
  let (negative, rest) := match text.toList with
    | '-' :: rest => (true, rest)
    | '+' :: rest => (false, rest)
    | rest => (false, rest)
  let word := String.ofList (rest.map Char.toLower)
  if word = "inf" ∨ word = "infinity" then some (if negative then -1.0 / 0.0 else 1.0 / 0.0)
  else if word = "nan" then some (0.0 / 0.0)
  else unsigned? negative rest

end MempoolWatch.Decimal

import MempoolWatch.Hex
import MempoolWatch.Toml.Value

/-! Numbers, dates and times in a TOML document. Between two digits of a number
one underscore may stand. -/
namespace MempoolWatch.Toml

/-- The digits behind a first one. An underscore must have a digit behind it. -/
def moreDigits? (isDigit : Char → Bool) : List Char → Option (List Char × List Char)
  | [] => some ([], [])
  | ['_'] => none
  | '_' :: c :: rest =>
    if isDigit c then do
      let (digits, rest) ← moreDigits? isDigit rest
      return (c :: digits, rest)
    else none
  | c :: rest =>
    if isDigit c then do
      let (digits, rest) ← moreDigits? isDigit rest
      return (c :: digits, rest)
    else some ([], c :: rest)

/-- One digit or more. -/
def digits? (isDigit : Char → Bool) : List Char → Option (List Char × List Char)
  | [] => none
  | c :: rest =>
    if isDigit c then do
      let (digits, rest) ← moreDigits? isDigit rest
      return (c :: digits, rest)
    else none

/-- An optional sign; whether it is a minus, and the rest. -/
def sign : List Char → Bool × List Char
  | '-' :: rest => (true, rest)
  | '+' :: rest => (false, rest)
  | text => (false, text)

/-- Decimal digits where a zero in front stands alone. -/
def whole? : List Char → Option (List Char × List Char)
  | '0' :: rest => some (['0'], rest)
  | text => digits? Char.isDigit text

/-- A point and digits, or nothing. -/
def fraction? : List Char → Option (List Char × List Char)
  | '.' :: rest => digits? Char.isDigit rest
  | text => some ([], text)

/-- An exponent mark, an optional sign and digits; or nothing. -/
def exponent? : List Char → Option (Option Int × List Char)
  | [] => some (none, [])
  | mark :: rest =>
    if mark = 'e' ∨ mark = 'E' then do
      let (negative, rest) := sign rest
      let (digits, rest) ← digits? Char.isDigit rest
      let size : Int := Decimal.natOfDigits digits
      return (some (if negative then -size else size), rest)
    else some (none, mark :: rest)

/-- Integers have 64 bits and a sign. -/
def integer? (value : Int) : Option Toml :=
  if -9223372036854775808 ≤ value ∧ value ≤ 9223372036854775807 then some (.integer value) else none

/-- A decimal number. With a fraction or an exponent it is a float, and then must
not lie above the range of floats. -/
def decimal? (text : List Char) : Option (Toml × List Char) := do
  let (negative, text) := sign text
  let (whole, text) ← whole? text
  let (fraction, text) ← fraction? text
  let (exponent, rest) ← exponent? text
  if fraction.isEmpty ∧ exponent.isNone then
    let size : Int := Decimal.natOfDigits whole
    return (← integer? (if negative then -size else size), rest)
  else
    let value := Decimal.ofWritten negative whole fraction (exponent.getD 0)
    if value.isInf ∧ 0 < value then none else return (.float value, rest)

def isHexDigit (c : Char) : Bool :=
  (Hex.value? c).isSome

def isOctalDigit (c : Char) : Bool :=
  '0' ≤ c ∧ c ≤ '7'

def isBinaryDigit (c : Char) : Bool :=
  c = '0' ∨ c = '1'

/-- An integer in another base, without sign. -/
def based? (base : Nat) (isDigit : Char → Bool) (text : List Char) : Option (Toml × List Char) := do
  let (digits, rest) ← digits? isDigit text
  let value := digits.foldl (fun value c => value * base + (Hex.value? c).getD 0) 0
  return (← integer? value, rest)

/-- Infinity and the value that is no number, behind their sign. -/
def special? : List Char → Option (Float × List Char)
  | 'i' :: 'n' :: 'f' :: rest => some (1.0 / 0.0, rest)
  | 'n' :: 'a' :: 'n' :: rest => some (0.0 / 0.0, rest)
  | _ => none

def signedSpecial? (text : List Char) : Option (Toml × List Char) :=
  let (negative, text) := sign text
  (special? text).map fun (value, rest) => (.float (if negative then -value else value), rest)

def number? : List Char → Option (Toml × List Char)
  | '0' :: 'x' :: rest => based? 16 isHexDigit rest
  | '0' :: 'o' :: rest => based? 8 isOctalDigit rest
  | '0' :: 'b' :: rest => based? 2 isBinaryDigit rest
  | text => (signedSpecial? text).or (decimal? text)

/-- A number of exactly these digits between two bounds. -/
def within (digits : List Char) (least most : Nat) : Bool :=
  digits.all Char.isDigit ∧ least ≤ Decimal.natOfDigits digits ∧ Decimal.natOfDigits digits ≤ most

def isLeapYear (year : Nat) : Bool :=
  year % 4 = 0 ∧ (year % 100 ≠ 0 ∨ year % 400 = 0)

def daysOfMonth (year month : Nat) : Nat :=
  if month = 2 then if isLeapYear year then 29 else 28
  else if month = 4 ∨ month = 6 ∨ month = 9 ∨ month = 11 then 30
  else 31

/-- A year of four digits, a month and a day of that month. -/
def date? : List Char → Option (List Char)
  | y1 :: y2 :: y3 :: y4 :: '-' :: m1 :: m2 :: '-' :: d1 :: d2 :: rest =>
    let year := Decimal.natOfDigits [y1, y2, y3, y4]
    let month := Decimal.natOfDigits [m1, m2]
    if within [y1, y2, y3, y4] 0 9999 ∧ within [m1, m2] 1 12
        ∧ within [d1, d2] 1 (daysOfMonth year month) then some rest
    else none
  | _ => none

/-- Skips a point with digits behind it. -/
def skipFraction : List Char → List Char
  | '.' :: c :: rest => if c.isDigit then rest.dropWhile Char.isDigit else '.' :: c :: rest
  | text => text

/-- Hours, minutes and seconds; a minute may have a leap second. -/
def time? : List Char → Option (List Char)
  | h1 :: h2 :: ':' :: m1 :: m2 :: ':' :: s1 :: s2 :: rest =>
    if within [h1, h2] 0 23 ∧ within [m1, m2] 0 59 ∧ within [s1, s2] 0 60 then
      some (skipFraction rest)
    else none
  | _ => none

/-- Skips the distance to universal time. -/
def skipOffset : List Char → List Char
  | 'Z' :: rest => rest
  | 'z' :: rest => rest
  | way :: h1 :: h2 :: ':' :: m1 :: m2 :: rest =>
    if (way = '+' ∨ way = '-') ∧ within [h1, h2] 0 23 ∧ within [m1, m2] 0 59 then rest
    else way :: h1 :: h2 :: ':' :: m1 :: m2 :: rest
  | text => text

/-- Skips the time behind a date. -/
def skipTime : List Char → List Char
  | mark :: rest =>
    if mark = 'T' ∨ mark = 't' ∨ mark = ' ' then
      ((time? rest).map skipOffset).getD (mark :: rest)
    else mark :: rest
  | [] => []

/-- A date with or without a time, or a time alone. -/
def moment? (text : List Char) : Option (Toml × List Char) :=
  (((date? text).map skipTime).or (time? text)).map fun rest => (.moment, rest)

end MempoolWatch.Toml

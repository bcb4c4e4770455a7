import MempoolWatch.Hex
import MempoolWatch.Decimal.Scaled

/-! A JSON text as it is written. The tree keeps the members of an object in
their order with repeated names, numbers beyond the range of a float, and literals
whose escapes denote no text, because a reader that skips a member does not
look at these. -/
namespace MempoolWatch.Json

/-- Integers are those written without fraction and exponent that fit in 64 bits,
with a sign or without; every other number is a float. -/
inductive Number
  | integer (value : Int)
  | float (value : Float)

/-- What a written number denotes; nothing when it is beyond the range of a float. -/
abbrev Numeral := Option Number

/-- What a quoted literal denotes; nothing when an escape leaves a surrogate
without its partner. -/
abbrev Literal := Option String

inductive Source
  | null
  | bool (value : Bool)
  | number (numeral : Numeral)
  | string (literal : Literal)
  | array (items : List Source)
  | object (members : List (Literal × Source))

/-- A piece of a quoted literal: a character, or a 16-bit unit given by an escape. -/
inductive Piece
  | char (c : Char)
  | unit (value : Nat)
deriving DecidableEq

def isBlank (c : Char) : Bool :=
  c = ' ' ∨ c = '\n' ∨ c = '\t' ∨ c = '\r'

def skipBlanks (text : List Char) : List Char :=
  text.dropWhile isBlank

/-- The longest run of digits at the front, and the rest. -/
def spanDigits (text : List Char) : List Char × List Char :=
  (text.takeWhile Char.isDigit, text.dropWhile Char.isDigit)

def isHigh (unit : Nat) : Bool :=
  0xD800 ≤ unit ∧ unit ≤ 0xDBFF

def isLow (unit : Nat) : Bool :=
  0xDC00 ≤ unit ∧ unit ≤ 0xDFFF

/-- The characters of a run of pieces. A high surrogate must be followed by a low
one, and a low one must follow a high one. -/
def joinPieces : List Piece → Option (List Char)
  | [] => some []
  | .char c :: rest => do return c :: (← joinPieces rest)
  | .unit high :: .unit low :: rest =>
    if isHigh high then
      if isLow low then do
        return Char.ofNat (0x10000 + (high - 0xD800) * 0x400 + (low - 0xDC00)) :: (← joinPieces rest)
      else none
    else if isLow high then none
    else do return Char.ofNat high :: (← joinPieces (.unit low :: rest))
  | .unit lone :: rest =>
    if isHigh lone ∨ isLow lone then none
    else do return Char.ofNat lone :: (← joinPieces rest)

/-- The character of a two-character escape. -/
def escaped? : Char → Option Char
  | '"' => some '"'
  | '\\' => some '\\'
  | '/' => some '/'
  | 'b' => some '\x08'
  | 'f' => some '\x0c'
  | 'n' => some '\n'
  | 'r' => some '\r'
  | 't' => some '\t'
  | _ => none

/-- Four hexadecimal digits. -/
def unitOfDigits? (a b c d : Char) : Option Nat := do
  return (((← Hex.value? a) * 16 + (← Hex.value? b)) * 16 + (← Hex.value? c)) * 16 + (← Hex.value? d)

/-- Reads behind the opening quote up to and with the closing one. Characters below
the blank must be escaped. -/
def pieces? : List Char → Option (List Piece × List Char)
  | '"' :: rest => some ([], rest)
  | '\\' :: 'u' :: a :: b :: c :: d :: rest => do
    let unit ← unitOfDigits? a b c d
    let (pieces, rest) ← pieces? rest
    return (.unit unit :: pieces, rest)
  | '\\' :: e :: rest => do
    let c ← escaped? e
    let (pieces, rest) ← pieces? rest
    return (.char c :: pieces, rest)
  | c :: rest =>
    if c = '\\' ∨ c < ' ' then none
    else do
      let (pieces, rest) ← pieces? rest
      return (.char c :: pieces, rest)
  | [] => none

/-- Reads a literal behind its opening quote. -/
def literal? (text : List Char) : Option (Literal × List Char) := do
  let (pieces, rest) ← pieces? text
  return ((joinPieces pieces).map String.ofList, rest)

/-- The integer part: a zero alone, or digits that start with another one. -/
def integerPart? (text : List Char) : Option (List Char × List Char) :=
  match spanDigits text with
  | ([], _) => none
  | (['0'], rest) => some (['0'], rest)
  | ('0' :: _ :: _, _) => none
  | (digits, rest) => some (digits, rest)

/-- A point and at least one digit, or nothing. -/
def fractionPart? : List Char → Option (List Char × List Char)
  | '.' :: rest =>
    match spanDigits rest with
    | ([], _) => none
    | (digits, rest) => some (digits, rest)
  | text => some ([], text)

/-- The digits of an exponent behind its sign. -/
def exponentDigits? (negative : Bool) (text : List Char) : Option (Option Int × List Char) :=
  match spanDigits text with
  | ([], _) => none
  | (digits, rest) =>
    let size : Int := Decimal.natOfDigits digits
    some (some (if negative then -size else size), rest)

/-- An exponent mark, an optional sign and at least one digit, or nothing. -/
def exponentPart? : List Char → Option (Option Int × List Char)
  | mark :: rest =>
    if mark = 'e' ∨ mark = 'E' then
      match rest with
      | '-' :: rest => exponentDigits? true rest
      | '+' :: rest => exponentDigits? false rest
      | rest => exponentDigits? false rest
    else some (none, mark :: rest)
  | [] => some (none, [])

/-- The number of its written parts. A negative zero is a float. -/
def numeral (negative : Bool) (integer fraction : List Char) (exponent : Option Int) : Numeral :=
  let value := Decimal.natOfDigits integer
  let fits := if negative then 0 < value ∧ value ≤ 9223372036854775808 else value < UInt64.size
  if fraction.isEmpty ∧ exponent.isNone ∧ fits then
    some (.integer (if negative then -value else value))
  else
    (Decimal.ofScientific? integer fraction (exponent.getD 0)).map fun x =>
      .float (if negative then -x else x)

/-- A number behind its sign. -/
def magnitude? (negative : Bool) (text : List Char) : Option (Numeral × List Char) := do
  let (integer, text) ← integerPart? text
  let (fraction, text) ← fractionPart? text
  let (exponent, rest) ← exponentPart? text
  return (numeral negative integer fraction exponent, rest)

def numeral? : List Char → Option (Numeral × List Char)
  | '-' :: rest => magnitude? true rest
  | text => magnitude? false text

mutual

/-- Reads one value. Every step takes a character or goes one level down, so
twice the length of the text is enough fuel. -/
def value? : (fuel : Nat) → List Char → Option (Source × List Char)
  | 0, _ => none
  | fuel + 1, text =>
    match skipBlanks text with
    | 'n' :: 'u' :: 'l' :: 'l' :: rest => some (.null, rest)
    | 't' :: 'r' :: 'u' :: 'e' :: rest => some (.bool true, rest)
    | 'f' :: 'a' :: 'l' :: 's' :: 'e' :: rest => some (.bool false, rest)
    | '"' :: rest => do
      let (literal, rest) ← literal? rest
      return (.string literal, rest)
    | '[' :: rest =>
      match skipBlanks rest with
      | ']' :: rest => some (.array [], rest)
      | rest => do
        let (items, rest) ← items? fuel rest
        return (.array items, rest)
    | '{' :: rest =>
      match skipBlanks rest with
      | '}' :: rest => some (.object [], rest)
      | rest => do
        let (members, rest) ← members? fuel rest
        return (.object members, rest)
    | text => do
      let (numeral, rest) ← numeral? text
      return (.number numeral, rest)

/-- Reads the items of an array up to and with its closing bracket. -/
def items? : (fuel : Nat) → List Char → Option (List Source × List Char)
  | 0, _ => none
  | fuel + 1, text => do
    let (item, rest) ← value? fuel text
    match skipBlanks rest with
    | ']' :: rest => return ([item], rest)
    | ',' :: rest =>
      let (items, rest) ← items? fuel rest
      return (item :: items, rest)
    | _ => none

/-- Reads the members of an object up to and with its closing brace. -/
def members? : (fuel : Nat) → List Char → Option (List (Literal × Source) × List Char)
  | 0, _ => none
  | fuel + 1, text => do
    let '"' :: rest := skipBlanks text | none
    let (name, rest) ← literal? rest
    let ':' :: rest := skipBlanks rest | none
    let (value, rest) ← value? fuel rest
    match skipBlanks rest with
    | '}' :: rest => return ([(name, value)], rest)
    | ',' :: rest =>
      let (members, rest) ← members? fuel rest
      return ((name, value) :: members, rest)
    | _ => none

end

namespace Source

/-- Reads a whole text: one value with blanks around it. -/
def ofChars? (text : List Char) : Option Source := do
  let (source, rest) ← value? (2 * text.length + 2) text
  if (skipBlanks rest).isEmpty then some source else none

def ofText? (text : String) : Option Source :=
  ofChars? text.toList

end Source

end MempoolWatch.Json

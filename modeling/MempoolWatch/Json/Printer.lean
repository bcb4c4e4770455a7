import MempoolWatch.Json.Value
import MempoolWatch.Decimal.Shortest

/-! JSON written without blanks, each object's members in their order. -/
namespace MempoolWatch.Json

/-- A character inside quotes. Quotes, backslashes and the characters below the
blank are escaped, all others stand for themselves. -/
def escape (c : Char) : List Char :=
  if c = '"' then ['\\', '"']
  else if c = '\\' then ['\\', '\\']
  else if c = '\x08' then ['\\', 'b']
  else if c = '\x0c' then ['\\', 'f']
  else if c = '\n' then ['\\', 'n']
  else if c = '\r' then ['\\', 'r']
  else if c = '\t' then ['\\', 't']
  else if c < ' ' then
    ['\\', 'u', '0', '0', Nat.digitChar (c.toNat / 16), Nat.digitChar (c.toNat % 16)]
  else [c]

def quote (text : String) : List Char :=
  '"' :: text.toList.flatMap escape ++ ['"']

/-- Digits with a point, or with an exponent when the value is 10^16 or more or
below 10^-5. A whole number keeps one zero behind its point. -/
def floatDigits (d : Decimal.Digits) : List Char :=
  let digits := Nat.toDigits 10 d.significand
  if -5 < d.point ∧ d.point ≤ 16 then
    if digits.length ≤ d.point then d.positional ++ ['.', '0'] else d.positional
  else
    let mantissa := match digits with
      | [digit] => [digit]
      | digit :: rest => digit :: '.' :: rest
      | [] => []
    mantissa ++ 'e' :: (toString (d.point - 1)).toList

/-- Floats that are no numbers are written as `null`. -/
def floatText (x : Float) : List Char :=
  match Decimal.Shape.ofFloat x with
  | .finite negative m =>
    Decimal.signed negative (if m.significand = 0 then ['0', '.', '0'] else floatDigits m.shortest)
  | _ => ['n', 'u', 'l', 'l']

mutual

def chars : Json → List Char
  | .null => ['n', 'u', 'l', 'l']
  | .bool true => ['t', 'r', 'u', 'e']
  | .bool false => ['f', 'a', 'l', 's', 'e']
  | .integer value => (toString value).toList
  | .float value => floatText value
  | .string text => quote text
  | .array items => '[' :: itemChars items ++ [']']
  | .object members => '{' :: memberChars members ++ ['}']

def itemChars : List Json → List Char
  | [] => []
  | [item] => chars item
  | item :: rest => chars item ++ ',' :: itemChars rest

def memberChars : List (String × Json) → List Char
  | [] => []
  | [(name, value)] => quote name ++ ':' :: chars value
  | (name, value) :: rest => quote name ++ ':' :: chars value ++ ',' :: memberChars rest

end

/-- The text of a value. -/
def text (json : Json) : String :=
  String.ofList json.chars

end MempoolWatch.Json

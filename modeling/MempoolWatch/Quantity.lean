import MempoolWatch.Word

/-! The hexadecimal texts in the answers of a node. A quantity is a number of at
most a given number of digits, an identifier has exactly two digits for each of
its bytes, and data is any number of bytes. Quantities and identifiers may hold
blanks, which count as digits of the length and add nothing to the value. -/
namespace MempoolWatch.Quantity

/-- The bytes of a run of digits, grouped from the right by the length of the
text. Digits that do not fill the last byte are dropped. -/
def bytes? (text : List Char) : Option Bytes := do
  match text.length % 2, ← Hex.digits? text with
  | 1, digit :: rest => return Hex.byteOfDigits 0 digit :: (Hex.pairUp rest).1
  | _, digits => return (Hex.pairUp digits).1

/-- A number of at least one and at most `limit` digits behind an optional `0x`. -/
def nat? (limit : Nat) (text : String) : Option Nat := do
  let digits := Hex.dropMarker text.toList
  if 0 < digits.length ∧ digits.length ≤ limit then return Bytes.toNat (← bytes? digits)
  else none

def word? (text : String) : Option Word :=
  (nat? 64 text).map (BitVec.ofNat 256)

/-- A number below 2^64, such as a block number. -/
def count? (text : String) : Option Nat :=
  nat? 16 text

/-- An identifier behind an optional `0x`. Bytes that blanks leave missing are
zeros on the right. -/
def fixed? (size : Nat) (text : String) : Option (FixedBytes size) := do
  let digits := Hex.dropMarker text.toList
  if digits.length = 2 * size then return .padRight size (← bytes? digits) else none

/-- Bytes behind an optional `0x` or `0X`: digits in pairs and nothing else. -/
def data? (text : String) : Option Bytes :=
  match text.toList with
  | '0' :: 'x' :: digits => Hex.decode digits
  | '0' :: 'X' :: digits => Hex.decode digits
  | digits => Hex.decode digits

end MempoolWatch.Quantity

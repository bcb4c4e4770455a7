import MempoolWatch.Hex

/-! The text forms of hashes, addresses and selectors. A reader accepts up to
two leading `0x` and blanks between digits, and wants exactly as many bytes as
the identifier has. -/
namespace MempoolWatch.FixedBytes

/-- `0x` and all digits in lower case. -/
def text {size : Nat} (x : FixedBytes size) : String :=
  Hex.marked x.bytes

/-- Reads digits in pairs; a last digit without a partner, another character or
another number of bytes is refused. -/
def ofDigits? (size : Nat) (digits : List Char) : Option (FixedBytes size) := do
  match Hex.pairUp (← Hex.digits? digits) with
  | (bytes, none) => ofBytes? size bytes
  | (_, some _) => none

/-- Reads an identifier written by an operator or a node. -/
def ofText? (size : Nat) (text : String) : Option (FixedBytes size) :=
  ofDigits? size (Hex.dropMarker (Hex.dropMarker text.toList))

end MempoolWatch.FixedBytes

import MempoolWatch.Bytes

/-! Hexadecimal text. Writing gives two lower-case digits for each byte. There
are two readings: the strict one takes digits and nothing else, the lenient one
passes over blanks between digits. -/
namespace MempoolWatch.Hex

/-- The value of a digit of either case. -/
def value? (c : Char) : Option Nat :=
  if '0' ≤ c ∧ c ≤ '9' then some (c.toNat - '0'.toNat)
  else if 'a' ≤ c ∧ c ≤ 'f' then some (c.toNat - 'a'.toNat + 10)
  else if 'A' ≤ c ∧ c ≤ 'F' then some (c.toNat - 'A'.toNat + 10)
  else none

/-- The characters that the lenient reading passes over. -/
def isBlank (c : Char) : Bool :=
  c = ' ' ∨ c = '\t' ∨ c = '\r' ∨ c = '\n'

def digitsOfByte (byte : UInt8) : List Char :=
  [Nat.digitChar (byte.toNat / 16), Nat.digitChar (byte.toNat % 16)]

/-- Two lower-case digits for each byte. -/
def encode (bytes : Bytes) : List Char :=
  bytes.flatMap digitsOfByte

def byteOfDigits (high low : Nat) : UInt8 :=
  UInt8.ofNat (high * 16 + low)

/-- The strict reading: an even number of digits and nothing else. -/
def decode : List Char → Option Bytes
  | [] => some []
  | [_] => none
  | high :: low :: rest => do
    let h ← value? high
    let l ← value? low
    let bytes ← decode rest
    return byteOfDigits h l :: bytes

/-- The digits of a text with its blanks left out; `none` at any other character. -/
def digits? : List Char → Option (List Nat)
  | [] => some []
  | c :: rest =>
    if isBlank c then digits? rest
    else do
      let digit ← value? c
      let digits ← digits? rest
      return digit :: digits

/-- Joins digits two by two; a last digit without a partner is kept apart. -/
def pairUp : List Nat → Bytes × Option Nat
  | [] => ([], none)
  | [lone] => ([], some lone)
  | high :: low :: rest =>
    let (bytes, lone) := pairUp rest
    (byteOfDigits high low :: bytes, lone)

/-- The text without one leading `0x`. -/
def dropMarker : List Char → List Char
  | '0' :: 'x' :: rest => rest
  | text => text

/-- `0x` and two lower-case digits for each byte. -/
def marked (bytes : Bytes) : String :=
  String.ofList ('0' :: 'x' :: encode bytes)

theorem value?_digitChar : ∀ digit : Fin 16, value? (Nat.digitChar digit) = some digit.val := by
  decide

theorem decode_digitsOfByte (byte : UInt8) (rest : List Char) :
    decode (digitsOfByte byte ++ rest) = (decode rest).map (byte :: ·) := by
  have high := value?_digitChar ⟨byte.toNat / 16, by have := byte.toNat_lt; omega⟩
  have low := value?_digitChar ⟨byte.toNat % 16, by omega⟩
  have joined : byteOfDigits (byte.toNat / 16) (byte.toNat % 16) = byte := by
    rw [byteOfDigits, Nat.div_add_mod' , UInt8.ofNat_toNat]
  simp only at high low
  simp only [digitsOfByte, List.cons_append, List.nil_append, decode, high, low]
  cases decode rest with
  | none => rfl
  | some bytes => exact congrArg (fun first => some (first :: bytes)) joined

/-- The strict reading undoes the writing. -/
theorem decode_encode (bytes : Bytes) : decode (encode bytes) = some bytes := by
  induction bytes with
  | nil => rfl
  | cons byte rest ih =>
    show decode (digitsOfByte byte ++ encode rest) = _
    rw [decode_digitsOfByte, ih]
    rfl

end MempoolWatch.Hex

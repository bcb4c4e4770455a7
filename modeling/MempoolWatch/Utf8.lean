import MempoolWatch.Bytes

/-! Text as UTF-8. Reading goes through the bytes from left to right; bytes that
are no character are taken in the longest runs that could still have begun one. -/
namespace MempoolWatch.Utf8

/-- The bytes of a text. -/
def encode (text : String) : Bytes :=
  text.toUTF8.data.toList

/-- What a first byte of a longer sequence announces: how many bytes follow, the
bounds of the next one, and the bits that it gives. -/
structure Lead where
  following : Nat
  least : UInt8
  most : UInt8
  bits : Nat

/-- Sequences of two to four bytes. The bounds leave out longer spellings of short
sequences, surrogates and values beyond the last code point. -/
def lead? (byte : UInt8) : Option Lead :=
  if byte < 0xC2 then none
  else if byte < 0xE0 then some ⟨1, 0x80, 0xBF, byte.toNat % 32⟩
  else if byte = 0xE0 then some ⟨2, 0xA0, 0xBF, 0⟩
  else if byte = 0xED then some ⟨2, 0x80, 0x9F, 13⟩
  else if byte < 0xF0 then some ⟨2, 0x80, 0xBF, byte.toNat % 16⟩
  else if byte = 0xF0 then some ⟨3, 0x90, 0xBF, 0⟩
  else if byte < 0xF4 then some ⟨3, 0x80, 0xBF, byte.toNat % 8⟩
  else if byte = 0xF4 then some ⟨3, 0x80, 0x8F, 4⟩
  else none

/-- Reads the rest of a sequence; the value is missing when a byte does not fit. -/
def following : (count : Nat) → (least most : UInt8) → (bits : Nat) → Bytes → Option Nat × Bytes
  | 0, _, _, bits, rest => (some bits, rest)
  | _ + 1, _, _, _, [] => (none, [])
  | count + 1, least, most, bits, byte :: rest =>
    if least ≤ byte ∧ byte ≤ most then
      following count 0x80 0xBF (bits * 64 + byte.toNat % 64) rest
    else (none, byte :: rest)

/-- The characters of a run of bytes, with nothing in the place of bytes that are no
character. Every step takes a byte, so their number is enough fuel. -/
def pieces : (fuel : Nat) → Bytes → List (Option Char)
  | 0, _ => []
  | _ + 1, [] => []
  | fuel + 1, byte :: rest =>
    if byte < 0x80 then some (Char.ofNat byte.toNat) :: pieces fuel rest
    else match lead? byte with
      | none => none :: pieces fuel rest
      | some lead =>
        let (point, rest) := following lead.following lead.least lead.most lead.bits rest
        point.map Char.ofNat :: pieces fuel rest

/-- The text of bytes that are UTF-8 throughout. -/
def decode? (bytes : Bytes) : Option String :=
  ((pieces bytes.length bytes).mapM id).map String.ofList

/-- The text with U+FFFD in the place of bytes that are no character. -/
def decodeLossy (bytes : Bytes) : String :=
  String.ofList ((pieces bytes.length bytes).map (·.getD '\uFFFD'))

/-- The text without a byte order mark in front. -/
def dropOrderMark (text : String) : String :=
  match text.toList with
  | '\uFEFF' :: rest => String.ofList rest
  | _ => text

end MempoolWatch.Utf8

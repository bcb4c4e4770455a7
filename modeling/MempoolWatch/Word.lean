import MempoolWatch.Hex

/-! Unsigned 256-bit words: amounts in wei, gas prices and the integers of
calldata. -/
namespace MempoolWatch

abbrev Word := BitVec 256

namespace Word

/-- The word whose big-endian bytes these are; of more than 32 bytes the last count. -/
def ofBytes (bytes : Bytes) : Word :=
  BitVec.ofNat 256 bytes.toNat

/-- The 32 big-endian bytes. -/
def toBytes (word : Word) : Bytes :=
  Bytes.ofNat 32 word.toNat

def max (a b : Word) : Word :=
  if a.toNat ≤ b.toNat then b else a

/-- `0x` and the digits without leading zeros; zero is `0x0`. -/
def hex (word : Word) : String :=
  String.ofList ('0' :: 'x' :: Nat.toDigits 16 word.toNat)

/-- The value as a float, accumulated byte by byte from the most significant one. -/
def toFloat (word : Word) : Float :=
  word.toBytes.foldl (fun value byte => value * 256 + byte.toUInt64.toFloat) 0

/-- The smallest unit of the currency is one part in 10^18 of the native unit. -/
def weiPerNative : Float := 1e18

/-- An amount in wei in native units. -/
def toNative (wei : Word) : Float :=
  wei.toFloat / weiPerNative

/-- The price in native units of `gasLimit` units of gas at a price in wei. -/
def gasCost (price : Word) (gasLimit : UInt64) : Float :=
  price.toFloat * gasLimit.toFloat / weiPerNative

/-- Nothing is lost in the bytes. -/
theorem ofBytes_toBytes (word : Word) : ofBytes word.toBytes = word := by
  apply BitVec.eq_of_toNat_eq
  rw [ofBytes, toBytes, Bytes.toNat_ofNat, BitVec.toNat_ofNat]
  have := word.isLt
  show word.toNat % 256 ^ 32 % 2 ^ 256 = word.toNat
  rw [show (256 : Nat) ^ 32 = 2 ^ 256 by decide, Nat.mod_mod, Nat.mod_eq_of_lt this]

end Word

end MempoolWatch

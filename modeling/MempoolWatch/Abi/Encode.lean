import MempoolWatch.Abi.Param

/-! The standard layout of call arguments: the heads one behind the other, then
the tails. The head of a dynamic argument is the offset of its tail, counted from
the start of the heads. -/
namespace MempoolWatch.Abi

def wordOf (value : Nat) : Bytes :=
  Bytes.ofNat 32 value

/-- Bytes filled up with zeros to a multiple of 32. -/
def padded (bytes : Bytes) : Bytes :=
  bytes ++ List.replicate ((32 - bytes.length % 32) % 32) 0

/-- An encoded argument: in place, or behind an offset. -/
inductive Part
  | static (bytes : Bytes)
  | dynamic (bytes : Bytes)

namespace Part

def ofEncoding (isDynamic : Bool) (bytes : Bytes) : Part :=
  if isDynamic then dynamic bytes else static bytes

def headSize : Part → Nat
  | static bytes => bytes.length
  | dynamic _ => 32

def head (offset : Nat) : Part → Bytes
  | static bytes => bytes
  | dynamic _ => wordOf offset

def tail : Part → Bytes
  | static _ => []
  | dynamic bytes => bytes

end Part

/-- The heads of a list of parts whose first tail starts at `offset`. -/
def heads (offset : Nat) : List Part → Bytes
  | [] => []
  | part :: rest => part.head offset ++ heads (offset + part.tail.length) rest

def headsSize : List Part → Nat
  | [] => 0
  | part :: rest => part.headSize + headsSize rest

def joinParts (parts : List Part) : Bytes :=
  heads (headsSize parts) parts ++ parts.flatMap Part.tail

mutual

def Value.isDynamic : Value → Bool
  | .bytes _ | .array _ => true
  | .tuple fields => anyDynamic fields
  | _ => false

def anyDynamic : List Value → Bool
  | [] => false
  | value :: rest => value.isDynamic || anyDynamic rest

end

mutual

/-- The encoding of one value without the offset that may lead to it. -/
def Value.encode : Value → Bytes
  | .uint word => word.toBytes
  | .int word => word.toBytes
  | .bool value => wordOf value.toNat
  | .address value => List.replicate 12 0 ++ value.bytes
  | .bytes value => wordOf value.length ++ padded value
  | .array items => wordOf items.length ++ joinParts (parts items)
  | .tuple fields => joinParts (parts fields)

def parts : List Value → List Part
  | [] => []
  | value :: rest => .ofEncoding value.isDynamic value.encode :: parts rest

end

def Value.part (value : Value) : Part :=
  .ofEncoding value.isDynamic value.encode

/-- The arguments of a call. -/
def encode (values : List Value) : Bytes :=
  joinParts (parts values)

end MempoolWatch.Abi

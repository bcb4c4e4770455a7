import MempoolWatch.Abi.Param

/-! Reading call arguments. The reader is lenient: bytes behind the last argument
are passed over, integers may exceed their type, the upper bytes of an address
are not looked at, and offsets may point anywhere inside the data. -/
namespace MempoolWatch.Abi

/-- The 32 bytes from a position on. -/
def wordAt? (data : Bytes) (position : Nat) : Option Bytes :=
  let word := (data.drop position).take 32
  if word.length = 32 then some word else none

/-- A word that is an offset or a length: all but its last four bytes are zero. -/
def offsetAt? (data : Bytes) (position : Nat) : Option Nat := do
  let word ← wordAt? data position
  if (word.take 28).all (· = 0) then return Bytes.toNat (word.drop 28) else none

/-- A word that is a truth value: all but its last byte are zero, and only one
means true. -/
def boolAt? (data : Bytes) (position : Nat) : Option Bool := do
  let word ← wordAt? data position
  if (word.take 31).all (· = 0) then return word.drop 31 = [1] else none

/-- `length` bytes from a position on. -/
def sliceAt? (data : Bytes) (position length : Nat) : Option Bytes :=
  if position + length ≤ data.length then some ((data.drop position).take length) else none

/-- Reads `count` items one behind the other. -/
def repeatRead (read : Nat → Option (Value × Nat)) :
    (count position : Nat) → Option (List Value × Nat)
  | 0, position => some ([], position)
  | count + 1, position => do
    let (value, position) ← read position
    let (values, position) ← repeatRead read count position
    return (value :: values, position)

mutual

/-- Reads one argument; the second part is the position behind its head. -/
def decodeAt (data : Bytes) (position : Nat) : Param → Option (Value × Nat)
  | .uint _ => do
    return (.uint (.ofBytes (← wordAt? data position)), position + 32)
  | .int _ => do
    return (.int (.ofBytes (← wordAt? data position)), position + 32)
  | .bool => do
    return (.bool (← boolAt? data position), position + 32)
  | .address => do
    let word ← wordAt? data position
    return (.address (.padRight 20 (word.drop 12)), position + 32)
  | .bytes => do
    let start ← offsetAt? data position
    let length ← offsetAt? data start
    return (.bytes (← sliceAt? data (start + 32) length), position + 32)
  | .array item => do
    let start ← offsetAt? data position
    let count ← offsetAt? data start
    let tail := data.drop (start + 32)
    let (items, _) ← repeatRead (fun position => decodeAt tail position item) count 0
    return (.array items, position + 32)
  | .tuple fields =>
    if (Param.tuple fields).isDynamic then do
      let start ← offsetAt? data position
      if start ≤ data.length then
        let (values, _) ← decodeFields (data.drop start) 0 fields
        return (.tuple values, position + 32)
      else none
    else do
      let (values, position) ← decodeFields data position fields
      return (.tuple values, position)

/-- Reads arguments whose heads stand one behind the other. -/
def decodeFields (data : Bytes) (position : Nat) : List Param → Option (List Value × Nat)
  | [] => some ([], position)
  | param :: rest => do
    let (value, position) ← decodeAt data position param
    let (values, position) ← decodeFields data position rest
    return (value :: values, position)

end

/-- Reads the arguments of a call. Without data there are no arguments to read. -/
def decode (params : List Param) (data : Bytes) : Option (List Value) :=
  if data.isEmpty ∧ ¬ params.isEmpty then none
  else (decodeFields data 0 params).map Prod.fst

end MempoolWatch.Abi

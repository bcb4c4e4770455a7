import MempoolWatch.Word

/-! Parameter types of contract calls and the values they take. -/
namespace MempoolWatch.Abi

inductive Param
  | uint (bits : Nat)
  | int (bits : Nat)
  | bool
  | address
  | bytes
  | array (item : Param)
  | tuple (fields : List Param)

inductive Value
  | uint (word : Word)
  | int (word : Word)
  | bool (value : Bool)
  | address (value : Address)
  | bytes (value : Bytes)
  | array (items : List Value)
  | tuple (fields : List Value)

namespace Param

mutual

/-- The name in a function signature. -/
def name : Param → String
  | .uint bits => "uint" ++ toString bits
  | .int bits => "int" ++ toString bits
  | .bool => "bool"
  | .address => "address"
  | .bytes => "bytes"
  | .array item => item.name ++ "[]"
  | .tuple fields => "(" ++ ",".intercalate (names fields) ++ ")"

def names : List Param → List String
  | [] => []
  | param :: rest => param.name :: names rest

end

mutual

/-- Values of a dynamic type stand behind an offset. -/
def isDynamic : Param → Bool
  | .bytes | .array _ => true
  | .tuple fields => anyDynamic fields
  | _ => false

def anyDynamic : List Param → Bool
  | [] => false
  | param :: rest => param.isDynamic || anyDynamic rest

end

end Param

mutual

/-- The value has the shape of the type. Integers may be any word. -/
inductive HasType : Value → Param → Prop
  | uint (word : Word) (bits : Nat) : HasType (.uint word) (.uint bits)
  | int (word : Word) (bits : Nat) : HasType (.int word) (.int bits)
  | bool (value : Bool) : HasType (.bool value) .bool
  | address (value : Address) : HasType (.address value) .address
  | bytes (value : Bytes) : HasType (.bytes value) .bytes
  | array {items : List Value} {item : Param} (each : AllHaveType items item) :
      HasType (.array items) (.array item)
  | tuple {values : List Value} {fields : List Param} (each : HaveTypes values fields) :
      HasType (.tuple values) (.tuple fields)

/-- Every value has the one type. -/
inductive AllHaveType : List Value → Param → Prop
  | nil (item : Param) : AllHaveType [] item
  | cons {value : Value} {rest : List Value} {item : Param}
      (first : HasType value item) (others : AllHaveType rest item) :
      AllHaveType (value :: rest) item

/-- The values have the types one by one. -/
inductive HaveTypes : List Value → List Param → Prop
  | nil : HaveTypes [] []
  | cons {value : Value} {param : Param} {values : List Value} {params : List Param}
      (first : HasType value param) (others : HaveTypes values params) :
      HaveTypes (value :: values) (param :: params)

end

end MempoolWatch.Abi

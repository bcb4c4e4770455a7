import MempoolWatch.Json.Source
import MempoolWatch.Named

/-! JSON values. An object has each name once, in the order of the names; of a
repeated name the last value counts. Texts nested deeper than the limit, numbers
beyond the range of a float and literals that denote no text have no value. -/
namespace MempoolWatch

inductive Json
  | null
  | bool (value : Bool)
  | integer (value : Int)
  | float (value : Float)
  | string (text : String)
  | array (items : List Json)
  | object (members : List (String × Json))
deriving Inhabited

namespace Json

/-- An integer as the float nearest to it. -/
def Number.toFloat : Number → Float
  | integer value => Decimal.toFloat (value < 0) value.natAbs 0
  | float value => value

/-- The natural below 2^64. -/
def Number.natural? : Number → Option Nat
  | integer value => if 0 ≤ value then some value.toNat else none
  | float _ => none

def Number.json : Number → Json
  | integer value => .integer value
  | float value => .float value

/-- Arrays and objects may be nested this deep. -/
def depthLimit : Nat := 127

mutual

/-- The value of a source with room for `room` more levels. -/
def Source.valueWithin? (room : Nat) : Source → Option Json
  | .null => some .null
  | .bool value => some (.bool value)
  | .number numeral => numeral.map Number.json
  | .string literal => literal.map .string
  | .array items =>
    match room with
    | 0 => none
    | room + 1 => (Source.valuesWithin? room items).map .array
  | .object members =>
    match room with
    | 0 => none
    | room + 1 => (Source.membersWithin? room members).map (.object ∘ Named.ofList)

def Source.valuesWithin? (room : Nat) : List Source → Option (List Json)
  | [] => some []
  | item :: rest => do
    let value ← Source.valueWithin? room item
    let values ← Source.valuesWithin? room rest
    return value :: values

def Source.membersWithin? (room : Nat) : List (Literal × Source) → Option (List (String × Json))
  | [] => some []
  | (name, item) :: rest => do
    let name ← name
    let value ← Source.valueWithin? room item
    let members ← Source.membersWithin? room rest
    return (name, value) :: members

end

/-- The value of a text. -/
def ofText? (text : String) : Option Json := do
  Source.valueWithin? depthLimit (← Source.ofText? text)

/-- The object with these members. -/
def record (members : List (String × Json)) : Json :=
  .object (Named.ofList members)

/-- The member of an object; values of other kinds have no members. -/
def get? (json : Json) (name : String) : Option Json :=
  match json with
  | .object members => Named.get? members name
  | _ => none

def string? : Json → Option String
  | .string text => some text
  | _ => none

/-- A natural below 2^64 written without fraction and exponent. -/
def natural? : Json → Option Nat
  | .integer value => if 0 ≤ value then some value.toNat else none
  | _ => none

/-- Any number as a float. -/
def float? : Json → Option Float
  | .integer value => some (Number.integer value).toFloat
  | .float value => some value
  | _ => none

def array? : Json → Option (List Json)
  | .array items => some items
  | _ => none

def bool? : Json → Option Bool
  | .bool value => some value
  | _ => none

def isNull : Json → Bool
  | .null => true
  | _ => false

end Json

end MempoolWatch

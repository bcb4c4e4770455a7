import MempoolWatch.Json.Value

/-! Records and names read from a JSON source. A record is an object, or the list
of its fields in their declared order. Members with other names are passed over
unread; a field given twice is refused. -/
namespace MempoolWatch.Json

namespace Source

/-- The fields of a record by name. A list may be shorter than the record, never
longer. -/
def record? (names : List String) : Source → Option (String → Option Source)
  | .object members => do
    let members ← members.mapM fun (name, value) => name.map (·, value)
    if names.all fun name => (members.filter (·.1 = name)).length ≤ 1 then
      return fun name => List.lookup name members
    else none
  | .array items =>
    if items.length ≤ names.length then some fun name => List.lookup name (names.zip items)
    else none
  | _ => none

/-- One of a fixed set of names: its literal, or an object with it as the only
member and `null` behind it. -/
def choice? : Source → Option String
  | .string literal => literal
  | .object [(name, .null)] => name
  | _ => none

def string? : Source → Option String
  | .string literal => literal
  | _ => none

/-- A natural below 2^64, written without fraction and exponent. -/
def natural? : Source → Option Nat
  | .number numeral => numeral.bind Number.natural?
  | _ => none

/-- Any number in the range of a float. -/
def float? : Source → Option Float
  | .number numeral => numeral.map Number.toFloat
  | _ => none

/-- `null` is an absent value, everything else is read. -/
def nullable? {α : Type} (read : Source → Option α) : Source → Option (Option α)
  | .null => some none
  | source => (read source).map some

end Source

/-- A field that must be there. -/
def required? {α : Type} (field : Option Source) (read : Source → Option α) : Option α :=
  field.bind read

/-- A field with a value of its own when it is missing. -/
def optional? {α : Type} (field : Option Source) (default : α) (read : Source → Option α) :
    Option α :=
  match field with
  | none => some default
  | some source => read source

mutual

/-- The source that denotes a value. -/
def source : Json → Source
  | .null => .null
  | .bool value => .bool value
  | .integer value => .number (some (.integer value))
  | .float value => .number (some (.float value))
  | .string text => .string (some text)
  | .array items => .array (sources items)
  | .object members => .object (memberSources members)

def sources : List Json → List Source
  | [] => []
  | item :: rest => item.source :: sources rest

def memberSources : List (String × Json) → List (Literal × Source)
  | [] => []
  | (name, value) :: rest => (some name, value.source) :: memberSources rest

end

end MempoolWatch.Json

import MempoolWatch.Named
import MempoolWatch.Decimal.Reading

/-! Values of TOML documents. Dates and times are told apart from the other kinds;
no parameter takes one, so they carry nothing. -/
namespace MempoolWatch

inductive Toml
  | string (text : String)
  | integer (value : Int)
  | float (value : Float)
  | bool (value : Bool)
  | moment
  | array (items : List Toml)
  | table (members : List (String × Toml))
deriving Inhabited

namespace Toml

def string? : Toml → Option String
  | string text => some text
  | _ => none

/-- A float, or an integer as the float nearest to it. -/
def float? : Toml → Option Float
  | float value => some value
  | integer value => some (Decimal.toFloat (value < 0) value.natAbs 0)
  | _ => none

/-- An integer that is not negative. -/
def natural? : Toml → Option Nat
  | integer value => if 0 ≤ value then some value.toNat else none
  | _ => none

end Toml

end MempoolWatch

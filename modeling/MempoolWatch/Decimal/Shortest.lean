import MempoolWatch.Decimal.Binary

/-! The fewest decimal digits that read back to a float, and among those the
digits nearest to its value. The search is exact: for each number of digits the
two neighbours of the value on that decimal grid are tested against the interval
of reals that round to the float. -/
namespace MempoolWatch.Decimal

/-- The number `0.d₁d₂…dₙ * 10 ^ point` for the digits of `significand`. -/
structure Digits where
  significand : Nat
  point : Int
deriving DecidableEq

/-- A fraction scaled by a power of ten. -/
def scaleTen (numerator denominator : Nat) (power : Int) : Nat × Nat :=
  if power < 0 then (numerator, denominator * Nat.pow 10 power.natAbs)
  else (numerator * Nat.pow 10 power.toNat, denominator)

/-- Whether the decimal `candidate * 10 ^ power` rounds to the magnitude: it lies
between the midpoints to the neighbours, or on one when the significand is even. -/
def Magnitude.readsBack (m : Magnitude) (candidate : Nat) (power : Int) : Bool :=
  -- All three are counted in quarters of the gap above the magnitude.
  let (c, unit) := scaleTen candidate 1 power
  let (gap, per) :=
    if m.exponent < 0 then (1, Nat.pow 2 m.exponent.natAbs) else (Nat.pow 2 m.exponent.toNat, 1)
  let value := 4 * c * per
  let low := (4 * m.significand - if m.narrowBelow then 1 else 2) * gap * unit
  let high := (4 * m.significand + 2) * gap * unit
  if m.significand % 2 = 0 then low ≤ value ∧ value ≤ high
  else low < value ∧ value < high

/-- The least `point` with `numerator / denominator < 10 ^ point`, looked for
upwards from a lower bound. -/
def leastPoint (numerator denominator : Nat) : (fuel : Nat) → (point : Int) → Int
  | 0, point => point
  | fuel + 1, point =>
    let (n, d) := scaleTen numerator denominator (-point)
    if n < d then point else leastPoint numerator denominator fuel (point + 1)

/-- The two neighbours of the value on the grid of `count` digits, the nearer one
first; of two equally near ones the larger comes first. -/
def neighbours (numerator denominator : Nat) (power : Int) : List Nat :=
  let (n, d) := scaleTen numerator denominator (-power)
  let floor := n / d
  if 2 * (n % d) < d then [floor, floor + 1] else [floor + 1, floor]

def search (m : Magnitude) (numerator denominator : Nat) (point : Int) :
    (fuel count : Nat) → Option (Nat × Int)
  | 0, _ => none
  | fuel + 1, count =>
    let power := point - count
    match (neighbours numerator denominator power).find? (m.readsBack · power) with
    | some candidate => some (candidate, power)
    | none => search m numerator denominator point fuel (count + 1)

/-- Moves trailing zeros of a positive number into the power of ten. -/
def stripZeros : (fuel : Nat) → Nat → Int → Nat × Int
  | 0, value, power => (value, power)
  | fuel + 1, value, power =>
    if value % 10 = 0 then stripZeros fuel (value / 10) (power + 1) else (value, power)

/-- The shortest digits of a positive magnitude. Seventeen digits always read
back, so the search is over by then. -/
def Magnitude.shortest (m : Magnitude) : Digits :=
  let (numerator, denominator) := m.fraction
  let estimate : Int := ((Nat.log2 m.significand : Int) + m.exponent) * 30103 / 100000 - 2
  let point := leastPoint numerator denominator 8 estimate
  let (value, power) := (search m numerator denominator point 17 1).getD (0, 0)
  let (significand, power) := stripZeros 20 value power
  ⟨significand, (Nat.toDigits 10 significand).length + power⟩

/-- Digits written without an exponent and without a point behind a whole number. -/
def Digits.positional (d : Digits) : List Char :=
  let digits := Nat.toDigits 10 d.significand
  if d.point ≤ 0 then '0' :: '.' :: List.replicate d.point.natAbs '0' ++ digits
  else
    let whole := d.point.toNat
    if digits.length ≤ whole then digits ++ List.replicate (whole - digits.length) '0'
    else digits.take whole ++ '.' :: digits.drop whole

/-- A float as the fewest digits that identify it, always positional. -/
def shortest (x : Float) : String :=
  match Shape.ofFloat x with
  | .notANumber => "NaN"
  | .infinite negative => String.ofList (signed negative ['i', 'n', 'f'])
  | .finite negative m =>
    String.ofList (signed negative (if m.significand = 0 then ['0'] else m.shortest.positional))

end MempoolWatch.Decimal

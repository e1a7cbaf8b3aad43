import RecordFormula.Number.Binary64

/-! # Shortest digits

The digits shown for a double are the fewest that read back as it, and of those the nearest to it. A
decimal reads back if it lies between the midpoints to the neighbouring doubles, the midpoints
included when the significand is even. The search goes from coarse decimal
grids to fine ones and looks at the two points of each grid next to the value.
-/

namespace RecordFormula.Number

attribute [local instance] natPow

/-- The reals that read back as a value, as whole numbers over one `unit`. -/
structure RoundingInterval where
  value : Nat
  low : Nat
  high : Nat
  unit : Nat
  closed : Bool
deriving DecidableEq, Repr

/-- The interval of a positive finite double. Below a power of two the gap is half as wide, save at
the smallest exponent. -/
def RoundingInterval.ofFloat (x : Float) : RoundingInterval :=
  let m := significand x
  let e := exponent x - 2
  let below := if m = 2 ^ fractionBits ∧ 1 < exponentField x then 1 else 2
  let factor := 2 ^ e.toNat
  { value := 4 * m * factor
    low := (4 * m - below) * factor
    high := (4 * m + 2) * factor
    unit := 2 ^ (-e).toNat
    closed := m % 2 == 0 }

/-- The same interval counted in steps of `10 ^ step`. -/
def RoundingInterval.inSteps (r : RoundingInterval) (step : Int) : RoundingInterval :=
  let factor := 10 ^ (-step).toNat
  { value := r.value * factor
    low := r.low * factor
    high := r.high * factor
    unit := r.unit * 10 ^ step.toNat
    closed := r.closed }

/-- Whether a whole number lies in the interval. -/
def RoundingInterval.has (r : RoundingInterval) (n : Nat) : Bool :=
  if r.closed then decide (r.low ≤ n * r.unit) && decide (n * r.unit ≤ r.high)
  else decide (r.low < n * r.unit) && decide (n * r.unit < r.high)

/-- The whole number in the interval that is nearest to the value; a tie goes up. -/
def RoundingInterval.nearest? (r : RoundingInterval) : Option Nat :=
  let floor := r.value / r.unit
  let upward := decide (r.unit ≤ 2 * (r.value % r.unit))
  if r.has floor && r.has (floor + 1) then some (if upward then floor + 1 else floor)
  else if r.has floor then some floor
  else if r.has (floor + 1) then some (floor + 1)
  else none

/-- The exponent `p` with `10 ^ (p - 1) ≤ value < 10 ^ p`. No positive double is below `10 ^ -400`,
so a value scaled by `10 ^ 400` has as many whole digits as `p + 400`. -/
def RoundingInterval.magnitude (r : RoundingInterval) : Int :=
  ((Nat.toDigits 10 (r.value * 10 ^ (400 : Nat) / r.unit)).length : Int) - 400

/-- A decimal `digits · 10 ^ step`. -/
structure ShortDecimal where
  digits : Nat
  step : Int
deriving DecidableEq, Repr

/-- The shortest decimal that reads back as a positive finite double. The first grid holds only the
power of ten above the value, the next ones have one more digit each. Seventeen digits are always
enough; the default is for totality. -/
def shortest (x : Float) : ShortDecimal :=
  let r := RoundingInterval.ofFloat x
  let p := r.magnitude
  let candidate? (count : Nat) : Option ShortDecimal :=
    (r.inSteps (p - count)).nearest?.map fun digits => { digits, step := p - count }
  ((List.range 18).findSome? candidate?).getD { digits := significand x, step := 0 }

end RecordFormula.Number

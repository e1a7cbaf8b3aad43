import RecordFormula.Number.Binary64

/-! # Bounded decimals

Money is added in decimals: a sign, a whole number of units below `2 ^ 96` and a scale of at most 28,
standing for `± units / 10 ^ scale`. A double is converted by trading its power of two for a power of
ten, which loses digits only when the units would not fit, and is then cut back to the digits that a
double can hold. A conversion or an addition that does not fit has no result.
-/

namespace RecordFormula.Number

attribute [local instance] natPow

/-- `± units / 10 ^ scale`. -/
structure Decimal where
  negative : Bool
  units : Nat
  scale : Nat
deriving DecidableEq, Repr

namespace Decimal

/-- Units stay below this bound. -/
def bound : Nat := 2 ^ (96 : Nat)

/-- The largest scale. -/
def maxScale : Nat := 28

def zero : Decimal := { negative := false, units := 0, scale := 0 }

/-- A magnitude `units · 10 ^ power` on its way to a decimal. -/
structure Magnitude where
  units : Nat
  power : Int
deriving DecidableEq, Repr

namespace Magnitude

/-- Drops the last digit; a digit of five or more rounds up. -/
def dropDigit (m : Magnitude) : Magnitude :=
  { units := if 5 ≤ m.units % 10 then m.units / 10 + 1 else m.units / 10, power := m.power + 1 }

/-- Divides by `2 ^ k`, that is, multiplies by `5 ^ k` and divides by `10 ^ k`. Even units are halved
instead, and so are units that would not fit, with loss of their last bit. -/
def halve : Nat → Magnitude → Magnitude
  | 0, m => m
  | k + 1, m =>
    halve k <|
      if m.units % 2 = 0 then { units := m.units / 2, power := m.power + 1 }
      else if m.units * 5 < bound then { units := m.units * 5, power := m.power }
      else { units := m.units / 2, power := m.power + 1 }

/-- Multiplies by `2 ^ k`. Units are doubled and the power of ten lowered, so `5 ^ k` is still to be
divided out; units that cannot be doubled are divided by five at once. -/
def double : Nat → Magnitude → Option Magnitude
  | 0, m => some m
  | k + 1, m =>
    if m.units < bound / 2 then double k { units := m.units * 2, power := m.power - 1 }
    else if (k + 1 : Nat) < 2 * m.power then none
    else double k { units := m.units / 5, power := m.power }

/-- Turns a positive power of ten into units. -/
def expand : Nat → Magnitude → Option Magnitude
  | 0, m => some m
  | k + 1, m =>
    if m.units * 10 < bound then expand k { units := m.units * 10, power := m.power - 1 } else none

/-- Drops `k` digits, with no power left once nothing is left. -/
def truncate : Nat → Magnitude → Magnitude
  | 0, m => m
  | k + 1, m =>
    if m.units / 10 = 0 then { units := 0, power := 0 } else truncate k m.dropDigit

/-- Drops up to `k` digits while the units exceed what a double's significand can hold. -/
def trimDigits : Nat → Magnitude → Magnitude
  | 0, m => m
  | k + 1, m => if 2 ^ fractionBits ≤ m.units then trimDigits k m.dropDigit else m

/-- Drops up to `k` zeros. -/
def trimZeros : Nat → Magnitude → Magnitude
  | 0, m => m
  | k + 1, m =>
    if m.units % 10 = 0 then trimZeros k { units := m.units / 10, power := m.power + 1 } else m

/-- `units · 2 ^ e` as a magnitude of base ten. -/
def ofBinary (units : Nat) (e : Int) : Option Magnitude :=
  if e < 0 then some (halve (-e).toNat { units, power := e }) else double e.toNat { units, power := e }

/-- The magnitude with a power between -28 and 0 and no digits to spare. -/
def normalize (m : Magnitude) : Option Magnitude :=
  (expand m.power.toNat m).map fun m =>
    let m := truncate (-m.power - maxScale).toNat m
    let m := trimDigits (-m.power).toNat m
    trimZeros (-m.power).toNat m

end Magnitude

/-- The decimal for a finite double, if it fits. -/
def ofFloat? (x : Float) : Option Decimal :=
  if !x.isFinite then none
  else if significand x = 0 then some { negative := isNegative x, units := 0, scale := 0 }
  else do
    let m ← Magnitude.ofBinary (significand x) (exponent x)
    let m ← m.normalize
    pure { negative := isNegative x, units := m.units, scale := (-m.power).toNat }

/-- `n / d` to the nearest whole number; a half goes to the even neighbour. -/
def roundHalfEven (n d : Nat) : Nat :=
  let q := n / d
  let twice := 2 * (n % d)
  if d < twice ∨ (twice = d ∧ q % 2 = 1) then q + 1 else q

/-- The units at a scale that is lowered by the fewest digits which make them fit. -/
def fit (negative : Bool) (units scale : Nat) : Option Decimal :=
  (List.range (scale + 1)).findSome? fun dropped =>
    let units := roundHalfEven units (10 ^ dropped)
    if units < bound then some { negative, units, scale := scale - dropped } else none

/-- Units at a larger scale. -/
def unitsAt (d : Decimal) (scale : Nat) : Int :=
  let units : Int := (d.units * 10 ^ (scale - d.scale) : Nat)
  if d.negative then -units else units

/-- The sum, if it fits. A side without units leaves the other as it is, and opposite amounts leave a
zero without a sign. -/
def add? (a b : Decimal) : Option Decimal :=
  if a.units = 0 then some b
  else if b.units = 0 then some a
  else
    let scale := max a.scale b.scale
    let total := a.unitsAt scale + b.unitsAt scale
    fit (decide (total < 0)) total.natAbs scale

/-- The power `10 ^ k` in doubles, by repeated squaring; `square` is ten raised to the bit looked at.
The number of bits bounds the recursion. -/
def powerOfTen : (bits : Nat) → (k : Nat) → (square result : Float) → Float
  | 0, _, _, result => result
  | bits + 1, k, square, result =>
    let result := if k % 2 = 1 then result * square else result
    if k / 2 = 0 then result else powerOfTen bits (k / 2) (square * square) result

/-- A finite positive double to the nearest whole number; a half goes up. -/
def roundHalfUp (x : Float) : Float :=
  let e := exponent x
  if 0 ≤ e then x
  else
    let unit := 2 ^ (-e).toNat
    Float.ofNat ((2 * significand x + unit) / (2 * unit))

/-- The magnitude as a double: the whole part and the fraction apart, rounded again at the scale. -/
def magnitudeToFloat (d : Decimal) : Float :=
  if d.scale = 0 then Float.ofNat d.units
  else
    let one := 10 ^ d.scale
    let whole := Float.ofNat (d.units / one)
    let fraction := Float.ofNat (d.units % one) / Float.ofNat one
    if fraction == 0 then whole
    else
      let power := powerOfTen 5 d.scale 10 1
      roundHalfUp ((whole + fraction) * power) / power

/-- The decimal as a double. At scale 0 a zero has no sign. -/
def toFloat (d : Decimal) : Float :=
  if d.negative && !(d.scale == 0 && d.units == 0) then -d.magnitudeToFloat else d.magnitudeToFloat

end Decimal

end RecordFormula.Number

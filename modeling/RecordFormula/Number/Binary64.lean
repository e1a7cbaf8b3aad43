/-! # The parts of a double

A finite double is `± significand x · 2 ^ exponent x`. The parts are read off its 64 bits, so that
statements about a number's digits and whole part are statements about natural numbers.
-/

namespace RecordFormula.Number

/-- The powers of whole numbers, whatever other powers are at hand. -/
@[reducible] def natPow : Pow Nat Nat := instPowNat

attribute [local instance] natPow

/-- The number of bits below the leading one of a significand. -/
def fractionBits : Nat := 52

/-- The number of bits of the biased exponent. -/
def exponentBits : Nat := 11

/-- The sign bit, which negative zero has too. -/
def isNegative (x : Float) : Bool := decide (2 ^ (exponentBits + fractionBits) ≤ x.toBits.toNat)

/-- The biased exponent. -/
def exponentField (x : Float) : Nat := x.toBits.toNat / 2 ^ fractionBits % 2 ^ exponentBits

/-- The bits below the leading one. -/
def fractionField (x : Float) : Nat := x.toBits.toNat % 2 ^ fractionBits

/-- The significand as a whole number. Subnormal numbers have no leading one. -/
def significand (x : Float) : Nat :=
  if exponentField x = 0 then fractionField x else 2 ^ fractionBits + fractionField x

/-- The power of two by which the significand is scaled. -/
def exponent (x : Float) : Int := (max 1 (exponentField x) : Nat) - 1075

/-- `n · 2 ^ e` rounded toward zero to a whole number. -/
def scaleDown (n : Nat) (e : Int) : Nat :=
  if 0 ≤ e then n * 2 ^ e.toNat else n / 2 ^ (-e).toNat

/-- The magnitude of a finite double without its fractional part. -/
def wholePart (x : Float) : Nat := scaleDown (significand x) (exponent x)

/-- Whether a double is finite and has no fractional part. -/
def isIntegral (x : Float) : Bool :=
  x.isFinite && (decide (0 ≤ exponent x) || significand x % 2 ^ (-exponent x).toNat == 0)

/-- The order of two doubles; a NaN has none. Both zeros are equal. -/
def order? (x y : Float) : Option Ordering :=
  if x < y then some .lt else if x == y then some .eq else if y < x then some .gt else none

theorem significand_lt (x : Float) : significand x < 2 ^ (fractionBits + 1) := by
  have small : fractionField x < 2 ^ fractionBits := Nat.mod_lt _ (by decide)
  unfold significand
  rw [Nat.pow_succ]
  split <;> omega

end RecordFormula.Number

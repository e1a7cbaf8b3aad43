import RecordFormula.Number.Decimal

/-! # Sums of numbers

A sum is taken in decimals when every addend and every partial sum has one, and in doubles from left
to right otherwise. A mean divides a sum; the mean of nothing is 0. The smaller and the larger of two
numbers pass over a NaN.
-/

namespace RecordFormula.Number

/-- The decimal total of the numbers, added to a running total. -/
def decimalTotal (total : Decimal) : List Float → Option Decimal
  | [] => some total
  | x :: xs => do
    let d ← Decimal.ofFloat? x
    let total ← total.add? d
    decimalTotal total xs

/-- The sum from left to right in doubles. -/
def floatTotal (xs : List Float) : Float := xs.foldl (· + ·) 0

/-- The sum in decimals if there is one, else in doubles. -/
def sum (xs : List Float) : Float :=
  match decimalTotal .zero xs with
  | some total => total.toFloat
  | none => floatTotal xs

/-- The mean; of no numbers it is 0. -/
def mean (xs : List Float) : Float :=
  if xs.isEmpty then 0 else sum xs / Float.ofNat xs.length

/-- The smaller number; a NaN gives way to the other. -/
def smaller (x y : Float) : Float := if x.isNaN then y else if y < x then y else x

/-- The larger number; a NaN gives way to the other. -/
def larger (x y : Float) : Float := if x.isNaN then y else if x < y then y else x

/-- The smallest number, or 0 if there is none. -/
def minimum : List Float → Float
  | [] => 0
  | x :: xs => xs.foldl smaller x

/-- The largest number, or 0 if there is none. -/
def maximum : List Float → Float
  | [] => 0
  | x :: xs => xs.foldl larger x

end RecordFormula.Number

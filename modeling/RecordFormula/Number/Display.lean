import RecordFormula.Number.Shortest

/-! # Number text

Numbers are written positionally, never with an exponent. `display` writes the shortest digits that
read back and keeps the sign of zero; `plain` writes integral values below `10 ^ 15` as integers,
where zero has no sign, and is otherwise `display`.
-/

namespace RecordFormula.Number

attribute [local instance] natPow

/-- `digits · 10 ^ step` in positional notation. -/
def ShortDecimal.positional (d : ShortDecimal) : List Char :=
  let ds := Nat.toDigits 10 d.digits
  if 0 ≤ d.step then ds ++ List.replicate d.step.toNat '0'
  else
    let places := (-d.step).toNat
    let padded := List.replicate (places + 1 - ds.length) '0' ++ ds
    padded.take (padded.length - places) ++ '.' :: padded.drop (padded.length - places)

/-- A minus sign, if one is due. -/
def signed (negative : Bool) (cs : List Char) : String :=
  String.ofList (if negative then '-' :: cs else cs)

/-- The shortest text that reads back as the number. -/
def display (x : Float) : String :=
  if x.isNaN then "NaN"
  else if x.isInf then signed (isNegative x) ['i', 'n', 'f']
  else if x == 0 then signed (isNegative x) ['0']
  else signed (isNegative x) (shortest x).positional

/-- Integral values below `10 ^ 15` as integers, other numbers as `display` writes them. -/
def plain (x : Float) : String :=
  if isIntegral x && decide (wholePart x < 10 ^ (15 : Nat)) then
    signed (isNegative x && x != 0) (Nat.toDigits 10 (wholePart x))
  else display x

end RecordFormula.Number

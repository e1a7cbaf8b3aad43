import RecordFormula.Text.Blank
import RecordFormula.Number.Binary64

/-! # Numerals

A numeral is an optional sign before either digits with an optional point and an optional exponent,
or one of the words `inf`, `infinity` and `nan` in any letter case. At least one digit stands before
or after the point. Its value is the double nearest to what is written, infinity beyond the largest.
-/

namespace RecordFormula.Number

/-- The value of a row of decimal digits. -/
def ofDigits (cs : List Char) : Nat :=
  cs.foldl (fun n c => 10 * n + (c.toNat - '0'.toNat)) 0

/-- The double nearest to `n · 10 ^ e`. -/
def ofScaled (n : Nat) (e : Int) : Float := Float.ofScientific n (decide (e < 0)) e.natAbs

/-- A sign and what follows it; without a sign the text is positive. -/
def readSign : List Char → Bool × List Char
  | '-' :: cs => (true, cs)
  | '+' :: cs => (false, cs)
  | cs => (false, cs)

/-- The exponent that ends a numeral; no exponent is 0. -/
def readExponent : List Char → Option Int
  | [] => some 0
  | c :: cs =>
    let (negative, digits) := readSign cs
    if (c = 'e' || c = 'E') && !digits.isEmpty && digits.all Char.isDigit then
      some (if negative then -(ofDigits digits : Int) else ofDigits digits)
    else none

/-- A numeral's point and the digits after it, and the rest. -/
def readFraction : List Char → List Char × List Char
  | '.' :: cs => (cs.takeWhile Char.isDigit, cs.dropWhile Char.isDigit)
  | cs => ([], cs)

/-- A numeral of digits, without its sign. -/
def readDigits (cs : List Char) : Option Float :=
  let whole := cs.takeWhile Char.isDigit
  let (fraction, rest) := readFraction (cs.dropWhile Char.isDigit)
  if whole.isEmpty && fraction.isEmpty then none
  else (readExponent rest).map fun e => ofScaled (ofDigits (whole ++ fraction)) (e - fraction.length)

/-- A numeral that is a word, without its sign. -/
def readNamed (cs : List Char) : Option Float :=
  let word := String.ofList (cs.map Char.toLower)
  if word = "inf" ∨ word = "infinity" then some (1.0 / 0.0)
  else if word = "nan" then some (0.0 / 0.0)
  else none

/-- The value of a text that is a numeral from end to end. -/
def readNumeral (cs : List Char) : Option Float :=
  let (negative, unsigned) := readSign cs
  (readDigits unsigned <|> readNamed unsigned).map fun x => if negative then -x else x

/-- The value of a text that is a finite numeral, blanks around it aside. -/
def ofText (s : String) : Option Float := (readNumeral (Text.trim s.toList)).filter Float.isFinite

end RecordFormula.Number

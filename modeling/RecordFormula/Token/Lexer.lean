import RecordFormula.Token
import RecordFormula.Text.Blank

/-! # From text to tokens

One scan from left to right. Quoted texts are verbatim up to the same quote. Outside them, blanks and
operator characters end a word, and a word is classified when it ends. A point that follows digits
continues the number, and a point before a digit starts one, as if a 0 stood before it. The scan fails
on a text without its closing quote, and on a comparison of two characters that blanks split.
-/

namespace RecordFormula

/-- The token of a word: a function of the catalog, a number that starts with a digit, or a field. -/
def classify (word : List Char) : Token :=
  let upper := Text.asciiUpper (String.ofList word)
  if isFunctionName upper then .function upper
  else
    let reading :=
      if word.head?.any Char.isDigit then (Number.readNumeral word).filter Float.isFinite else none
    match reading with
    | some x => .number x
    | none => .field (String.ofList word)

/-- What the scan is in the middle of; letters are kept latest first. -/
inductive Reading where
  /-- A word, empty between words. -/
  | word (letters : List Char)
  /-- A text in quotes `quote`, opened `start` bytes into the expression. -/
  | text (quote : Char) (start : Nat) (letters : List Char)
deriving DecidableEq, Repr

/-- What the scan remembers of the characters before. -/
structure Scan where
  reading : Reading
  /-- Whether blanks came since the last operator. -/
  spaced : Bool
  /-- The last token, if it is an operator. -/
  last : Option Operator
  /-- UTF-8 bytes read. -/
  offset : Nat
deriving DecidableEq, Repr

namespace Scan

def initial : Scan := { reading := .word [], spaced := false, last := none, offset := 0 }

/-- The token that ends a word, if there is a word. -/
def flush (letters : List Char) : List Token :=
  if letters.isEmpty then [] else [classify letters.reverse]

/-- The last operator once a word has ended. -/
def lastAfter (last : Option Operator) (letters : List Char) : Option Operator :=
  if letters.isEmpty then last else none

/-- How the letters of a word go on after a point, if the point belongs to it. -/
def point? (letters : List Char) (next : Option Char) : Option (List Char) :=
  if letters.isEmpty then if next.any Char.isDigit then some ['.', '0'] else none
  else if letters.all Char.isDigit then some ('.' :: letters)
  else none

/-- One character: the tokens it completes and what is remembered after it. `next` is the character
behind it. -/
def step (scan : Scan) (c : Char) (next : Option Char) : Except ParseError (List Token × Scan) :=
  let offset := scan.offset + c.utf8Size
  match scan.reading with
  | .text quote start letters =>
    if c = quote then
      .ok ([.text (String.ofList letters.reverse)],
        { scan with reading := .word [], last := none, offset })
    else .ok ([], { scan with reading := .text quote start (c :: letters), offset })
  | .word letters =>
    let last := lastAfter scan.last letters
    if c = '"' || c = '\'' then
      .ok (flush letters, { scan with reading := .text c scan.offset [], last, offset })
    else if Text.isBlank c then
      .ok (flush letters, { reading := .word [], spaced := true, last, offset })
    else
      match Operator.ofChar? c with
      | none => .ok ([], { scan with reading := .word (c :: letters), offset })
      | some op =>
        match if op = .dot then point? letters next else none with
        | some letters => .ok ([], { scan with reading := .word letters, offset })
        | none =>
          match if scan.spaced then last.bind (Comparator.ofPair? · op) else none with
          | some pair => .error (.splitComparator pair)
          | none =>
            .ok (flush letters ++ [.operator op],
              { reading := .word [], spaced := false, last := some op, offset })

/-- The tokens of the rest of an expression. -/
def run (scan : Scan) : List Char → Except ParseError (List Token)
  | [] =>
    match scan.reading with
    | .word letters => .ok (flush letters)
    | .text _ start _ => .error (.unterminatedText start)
  | c :: cs => do
    let (tokens, scan) ← scan.step c cs.head?
    let rest ← scan.run cs
    pure (tokens ++ rest)

end Scan

/-- The tokens of an expression. -/
def tokenize (expression : String) : Except ParseError (List Token) :=
  Scan.initial.run expression.toList

end RecordFormula

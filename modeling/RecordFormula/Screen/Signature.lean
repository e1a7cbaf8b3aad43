import RecordFormula.Text.Blank
import RecordFormula.Text.WordChar

/-! # Code signatures

Phrases that betray code in an expression. A phrase is a word, found in any letter case, together with
what must stand around it: words that are harmless inside a longer name count only when they stand
alone, or when they are called. `signatures` lists them under the names that are reported.
-/

namespace RecordFormula.Screen

/-- What must follow the word of a phrase. -/
inductive Ending where
  /-- Anything. -/
  | anything
  /-- No further word character. -/
  | wordEnd
  /-- An opening parenthesis, after blanks or not. -/
  | parenthesis
  /-- Blanks and then a letter, `_`, or a backslash if it is allowed. -/
  | blanksAndName (backslash : Bool)
deriving DecidableEq, Repr

/-- A text that is searched for. -/
inductive Phrase where
  /-- A word with its surroundings; with `wordStart` no word character may stand before it. -/
  | word (wordStart : Bool) (letters : List Char) (ending : Ending)
  /-- A dollar sign, a name, and an opening parenthesis after blanks or not. -/
  | dollarCall
deriving DecidableEq, Repr

/-- A character without its case, as far as ASCII letters are concerned: the long s and the Kelvin
sign fold to letters of ASCII. -/
def fold (c : Char) : Char :=
  if c = 'ſ' then 's' else if c = '\u212A' then 'k' else c.toLower

/-- What follows a lower-case word at the head of a text, if the word is there in any case. -/
def afterWord? : (letters : List Char) → List Char → Option (List Char)
  | [], cs => some cs
  | _ :: _, [] => none
  | letter :: letters, c :: cs => if fold c = letter then afterWord? letters cs else none

/-- Whether a text starts with an opening parenthesis, blanks before it aside. -/
def opensCall (cs : List Char) : Bool := (cs.dropWhile Text.isBlank).head? == some '('

/-- Whether a character can start a name. -/
def startsName (backslash : Bool) (c : Char) : Bool :=
  (fold c).isLower || c == '_' || (backslash && c == '\\')

/-- Whether what follows a word is as it must be. -/
def Ending.admits : Ending → List Char → Bool
  | .anything, _ => true
  | .wordEnd, cs => !cs.head?.any Text.isWordChar
  | .parenthesis, cs => opensCall cs
  | .blanksAndName backslash, cs =>
    cs.head?.any Text.isBlank && (cs.dropWhile Text.isBlank).head?.any (startsName backslash)

/-- Whether a phrase stands at the head of a text; `before` is the character in front of it. -/
def Phrase.startsAt (before : Option Char) (cs : List Char) : Phrase → Bool
  | .word wordStart letters ending =>
    !(wordStart && before.any Text.isWordChar) && (afterWord? letters cs).any ending.admits
  | .dollarCall =>
    match cs with
    | '$' :: cs => cs.head?.any Text.isWordChar && opensCall (cs.dropWhile Text.isWordChar)
    | _ => false

/-- Whether a phrase stands anywhere in a text. -/
def Phrase.occursAfter (phrase : Phrase) (before : Option Char) : List Char → Bool
  | [] => phrase.startsAt before []
  | c :: cs => phrase.startsAt before (c :: cs) || phrase.occursAfter (some c) cs

/-- Phrases under the name that is reported for them. -/
structure Signature where
  name : String
  phrases : List Phrase
deriving DecidableEq, Repr

/-- Whether one of the phrases stands in a text. -/
def Signature.occursIn (signature : Signature) (cs : List Char) : Bool :=
  signature.phrases.any (·.occursAfter none cs)

/-- A word wherever it stands. -/
def Phrase.anywhere (word : String) : Phrase := .word false word.toList .anything

/-- A word that stands alone. -/
def Phrase.alone (word : String) : Phrase := .word true word.toList .wordEnd

/-- A word that is called, with anything before it. -/
def Phrase.called (word : String) : Phrase := .word false word.toList .parenthesis

/-- The code signatures, in the order in which they are reported. -/
def signatures : List Signature := [
  ⟨"exec", [.alone "shell_exec", .alone "exec", .called "exec"]⟩,
  ⟨"system", [.alone "system", .called "system"]⟩,
  ⟨"process spawning",
    [.anywhere "passthru", .anywhere "popen", .anywhere "proc_open", .anywhere "subprocess"]⟩,
  ⟨"eval", [.alone "eval", .called "eval"]⟩,
  ⟨"assert", [.alone "assert", .called "assert"]⟩,
  ⟨"file inclusion", [.anywhere "include", .anywhere "require"]⟩,
  ⟨"module import", [.anywhere "__import__", .alone "import", .called "import"]⟩,
  ⟨"dynamic call", [.anywhere "create_function", .anywhere "call_user_func"]⟩,
  ⟨"variable function call", [.dollarCall]⟩,
  ⟨"object construction", [.word true "new".toList (.blanksAndName true)]⟩,
  ⟨"class definition", [.word true "class".toList (.blanksAndName false)]⟩,
  ⟨"function definition", [.called "function", .alone "lambda"]⟩]

end RecordFormula.Screen

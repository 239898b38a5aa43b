import Gcode.Code
import Gcode.Decimal
import Gcode.Scan

/-! Words: the lexical units of a line. Text that no word takes is passed over. -/
namespace Gcode

/-- Control and arithmetic keywords (`GOTO`), variables and expressions (`#100`, `$$`), a letter
with a number (`X-10.5`), and repeat counts (`*3`). -/
inductive WordKind where
  | keyword | macroVar | address | repetition
deriving DecidableEq, Repr

structure Word where
  letter : Char
  argument : String
  line : Nat
  kind : WordKind
deriving DecidableEq, Repr

def keywords : List String :=
  ["GOTO", "WHILE", "ROUND", "ASIN", "ACOS", "ATAN", "SQRT", "END", "XOR", "AND", "SIN", "COS",
    "TAN", "FIX", "FUP", "ABS", "EXP", "MOD", "POW", "IF", "EQ", "NE", "LT", "GT", "LE", "GE",
    "DO", "OR", "LN"]

namespace WordKind

def isNameChar (c : Char) : Bool := isLetter c || c.isDigit || c == '_'

def isNumberChar (c : Char) : Bool := c.isDigit || c == '+' || c == '-' || c == '.'

def keyword? : Pattern WordKind := fun cs =>
  (keywords.find? fun k => (cs.take k.toList.length).map foldCase == k.toList).map
    fun k => (.keyword, k.toList.length)

/-- `$$`, `$` with a name, `#` with digits, or `#` with an expression in brackets. -/
def macroVar? : Pattern WordKind
  | '$' :: '$' :: _ => some (.macroVar, 2)
  | '$' :: cs => Pattern.afterFirst .macroVar isNameChar cs
  | '#' :: '[' :: cs =>
    if ']' ∈ cs then some (.macroVar, leading (· != ']') cs + 3) else none
  | '#' :: cs => Pattern.afterFirst .macroVar Char.isDigit cs
  | _ => none

def address? : Pattern WordKind
  | [] => none
  | c :: cs => if isLetter c then Pattern.afterFirst .address isNumberChar cs else none

def repetition? : Pattern WordKind
  | '*' :: cs => Pattern.afterFirst .repetition Char.isDigit cs
  | _ => none

def any? : Pattern WordKind :=
  ((Pattern.orElse keyword? macroVar?).orElse address?).orElse repetition?

end WordKind

namespace Word

def text (w : Word) : String := String.ofList (w.letter :: w.argument.toList)

def code (w : Word) : String := Code.ofArgument w.argument

/-- The number that the argument writes. A malformed argument is not a number. -/
def value (w : Word) : Float := (readFloat? w.argument.toList).getD (0.0 / 0.0)

def is (w : Word) (letter : Char) (code : String) : Bool :=
  w.kind = .address && w.letter = letter && w.code = code

/-- The word that a find stands for. Only ASCII letters are turned into capitals. -/
def ofFind? (line : Nat) (f : Find WordKind) : Option Word :=
  match f.text.map Char.toUpper with
  | [] => none
  | c :: cs => some ⟨c, String.ofList cs, line, f.sort⟩

def ofChars (line : Nat) (cs : List Char) : List Word :=
  (WordKind.any?.finds cs).filterMap (ofFind? line)

end Word
end Gcode

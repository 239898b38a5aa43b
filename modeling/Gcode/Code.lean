import Gcode.Character

/-! One spelling for codes, so that `g01`, `G1` and `G001` are the same code. -/
namespace Gcode

def dropZeros (cs : List Char) : List Char :=
  match cs.dropWhile (· == '0') with
  | [] => ['0']
  | rest => rest

def canonicalArgument (cs : List Char) : List Char :=
  dropZeros (cs.takeWhile (· != '.')) ++ cs.dropWhile (· != '.')

/-- The name of a code as dictionaries hold it: trimmed, in capitals, and, after an ASCII letter,
without leading zeros. -/
def canonicalName (name : List Char) : List Char :=
  match (trimBlanks name).map Char.toUpper with
  | [] => []
  | c :: cs => if c.isAlpha then c :: canonicalArgument cs else c :: cs

namespace Code

def ofArgument (argument : String) : String := String.ofList (canonicalArgument argument.toList)

def ofName (name : String) : String := String.ofList (canonicalName name.toList)

end Code
end Gcode

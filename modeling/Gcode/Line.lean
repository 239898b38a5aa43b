import Gcode.Character

/-! Physical lines of a program text. A line ends at `\n`, `\r\n` or a bare `\r`, and blank lines
are counted although nothing else is made of them. -/
namespace Gcode

structure Line where
  index : Nat
  text : String
deriving DecidableEq, Repr

/-- Cuts a text at its line terminators. A terminator at the very end opens no further line. -/
def cutLines : List Char → List (List Char)
  | [] => []
  | '\r' :: '\n' :: cs => [] :: cutLines cs
  | c :: cs =>
    if c = '\n' ∨ c = '\r' then [] :: cutLines cs
    else match cutLines cs with
      | [] => [[c]]
      | l :: ls => (c :: l) :: ls

namespace Line

def number (index : Nat) : List (List Char) → List Line
  | [] => []
  | l :: ls => ⟨index, String.ofList l⟩ :: number (index + 1) ls

def all (text : String) : List Line := number 0 (cutLines text.toList)

def isBlank (line : Line) : Bool := line.text.toList.all Gcode.isBlank

def ofText (text : String) : List Line := (all text).filter (!·.isBlank)

end Line
end Gcode

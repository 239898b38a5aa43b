import Gcode.Comment
import Gcode.Line
import Gcode.Word

/-! A block is one line of a program together with its words. -/
namespace Gcode

structure Block where
  index : Nat
  text : String
  words : List Word
deriving DecidableEq, Repr

namespace Block

def ofLine (line : Line) : Block :=
  ⟨line.index, line.text, Word.ofChars line.index (withoutComments line.text.toList)⟩

def ofText (text : String) : List Block := (Line.ofText text).map ofLine

def width (block : Block) : Nat := block.text.toList.length

def neighbour? (block : Block) (position : Nat) (offset : Int) : Option Word :=
  match (position : Int) + offset with
  | .ofNat target => block.words[target]?
  | .negSucc _ => none

end Block
end Gcode

import Gcode.Outline

/-! Outline entries as document symbols of an editor, whose columns are UTF-16 code units. -/
namespace Gcode

structure Place where
  line : Nat
  character : Nat
deriving DecidableEq, Repr

structure Span where
  start : Place
  stop : Place
deriving DecidableEq, Repr

def utf16Length : List Char → Nat
  | [] => 0
  | c :: cs => (if c.toNat < 0x10000 then 1 else 2) + utf16Length cs

def EntryKind.symbolNumber : EntryKind → Nat
  | .rapid | .cutting | .clockwiseCutting | .counterClockwiseCutting => 12
  | .workOffset => 3
  | .externalCall | .localCall | .localReturn => 6
  | .spindleClockwise | .spindleCounterClockwise => 7
  | .toolChange => 19
  | .coolantOn | .coolantOff => 17

structure DocumentSymbol where
  name : String
  detail : String
  kind : Nat
  span : Span
deriving DecidableEq, Repr

namespace DocumentSymbol

def ofBlock (block : Block) : List DocumentSymbol :=
  let width := utf16Length block.text.toList
  block.entries.map fun e =>
    ⟨e.label, e.tooltip, e.kind.symbolNumber, ⟨⟨e.line, 0⟩, ⟨e.line, width⟩⟩⟩

def ofText (text : String) : List DocumentSymbol := (Block.ofText text).flatMap ofBlock

end DocumentSymbol
end Gcode

import Gcode.Scan

/-! Tool changes counted in the bare text of a program. -/
namespace Gcode.ToolChange

/-- `M6` or `M06`, case ignored, also as the beginning of a longer code. -/
def pattern : Pattern Unit
  | c :: '6' :: _ => if foldCase c = 'M' then some ((), 2) else none
  | c :: '0' :: '6' :: _ => if foldCase c = 'M' then some ((), 3) else none
  | _ => none

def count (text : String) : Nat := (pattern.finds text.toList).length

end Gcode.ToolChange

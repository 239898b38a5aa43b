import Gcode.Clock
import Gcode.CycleTime
import Gcode.ToolChange
import Gcode.LengthUnit

/-! The figures of a program that an editor shows. -/
namespace Gcode

structure Figures where
  toolChanges : Nat
  seconds : Option Float
  clock : String
  units : LengthUnit
deriving DecidableEq, Repr

namespace Figures

def ofText (text : String) (units : UnitPreference) : Figures :=
  let seconds := CycleTime.ofText text
  ⟨ToolChange.count text, if seconds.isNaN then none else some seconds, Clock.render seconds,
    units.unitOf text⟩

end Figures
end Gcode

import Gcode.LengthUnit
import Gcode.Reference.BuiltIn

/-! The settings of the language server. -/
namespace Gcode

structure Settings where
  reference : Option String := none
  folders : List String := []
  units : UnitPreference := none
  withStats : Bool := true
  logLevel : String := "info"
deriving DecidableEq, Repr

namespace Settings

def wantedReference (settings : Settings) : String := settings.reference.getD Reference.builtInName

end Settings
end Gcode

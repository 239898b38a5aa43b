import Gcode.Scan

/-! The unit of length of a program: inch or millimetre, chosen by G20 or G21. -/
namespace Gcode

inductive LengthUnit where
  | inch | metric
deriving DecidableEq, Repr

namespace LengthUnit

def name : LengthUnit → String
  | inch => "Inch"
  | metric => "Metric"

def keyword : LengthUnit → String
  | inch => "inch"
  | metric => "metric"

def ofDigits? : List Char → Option LengthUnit
  | '2' :: d :: cs =>
    let whole := match cs with
      | [] => true
      | c :: _ => !(c.isDigit || c == '.')
    if !whole then none
    else if d = '0' then some inch
    else if d = '1' then some metric
    else none
  | _ => none

def code? : Pattern LengthUnit
  | [] => none
  | c :: cs =>
    if foldCase c = 'G' then
      (ofDigits? (cs.dropWhile (· == '0'))).map fun u => (u, leading (· == '0') cs + 3)
    else none

/-- The unit of the first G20 or G21 anywhere in a text, comments included. Without one, a
program is in inches. -/
def ofText (text : String) : LengthUnit := (code?.first? text.toList).getD inch

end LengthUnit

/-- A preference for a unit. None means that the program decides. -/
abbrev UnitPreference := Option LengthUnit

def UnitPreference.unitOf (preference : UnitPreference) (text : String) : LengthUnit :=
  preference.getD (LengthUnit.ofText text)

end Gcode

import Gcode.Scan

/-! The code under a cursor. -/
namespace Gcode

/-- A letter and digits, with a fraction if digits follow its point. All of it is ASCII. -/
def hoverCode? : Pattern Unit
  | [] => none
  | c :: cs =>
    match c.isAlpha, leading Char.isDigit cs with
    | true, n + 1 =>
      match cs.drop (n + 1) with
      | '.' :: ds =>
        match leading Char.isDigit ds with
        | 0 => some ((), n + 2)
        | m + 1 => some ((), n + m + 4)
      | _ => some ((), n + 2)
    | _, _ => none

/-- The first code of a line that a column touches. Columns are characters, a column past the
end counts as the end, and the column just past a code still touches it. -/
def codeUnder? (line : List Char) (column : Nat) : Option (Find Unit) :=
  (hoverCode?.finds line).find? fun f =>
    f.start ≤ min column line.length && min column line.length ≤ f.stop

end Gcode

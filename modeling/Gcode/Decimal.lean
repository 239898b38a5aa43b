import Gcode.Character

/-! Numbers read from text: binary floating point rounded to nearest, and 32-bit naturals. -/
namespace Gcode

def natOfDigits (ds : List Char) : Nat := ds.foldl (fun n d => 10 * n + (d.toNat - '0'.toNat)) 0

def splitSign : List Char → Bool × List Char
  | '-' :: cs => (true, cs)
  | '+' :: cs => (false, cs)
  | cs => (false, cs)

namespace Decimal

/-- The double nearest to `m · 10^e`. Exponents far outside the range of doubles are settled by
the order of magnitude alone, so no huge power is computed. -/
def nearest (m : Nat) (e : Int) : Float :=
  let magnitude : Int := (Nat.toDigits 10 m).length + e
  if m = 0 then 0.0
  else if magnitude > 310 then 1.0 / 0.0
  else if magnitude < -330 then 0.0
  else Float.ofScientific m (e < 0) e.natAbs

def exponent? : List Char → Option Int
  | [] => some 0
  | c :: cs =>
    let (negative, ds) := splitSign cs
    if (c = 'e' ∨ c = 'E') ∧ ds ≠ [] ∧ ds.all Char.isDigit then
      some (if negative then -(natOfDigits ds : Int) else natOfDigits ds)
    else none

/-- A number without a sign: digits around an optional point, at least one of them, then an
optional exponent. -/
def unsigned? (cs : List Char) : Option Float :=
  let whole := cs.takeWhile Char.isDigit
  let rest := cs.dropWhile Char.isDigit
  let (fraction, rest) := match rest with
    | '.' :: ds => (ds.takeWhile Char.isDigit, ds.dropWhile Char.isDigit)
    | _ => ([], rest)
  if whole = [] ∧ fraction = [] then none
  else (exponent? rest).map fun e => nearest (natOfDigits (whole ++ fraction)) (e - fraction.length)

def special? (cs : List Char) : Option Float :=
  let name := String.ofList (cs.map Char.toUpper)
  if name = "INF" ∨ name = "INFINITY" then some (1.0 / 0.0)
  else if name = "NAN" then some (0.0 / 0.0)
  else none

end Decimal

def readFloat? (cs : List Char) : Option Float :=
  let (negative, body) := splitSign cs
  ((Decimal.special? body).or (Decimal.unsigned? body)).map
    fun x => if negative then -x else x

/-- Reads a natural number below 2^32, which may carry a plus sign. -/
def readNat32? (cs : List Char) : Option Nat :=
  let ds := match cs with
    | '+' :: ds => ds
    | ds => ds
  let n := natOfDigits ds
  if ds ≠ [] ∧ ds.all Char.isDigit ∧ n < 0x100000000 then some n else none

end Gcode

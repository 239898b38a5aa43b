/-! Durations written as hours, minutes and seconds. -/
namespace Gcode.Clock

def wholePart (x : Float) : Nat :=
  let bits := x.toBits.toNat
  let exponent := bits >>> 52 % 2048
  let fraction := bits % 0x10000000000000
  if exponent < 1023 then 0
  else if exponent < 1075 then (0x10000000000000 + fraction) >>> (1075 - exponent)
  else (0x10000000000000 + fraction) <<< (exponent - 1075)

def twoDigits (n : Nat) : String := if n < 10 then "0" ++ n.repr else n.repr

/-- Writes seconds as `HH:MM:SS` without fractions. Hours are the rounded quotient without its
fraction, and at most the largest 64-bit number. Nothing that is negative, infinite or no number
has a time. -/
def render (seconds : Float) : String :=
  if !seconds.isFinite || seconds < 0 then "--:--:--"
  else
    let whole := wholePart seconds
    let hours := min (wholePart (seconds / 3600)) 0xFFFFFFFFFFFFFFFF
    twoDigits hours ++ ":" ++ twoDigits (whole % 3600 / 60) ++ ":" ++ twoDigits (whole % 60)

end Gcode.Clock

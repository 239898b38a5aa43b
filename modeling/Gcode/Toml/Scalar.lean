import Gcode.Toml.Text
import Gcode.Toml.Value

/-! Values without quotes and brackets: truth values, numbers, dates and times. Each has to take
up the whole text that it is read from. -/
namespace Gcode.Toml

def isHexDigit (c : Char) : Bool := (hexDigit? c).isSome

/-- Drops underscores. Behind each of them stands a digit, and in front of it a digit too, or the
sign of the number: at the start `before` says whether one of these went ahead. -/
def ungroup? (isDigit : Char → Bool) : (before : Bool) → List Char → Option (List Char)
  | _, [] => some []
  | before, c :: cs =>
    if c = '_' then
      if before && cs.head?.any isDigit then ungroup? isDigit false cs else none
    else (ungroup? isDigit (isDigit c) cs).map (c :: ·)

def ofInt (n : Int) : Value :=
  if -0x80000000000000000000000000000000 ≤ n ∧ n < 0x100000000000000000000000000000000 then
    .integer (some n)
  else .integer none

def inBase? (base : Nat) (cs : List Char) : Option Value := do
  let digits ← (← ungroup? isHexDigit false cs).mapM hexDigit?
  if digits.any (base ≤ ·) then none
  else if digits = [] then some (.integer none)
  else some (ofInt (digits.foldl (fun n d => base * n + d) 0 : Nat))

/-- A decimal integer without a zero in front. What follows the first underscore need not be
decimal digits, but points, spaces and exponents are barred, and the integer has no value. -/
def decimal? (cs : List Char) : Option Value := do
  let (negative, body) := splitSign cs
  let text ← ungroup? isHexDigit (body != cs) body
  let isBarred (c : Char) : Bool := c == '.' || c == 'e' || c == 'E' || c == ' '
  if body.head? = some '0' ∧ body ≠ ['0'] then none
  else if text ≠ [] ∧ text.all Char.isDigit then
    some (ofInt (if negative then -(natOfDigits text : Int) else natOfDigits text))
  else if (body.dropWhile Char.isDigit).head? = some '_' ∧ !text.any isBarred then
    some (.integer none)
  else none

def integer? : List Char → Option Value
  | '0' :: 'x' :: cs => inBase? 16 cs
  | '0' :: 'o' :: cs => inBase? 8 cs
  | '0' :: 'b' :: cs => inBase? 2 cs
  | cs => decimal? cs

/-- A float: infinity, not a number, or a decimal with a fraction, an exponent or both. A
decimal beyond the largest double has no value. -/
def float? (cs : List Char) : Option Value := do
  let (negative, body) := splitSign cs
  let sign (x : Float) : Value := .float (some (if negative then -x else x))
  if body = ['i', 'n', 'f'] then some (sign (1.0 / 0.0))
  else if body = ['n', 'a', 'n'] then some (sign (0.0 / 0.0))
  else do
    let text ← ungroup? Char.isDigit (body != cs) body
    let digits := text.takeWhile Char.isDigit
    let (fraction, rest) ← match text.dropWhile Char.isDigit with
      | [] => none
      | '.' :: ds =>
        if ds.head?.any Char.isDigit then
          some (ds.takeWhile Char.isDigit, ds.dropWhile Char.isDigit)
        else none
      | rest => some ([], rest)
    let e ← Decimal.exponent? rest
    let x := Decimal.nearest (natOfDigits (digits ++ fraction)) (e - fraction.length)
    if digits = [] ∨ (body.head? = some '0' ∧ digits.length > 1) then none
    else some (if x.isInf then .float none else sign x)

def twoDigits? : Reader Nat
  | a :: b :: cs => if a.isDigit && b.isDigit then some (natOfDigits [a, b], cs) else none
  | _ => none

def isLeapYear (year : Nat) : Bool := year % 4 == 0 && (year % 100 != 0 || year % 400 == 0)

def daysInMonth (year month : Nat) : Nat :=
  if month = 2 then (if isLeapYear year then 29 else 28)
  else if month = 4 ∨ month = 6 ∨ month = 9 ∨ month = 11 then 30
  else 31

def date? (cs : List Char) : Option (List Char) := do
  let (century, cs) ← twoDigits? cs
  let (year, cs) ← twoDigits? cs
  let '-' :: cs := cs | none
  let (month, cs) ← twoDigits? cs
  let '-' :: cs := cs | none
  let (day, cs) ← twoDigits? cs
  if 1 ≤ month ∧ month ≤ 12 ∧ 1 ≤ day ∧ day ≤ daysInMonth (100 * century + year) month then some cs
  else none

def time? (cs : List Char) : Option (List Char) := do
  let (hour, cs) ← twoDigits? cs
  let ':' :: cs := cs | none
  let (minute, cs) ← twoDigits? cs
  if hour > 23 ∨ minute > 59 then none
  else match cs with
    | ':' :: cs => do
      let (second, cs) ← twoDigits? cs
      if second > 60 then none
      else match cs with
        | '.' :: d :: cs => if d.isDigit then some (cs.dropWhile Char.isDigit) else none
        | '.' :: [] => none
        | cs => some cs
    | cs => some cs

def offset? : List Char → Option (List Char)
  | [] => some []
  | c :: cs =>
    if c = 'Z' ∨ c = 'z' then some cs
    else if c = '+' ∨ c = '-' then do
      let (hour, cs) ← twoDigits? cs
      let ':' :: cs := cs | none
      let (minute, cs) ← twoDigits? cs
      if hour > 23 ∨ minute > 59 then none else some cs
    else none

def moment? (cs : List Char) : Option Value :=
  let end? (rest : Option (List Char)) : Option Value :=
    if rest = some [] then some (.moment (String.ofList cs)) else none
  match date? cs with
  | none => end? (time? cs)
  | some [] => end? (some [])
  | some (c :: rest) =>
    if c = 'T' ∨ c = 't' ∨ c = ' ' then end? ((time? rest).bind offset?) else none

def isScalarChar (c : Char) : Bool :=
  c ∉ ['=', ',', '[', ']', '\x7b', '\x7d', ' ', '\t', '#', '\r', '\n']

def startsWord (cs : List Char) : Bool :=
  cs.head?.any fun c => isScalarChar c && c != '.' && c != '"' && c != '\''

/-- Splits the text of a value without quotes and brackets off the front. It goes on behind spaces
as long as another word follows them, as the time does behind a date. -/
def splitScalar : List Char → List Char × List Char
  | [] => ([], [])
  | c :: cs =>
    if isScalarChar c || (isSpace c && startsWord (skipSpaces cs)) then
      let (token, rest) := splitScalar cs
      (c :: token, rest)
    else ([], c :: cs)

def scalar? : Reader Value := fun cs => do
  let (token, rest) := splitScalar cs
  let value ←
    if token = ['t', 'r', 'u', 'e'] then some (.boolean true)
    else if token = ['f', 'a', 'l', 's', 'e'] then some (.boolean false)
    else (integer? token).or ((float? token).or (moment? token))
  some (value, rest)

end Gcode.Toml

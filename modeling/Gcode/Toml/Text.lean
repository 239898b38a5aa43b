import Gcode.Decimal

/-! The characters of a TOML document: white space, comments and the four kinds of strings. Each
reader takes its part off the front of a text and returns the rest. -/
namespace Gcode.Toml

abbrev Reader (α : Type) := List Char → Option (α × List Char)

def isControl (c : Char) : Bool := (c.toNat < 0x20 && c != '\t') || c.toNat == 0x7F

def isSpace (c : Char) : Bool := c == ' ' || c == '\t'

def skipSpaces (cs : List Char) : List Char := cs.dropWhile isSpace

def skipFiller : (inComment : Bool) → List Char → Option (List Char)
  | _, [] => some []
  | _, '\n' :: cs => skipFiller false cs
  | _, '\r' :: '\n' :: cs => skipFiller false cs
  | true, c :: cs => if isControl c then none else skipFiller true cs
  | false, c :: cs =>
    if c = '#' then skipFiller true cs
    else if isSpace c then skipFiller false cs
    else some (c :: cs)

def endLine : (inComment : Bool) → List Char → Option (List Char)
  | _, [] => some []
  | _, '\n' :: cs => some cs
  | _, '\r' :: '\n' :: cs => some cs
  | true, c :: cs => if isControl c then none else endLine true cs
  | false, c :: cs =>
    if c = '#' then endLine true cs
    else if isSpace c then endLine false cs
    else none

def hexDigit? (c : Char) : Option Nat :=
  if c.isDigit then some (c.toNat - '0'.toNat)
  else if 'a' ≤ c ∧ c ≤ 'f' then some (c.toNat - 'a'.toNat + 10)
  else if 'A' ≤ c ∧ c ≤ 'F' then some (c.toNat - 'A'.toNat + 10)
  else none

def hexChar? (count : Nat) (cs : List Char) : Option Char :=
  if cs.length < count then none
  else do
    let digits ← (cs.take count).mapM hexDigit?
    let n := digits.foldl (fun n d => 16 * n + d) 0
    if n.isValidChar then some (Char.ofNat n) else none

def escape? : List Char → Option (Char × Nat)
  | 'b' :: _ => some ('\x08', 1)
  | 't' :: _ => some ('\t', 1)
  | 'n' :: _ => some ('\n', 1)
  | 'f' :: _ => some ('\x0C', 1)
  | 'r' :: _ => some ('\r', 1)
  | 'e' :: _ => some ('\x1B', 1)
  | '"' :: _ => some ('"', 1)
  | '\\' :: _ => some ('\\', 1)
  | 'x' :: cs => (hexChar? 2 cs).map (·, 3)
  | 'u' :: cs => (hexChar? 4 cs).map (·, 5)
  | 'U' :: cs => (hexChar? 8 cs).map (·, 9)
  | _ => none

/-- The rest of a string in double quotes. The first `skip` characters belong to an escape. -/
def basicBody : (skip : Nat) → Reader (List Char)
  | _, [] => none
  | skip + 1, _ :: cs => basicBody skip cs
  | 0, c :: cs =>
    if c = '"' then some ([], cs)
    else if c = '\\' then do
      let (e, width) ← escape? cs
      let (text, rest) ← basicBody width cs
      some (e :: text, rest)
    else if isControl c then none
    else do
      let (text, rest) ← basicBody 0 cs
      some (c :: text, rest)

def literalBody : Reader (List Char)
  | [] => none
  | c :: cs =>
    if c = '\'' then some ([], cs)
    else if isControl c then none
    else do
      let (text, rest) ← literalBody cs
      some (c :: text, rest)

/-- The quotes that may stand at the end of a string in triple quotes, two of its own and three
that close it. None if fewer than three stand here. -/
def closing? (quote : Char) (cs : List Char) : Option (List Char × List Char) :=
  let n := min 5 (leading (· == quote) cs)
  if n < 3 then none else some (List.replicate (n - 3) quote, cs.drop n)

def blankLength : List Char → Nat
  | '\n' :: cs => blankLength cs + 1
  | '\r' :: '\n' :: cs => blankLength cs + 2
  | c :: cs => if isSpace c then blankLength cs + 1 else 0
  | [] => 0

/-- How many characters a backslash at the end of a line swallows: spaces, the line end, and all
spaces and line ends after it. -/
def continuation? (cs : List Char) : Option Nat :=
  match skipSpaces cs with
  | '\n' :: _ | '\r' :: '\n' :: _ => some (blankLength cs)
  | _ => none

def longBasicBody : (skip : Nat) → Reader (List Char)
  | _, [] => none
  | skip + 1, _ :: cs => longBasicBody skip cs
  | 0, c :: cs =>
    match closing? '"' (c :: cs) with
    | some found => some found
    | none =>
      if c = '\\' then
        match continuation? cs with
        | some width => longBasicBody width cs
        | none => do
          let (e, width) ← escape? cs
          let (text, rest) ← longBasicBody width cs
          some (e :: text, rest)
      else if c = '\n' ∨ !isControl c ∨ (c = '\r' ∧ cs.head? = some '\n') then do
        let (text, rest) ← longBasicBody 0 cs
        some (c :: text, rest)
      else none

def longLiteralBody : Reader (List Char)
  | [] => none
  | c :: cs =>
    match closing? '\'' (c :: cs) with
    | some found => some found
    | none =>
      if c = '\n' ∨ !isControl c ∨ (c = '\r' ∧ cs.head? = some '\n') then do
        let (text, rest) ← longLiteralBody cs
        some (c :: text, rest)
      else none

def skipFirstLineEnd : List Char → List Char
  | '\n' :: cs => cs
  | '\r' :: '\n' :: cs => cs
  | cs => cs

def string? : Reader String := fun cs => do
  let (text, rest) ← match cs with
    | '"' :: '"' :: '"' :: cs => longBasicBody 0 (skipFirstLineEnd cs)
    | '"' :: cs => basicBody 0 cs
    | '\'' :: '\'' :: '\'' :: cs => longLiteralBody (skipFirstLineEnd cs)
    | '\'' :: cs => literalBody cs
    | _ => none
  some (String.ofList text, rest)

end Gcode.Toml

import Gcode.Scan

/-! Modelines: `gcode_reference = NAME` near an end of a program chooses its reference. -/
namespace Gcode.Modeline

def keyword : List Char := "gcode_reference".toList

def isNameChar (c : Char) : Bool := c.isAlphanum || c == '_' || c == '-'

def modeline? : Pattern String := fun cs =>
  if cs.take keyword.length = keyword then
    match (cs.drop keyword.length).dropWhile isBlank with
    | '=' :: rest =>
      let rest := rest.dropWhile isBlank
      match leading isNameChar rest with
      | 0 => none
      | n + 1 => some (String.ofList (rest.take (n + 1)), cs.length - rest.length + (n + 1))
    | _ => none
  else none

/-- Cuts a text after its line feeds, each of which may follow a carriage return. -/
def cutAtFeeds : List Char → List (List Char)
  | [] => []
  | '\n' :: cs => [] :: cutAtFeeds cs
  | '\r' :: '\n' :: cs => [] :: cutAtFeeds cs
  | c :: cs =>
    match cutAtFeeds cs with
    | [] => [[c]]
    | l :: ls => (c :: l) :: ls

/-- The first five lines and the last five, each of them once. -/
def window (lines : List (List Char)) : List (List Char) :=
  lines.take 5 ++ lines.drop (max (lines.length - 5) 5)

def names (text : String) : List String :=
  (window (cutAtFeeds text.toList)).filterMap modeline?.first?

end Gcode.Modeline

import Gcode.Character

/-! Removal of comments and white space from a line. A comment stands in parentheses, closed by
the first `)`, or runs from a `;` to the end. -/
namespace Gcode

/-- Drops closed comments. A `(` with no `)` after it stays. The flag says whether the text
starts inside a comment. -/
def dropClosed : (inside : Bool) → List Char → List Char
  | _, [] => []
  | true, c :: cs => dropClosed (c != ')') cs
  | false, c :: cs =>
    if c = '(' ∧ ')' ∈ cs then dropClosed true cs else c :: dropClosed false cs

/-- Cuts a text at the first `;` that no line feed follows. -/
def dropRemark : List Char → List Char
  | [] => []
  | c :: cs => if c = ';' ∧ '\n' ∉ cs then [] else c :: dropRemark cs

/-- The text that is left for words: first closed comments go, then the remark at the end, then
all white space. -/
def withoutComments (cs : List Char) : List Char :=
  (dropRemark (dropClosed false cs)).filter (!isBlank ·)

end Gcode

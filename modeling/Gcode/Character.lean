/-! Character classes of program text: white space, and letters read without regard to case. -/
namespace Gcode

/-- The characters with the Unicode property White_Space. -/
def isBlank (c : Char) : Bool :=
  let n := c.toNat
  (9 ≤ n && n ≤ 13) || n == 0x20 || n == 0x85 || n == 0xA0 || n == 0x1680 ||
    (0x2000 ≤ n && n ≤ 0x200A) || n == 0x2028 || n == 0x2029 || n == 0x202F || n == 0x205F ||
    n == 0x3000

/-- The capital that a character equals when case is ignored. Beside the ASCII letters, the
long s folds to S and the Kelvin sign to K. -/
def foldCase (c : Char) : Char :=
  if c = '\u017F' then 'S' else if c = '\u212A' then 'K' else c.toUpper

def isLetter (c : Char) : Bool := (foldCase c).isUpper

def trimBlanks (cs : List Char) : List Char :=
  ((cs.dropWhile isBlank).reverse.dropWhile isBlank).reverse

def leading (inClass : Char → Bool) (cs : List Char) : Nat := (cs.takeWhile inClass).length

end Gcode

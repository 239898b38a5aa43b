import Gcode.Word

/-! The modal state of a machine: what stays in force from one line to the next. -/
namespace Gcode

inductive Positioning where
  | absolute | incremental
deriving DecidableEq, Repr

inductive Motion where
  | rapid | linear
deriving DecidableEq, Repr

inductive Spindle where
  | off | clockwise | counterClockwise
deriving DecidableEq, Repr

inductive Axis where
  | x | y | z
deriving DecidableEq, Repr

structure Position where
  x : Float := 0
  y : Float := 0
  z : Float := 0
deriving DecidableEq, Repr

namespace Position

def get (p : Position) : Axis → Float
  | .x => p.x
  | .y => p.y
  | .z => p.z

def set (p : Position) (axis : Axis) (value : Float) : Position :=
  match axis with
  | .x => { p with x := value }
  | .y => { p with y := value }
  | .z => { p with z := value }

theorem get_set (p : Position) (axis axis' : Axis) (value : Float) :
    (p.set axis value).get axis' = if axis' = axis then value else p.get axis' := by
  cases axis <;> cases axis' <;> rfl

def distance (p q : Position) : Float :=
  let dx := q.x - p.x
  let dy := q.y - p.y
  let dz := q.z - p.z
  (dx * dx + dy * dy + dz * dz).sqrt

end Position

inductive Effect where
  | positioning (mode : Positioning)
  | motion (mode : Motion)
  | feed (rate : Float)
  | spindle (state : Spindle)
  | coordinate (axis : Axis) (value : Float)
deriving DecidableEq, Repr

/-- The effect of a word. Feed words give a rate per minute, which is kept per second. -/
def Word.effect? (w : Word) : Option Effect :=
  if w.kind ≠ .address then none
  else match w.letter with
    | 'G' =>
      if w.code = "90" then some (.positioning .absolute)
      else if w.code = "91" then some (.positioning .incremental)
      else if w.code = "0" then some (.motion .rapid)
      else if w.code = "1" then some (.motion .linear)
      else none
    | 'M' =>
      if w.code = "3" then some (.spindle .clockwise)
      else if w.code = "4" then some (.spindle .counterClockwise)
      else if w.code = "5" then some (.spindle .off)
      else none
    | 'F' | 'E' => some (.feed (w.value / 60))
    | 'X' => some (.coordinate .x w.value)
    | 'Y' => some (.coordinate .y w.value)
    | 'Z' => some (.coordinate .z w.value)
    | _ => none

/-- The state of a machine. The target holds the coordinates that the open line has named so
far; the axes it did not name keep the position. -/
structure Machine where
  positioning : Positioning := .absolute
  motion : Motion := .rapid
  feedRate : Option Float := none
  position : Position := {}
  spindle : Spindle := .off
  target : Option Position := none
deriving DecidableEq, Repr

namespace Machine

def perform (m : Machine) : Effect → Machine
  | .positioning mode => { m with positioning := mode }
  | .motion mode => { m with motion := mode }
  | .feed rate => { m with feedRate := some rate }
  | .spindle state => { m with spindle := state }
  | .coordinate axis value => { m with target := some ((m.target.getD m.position).set axis value) }

def apply (m : Machine) (w : Word) : Machine :=
  match w.effect? with
  | some effect => m.perform effect
  | none => m

/-- Closes the line. In absolute positioning the machine moves to the target, and the distance
is returned. In incremental positioning the target is forgotten. -/
def closeLine (m : Machine) : Machine × Option Float :=
  match m.positioning with
  | .absolute =>
    let target := m.target.getD m.position
    ({ m with position := target, target := none }, some (m.position.distance target))
  | .incremental => ({ m with target := none }, none)

def step (m : Machine) (words : List Word) : Machine × Option Float :=
  (words.foldl apply m).closeLine

end Machine
end Gcode

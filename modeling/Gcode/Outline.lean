import Gcode.Block

/-! The outline of a program: the words that stand for rapid moves, cuts, work offsets, spindle,
coolant, tool changes and calls, each with a label and the line that it stands on. -/
namespace Gcode

inductive EntryKind where
  | rapid | cutting | clockwiseCutting | counterClockwiseCutting
  | workOffset
  | externalCall
  | spindleClockwise | spindleCounterClockwise
  | toolChange
  | coolantOn | coolantOff
  | localCall | localReturn
deriving DecidableEq, Repr

namespace EntryKind

def all : List EntryKind :=
  [rapid, cutting, clockwiseCutting, counterClockwiseCutting, workOffset, externalCall,
    spindleClockwise, spindleCounterClockwise, toolChange, coolantOn, coolantOff, localCall,
    localReturn]

def icon : EntryKind → String
  | rapid => "rapid"
  | cutting => "cutting"
  | clockwiseCutting => "cwcutting"
  | counterClockwiseCutting => "ccwcutting"
  | workOffset => "workoffset"
  | externalCall => "extsubprog"
  | spindleClockwise => "spindlecw"
  | spindleCounterClockwise => "spindleccw"
  | toolChange => "toolchange"
  | coolantOn => "coolanton"
  | coolantOff => "coolantoff"
  | localCall => "localsubcall"
  | localReturn => "localsubreturn"

end EntryKind

/-- One entry of an outline. Its columns are characters and cover the whole line. -/
structure Entry where
  label : String
  tooltip : String
  kind : EntryKind
  line : Nat
  start : Nat
  stop : Nat
deriving DecidableEq, Repr

/-- How the label of an entry is made: a fixed text, the number of a work offset, that number
and the word after it, or a spindle direction with the speed beside it. -/
inductive LabelRule where
  | fixed (text : String)
  | offset
  | indexedOffset
  | spindle (direction : String)
deriving DecidableEq, Repr

structure Meaning where
  kind : EntryKind
  tooltip : String
  label : LabelRule
deriving DecidableEq, Repr

namespace Meaning

def plainOffset : Meaning := ⟨.workOffset, "Work Coordinate System", .offset⟩

def table : List ((Char × String) × Meaning) := [
  (('G', "0"), ⟨.rapid, "G00 Rapid Motion", .fixed "Rapid"⟩),
  (('G', "1"), ⟨.cutting, "G01 Linear Interpolation", .fixed "Cutting"⟩),
  (('G', "2"), ⟨.clockwiseCutting, "G02 Circular Interpolation CW", .fixed "CW Cutting"⟩),
  (('G', "3"),
    ⟨.counterClockwiseCutting, "G03 Circular Interpolation CCW", .fixed "CCW Cutting"⟩),
  (('G', "15"), ⟨.workOffset, "Work Coordinate System", .indexedOffset⟩),
  (('G', "54.1"), ⟨.workOffset, "Additional Work Coordinate System", .indexedOffset⟩),
  (('G', "154"), ⟨.workOffset, "Additional Work Coordinate System", .indexedOffset⟩),
  (('G', "65"), ⟨.externalCall, "G65 External Subprogram Call", .fixed "Ext Subprogram"⟩),
  (('M', "3"), ⟨.spindleClockwise, "M03 Spindle On Clockwise", .spindle "CW"⟩),
  (('M', "4"), ⟨.spindleCounterClockwise, "M04 Spindle On Counter-Clockwise", .spindle "CCW"⟩),
  (('M', "6"), ⟨.toolChange, "M06 Tool Change", .fixed "Tool Change"⟩),
  (('M', "8"), ⟨.coolantOn, "M08 Coolant On", .fixed "Coolant On"⟩),
  (('M', "9"), ⟨.coolantOff, "M09 Coolant Off", .fixed "Coolant Off"⟩),
  (('M', "97"), ⟨.localCall, "M97 Local Subprogram Call", .fixed "Local Sub Call"⟩),
  (('M', "99"), ⟨.localReturn, "M99 Subprogram Return", .fixed "Local Sub Return"⟩)]

/-- The meaning of a word. A code outside the table may still be a work offset by its number. -/
def ofWord? (w : Word) : Option Meaning :=
  if w.kind ≠ .address then none
  else match table.lookup (w.letter, w.code) with
    | some meaning => some meaning
    | none => match readNat32? w.code.toList with
      | none => none
      | some n =>
        if w.letter = 'G' ∧ (54 ≤ n ∧ n ≤ 59 ∨ 110 ≤ n ∧ n ≤ 129) then some plainOffset else none

end Meaning

namespace LabelRule

/-- The label of the word at a position of a block. The speed of a spindle stands after a word
that opens the line, and before any other. Neighbours are shown whatever they are. -/
def render (rule : LabelRule) (block : Block) (position : Nat) (w : Word) : String :=
  match rule with
  | fixed text => text
  | offset => "Work Offset (G" ++ w.code ++ ")"
  | indexedOffset =>
    match block.neighbour? position 1 with
    | some index => "Work Offset (G" ++ w.code ++ " " ++ index.text ++ ")"
    | none => "Work Offset (G" ++ w.code ++ ")"
  | spindle direction =>
    match block.neighbour? position (if position = 0 then 1 else -1) with
    | some speed => "Spindle On " ++ speed.argument ++ "RPM " ++ direction
    | none => "Spindle On " ++ direction

end LabelRule

namespace Block

def entryAt? (block : Block) (position : Nat) (w : Word) : Option Entry :=
  (Meaning.ofWord? w).map fun meaning =>
    ⟨meaning.label.render block position w, meaning.tooltip, meaning.kind, block.index, 0,
      block.width⟩

def entries (block : Block) : List Entry :=
  block.words.zipIdx.filterMap fun (w, position) => block.entryAt? position w

end Block

def outline (text : String) : List Entry := (Block.ofText text).flatMap Block.entries

end Gcode

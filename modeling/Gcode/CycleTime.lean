import Gcode.Block
import Gcode.Machine

/-! Machining time: the distance of every feed move divided by the feed rate in force. -/
namespace Gcode

structure CycleTime where
  machine : Machine := {}
  seconds : Float := 0
deriving DecidableEq, Repr

namespace CycleTime

/-- Runs one line. Rapid motion takes no time, and without a feed rate a unit of length takes a
second. Moves in incremental positioning are not counted. -/
def step (t : CycleTime) (words : List Word) : CycleTime :=
  match t.machine.step words with
  | (machine, none) => ⟨machine, t.seconds⟩
  | (machine, some distance) =>
    match machine.motion with
    | .rapid => ⟨machine, t.seconds⟩
    | .linear => ⟨machine, t.seconds + distance / machine.feedRate.getD 1⟩

def run (t : CycleTime) (blocks : List Block) : CycleTime :=
  blocks.foldl (fun t block => t.step block.words) t

/-- Of its blocks a run reads nothing but the words. -/
theorem run_eq_foldl (t : CycleTime) (blocks : List Block) :
    t.run blocks = (blocks.map (·.words)).foldl step t := by
  rw [run, List.foldl_map]

def ofText (text : String) : Float := (run {} (Block.ofText text)).seconds

end CycleTime
end Gcode

import Gcode.Machine
import Mathlib.Data.List.Basic
import Mathlib.Data.List.Induction

/-! The modal state as a history: every register of a machine holds the last value that a word of
the run wrote into it, and an axis the last value of a line that ended in absolute positioning. -/
namespace Gcode

def lastOf {β : Type} (read : Word → Option β) (words : List Word) : Option β :=
  (words.filterMap read).getLast?

theorem lastOf_append {β : Type} (read : Word → Option β) (u v : List Word) :
    lastOf read (u ++ v) = (lastOf read v).or (lastOf read u) := by
  rw [lastOf, List.filterMap_append, List.getLast?_append]
  rfl

theorem lastOf_singleton {β : Type} (read : Word → Option β) (w : Word) :
    lastOf read [w] = read w := by
  cases h : read w <;> simp [lastOf, h]

theorem lastOf_map {β γ : Type} (read : Word → Option β) (f : β → γ) (words : List Word) :
    lastOf (fun w => (read w).map f) words = (lastOf read words).map f := by
  induction words using List.reverseRecOn with
  | nil => rfl
  | append_singleton words w ih =>
    rw [lastOf_append, lastOf_append, lastOf_singleton, lastOf_singleton, ih]
    cases read w <;> rfl

namespace Word

def positioning? (w : Word) : Option Positioning :=
  if w.is 'G' "90" then some .absolute
  else if w.is 'G' "91" then some .incremental
  else none

def motion? (w : Word) : Option Motion :=
  if w.is 'G' "0" then some .rapid
  else if w.is 'G' "1" then some .linear
  else none

def spindle? (w : Word) : Option Spindle :=
  if w.is 'M' "3" then some .clockwise
  else if w.is 'M' "4" then some .counterClockwise
  else if w.is 'M' "5" then some .off
  else none

def feedRate? (w : Word) : Option Float :=
  if w.kind = .address ∧ (w.letter = 'F' ∨ w.letter = 'E') then some (w.value / 60) else none

def axisLetter : Axis → Char
  | .x => 'X'
  | .y => 'Y'
  | .z => 'Z'

def coordinate? (axis : Axis) (w : Word) : Option Float :=
  if w.kind = .address ∧ w.letter = axisLetter axis then some w.value else none

end Word

namespace Machine

def aim (m : Machine) : Position := m.target.getD m.position

def run (m : Machine) (lines : List (List Word)) : Machine :=
  lines.foldl (fun m words => (m.step words).1) m

end Machine

/-- The positioning in force at the end of some lines, whatever the order of words on the last. -/
def closingMode (lines : List (List Word)) : Positioning :=
  (lastOf Word.positioning? lines.flatten).getD .absolute

/-- The values that lines give to an axis: of each line that names the axis and closes in absolute
positioning the last one. -/
def committed (axis : Axis) (lines : List (List Word)) : List Float :=
  (List.range lines.length).filterMap fun i =>
    if closingMode (lines.take (i + 1)) = .absolute then
      lines[i]?.bind (lastOf (Word.coordinate? axis))
    else none

def lastPosition (lines : List (List Word)) : Position where
  x := (committed .x lines).getLast?.getD 0
  y := (committed .y lines).getLast?.getD 0
  z := (committed .z lines).getLast?.getD 0

theorem Position.ext_get {p q : Position} (h : ∀ axis, p.get axis = q.get axis) : p = q := by
  cases p
  cases q
  exact (Position.mk.injEq ..).mpr ⟨h .x, h .y, h .z⟩

theorem lastPosition_get (lines : List (List Word)) (axis : Axis) :
    (lastPosition lines).get axis = (committed axis lines).getLast?.getD 0 := by
  cases axis <;> rfl

theorem committed_concat (axis : Axis) (lines : List (List Word)) (words : List Word) :
    committed axis (lines ++ [words]) = committed axis lines ++
      (if closingMode (lines ++ [words]) = .absolute then lastOf (Word.coordinate? axis) words
        else none).toList := by
  have hlen : (lines ++ [words]).length = lines.length + 1 := by simp
  have hlast : (lines ++ [words]).take (lines.length + 1) = lines ++ [words] := by
    rw [← hlen, List.take_length]
  have hprev : ∀ i ∈ List.range lines.length,
      (lines ++ [words]).take (i + 1) = lines.take (i + 1) ∧
        (lines ++ [words])[i]? = lines[i]? := by
    intro i hi
    have hi := List.mem_range.mp hi
    exact ⟨List.take_append_of_le_length hi, List.getElem?_append_left hi⟩
  rw [committed, hlen, List.range_succ, List.filterMap_append]
  congr 1
  · apply List.filterMap_congr
    intro i hi
    rw [(hprev i hi).1, (hprev i hi).2]
  · cases h : (if closingMode (lines ++ [words]) = .absolute then
        lastOf (Word.coordinate? axis) words else none) <;>
      simp [hlast, h]

namespace Effect

def positioning? : Effect → Option Positioning
  | positioning mode => some mode
  | _ => none

def motion? : Effect → Option Motion
  | motion mode => some mode
  | _ => none

def feedRate? : Effect → Option Float
  | feed rate => some rate
  | _ => none

def spindle? : Effect → Option Spindle
  | spindle state => some state
  | _ => none

def coordinate? (axis : Axis) : Effect → Option Float
  | coordinate axis' value => if axis = axis' then some value else none
  | _ => none

end Effect

namespace Word

theorem effect?_positioning (w : Word) : w.effect?.bind Effect.positioning? = w.positioning? := by
  grind [effect?, positioning?, is, Effect.positioning?]

theorem effect?_motion (w : Word) : w.effect?.bind Effect.motion? = w.motion? := by
  grind [effect?, motion?, is, Effect.motion?]

theorem effect?_feedRate (w : Word) : w.effect?.bind Effect.feedRate? = w.feedRate? := by
  grind [effect?, feedRate?, is, Effect.feedRate?]

theorem effect?_spindle (w : Word) : w.effect?.bind Effect.spindle? = w.spindle? := by
  by_cases hm : w.letter = 'M'
  · simp only [effect?, hm, spindle?, is]
    grind [Effect.spindle?]
  · have hs : w.spindle? = none := by simp [spindle?, is, hm]
    rw [hs]
    grind [effect?, Effect.spindle?]

theorem effect?_coordinate (axis : Axis) (w : Word) :
    w.effect?.bind (Effect.coordinate? axis) = w.coordinate? axis := by
  cases axis <;> grind [effect?, coordinate?, axisLetter, Effect.coordinate?]

theorem lastOf_effect?_feedRate (words : List Word) :
    lastOf (fun w => w.effect?.bind fun e => e.feedRate?.map some) words =
      (lastOf feedRate? words).map some := by
  have hread : (fun w : Word => w.effect?.bind fun e => e.feedRate?.map some) =
      fun w => w.feedRate?.map some := by
    funext w
    rw [← effect?_feedRate]
    cases w.effect? <;> rfl
  rw [hread, lastOf_map]

end Word

namespace Machine

/-- A register that every effect either writes or leaves alone holds the last write. -/
theorem foldl_apply {β : Type} (get : Machine → β) (write : Effect → Option β)
    (h : ∀ m e, get (m.perform e) = (write e).getD (get m)) (m : Machine) (words : List Word) :
    get (words.foldl apply m) =
      (lastOf (fun w => w.effect?.bind write) words).getD (get m) := by
  induction words generalizing m with
  | nil => rfl
  | cons w words ih =>
    have hw : get (m.apply w) = (w.effect?.bind write).getD (get m) := by
      unfold apply
      cases he : w.effect? with
      | none => rfl
      | some e => exact h m e
    have hl := lastOf_append (fun w => w.effect?.bind write) [w] words
    rw [List.singleton_append, lastOf_singleton] at hl
    rw [List.foldl_cons, ih, hw, hl]
    cases lastOf (fun w => w.effect?.bind write) words <;> rfl

/-- What closing a line leaves alone, too, holds the last write of a run. -/
theorem run_register {β : Type} (get : Machine → β) (write : Effect → Option β)
    (h : ∀ m e, get (m.perform e) = (write e).getD (get m))
    (hclose : ∀ m, get m.closeLine.1 = get m) (m : Machine) (lines : List (List Word)) :
    get (m.run lines) =
      (lastOf (fun w => w.effect?.bind write) lines.flatten).getD (get m) := by
  induction lines generalizing m with
  | nil => rfl
  | cons words lines ih =>
    have hw : get (m.step words).1 =
        (lastOf (fun w => w.effect?.bind write) words).getD (get m) := by
      rw [step, hclose, foldl_apply get write h]
    rw [run, List.foldl_cons, ← run, ih, hw, List.flatten_cons, lastOf_append]
    cases lastOf (fun w => w.effect?.bind write) lines.flatten <;> rfl

theorem positioning_closeLine (m : Machine) : m.closeLine.1.positioning = m.positioning := by
  unfold closeLine
  split <;> rfl

theorem motion_closeLine (m : Machine) : m.closeLine.1.motion = m.motion := by
  unfold closeLine
  split <;> rfl

theorem feedRate_closeLine (m : Machine) : m.closeLine.1.feedRate = m.feedRate := by
  unfold closeLine
  split <;> rfl

theorem spindle_closeLine (m : Machine) : m.closeLine.1.spindle = m.spindle := by
  unfold closeLine
  split <;> rfl

/-- No target outlives its line. -/
theorem target_closeLine (m : Machine) : m.closeLine.1.target = none := by
  unfold closeLine
  split <;> rfl

theorem position_closeLine (m : Machine) : m.closeLine.1.position =
    if m.positioning = .absolute then m.aim else m.position := by
  unfold closeLine aim
  cases m.positioning <;> rfl

theorem distance_closeLine (m : Machine) : m.closeLine.2 =
    if m.positioning = .absolute then some (m.position.distance m.aim) else none := by
  unfold closeLine aim
  cases m.positioning <;> rfl

theorem run_concat (m : Machine) (lines : List (List Word)) (words : List Word) :
    m.run (lines ++ [words]) = ((m.run lines).step words).1 := by
  rw [run, List.foldl_append]
  rfl

theorem positioning_run (lines : List (List Word)) :
    (run {} lines).positioning = closingMode lines := by
  have h := run_register positioning Effect.positioning? (by intro m e; cases e <;> rfl)
    positioning_closeLine {} lines
  simp only [Word.effect?_positioning] at h
  exact h

theorem motion_run (lines : List (List Word)) :
    (run {} lines).motion = (lastOf Word.motion? lines.flatten).getD .rapid := by
  have h := run_register motion Effect.motion? (by intro m e; cases e <;> rfl)
    motion_closeLine {} lines
  simpa only [Word.effect?_motion] using h

theorem spindle_run (lines : List (List Word)) :
    (run {} lines).spindle = (lastOf Word.spindle? lines.flatten).getD .off := by
  have h := run_register spindle Effect.spindle? (by intro m e; cases e <;> rfl)
    spindle_closeLine {} lines
  simpa only [Word.effect?_spindle] using h

theorem feedRate_run (lines : List (List Word)) :
    (run {} lines).feedRate = lastOf Word.feedRate? lines.flatten := by
  have h := run_register feedRate (fun e => e.feedRate?.map some) (by intro m e; cases e <;> rfl)
    feedRate_closeLine {} lines
  rw [Word.lastOf_effect?_feedRate] at h
  rw [h]
  cases lastOf Word.feedRate? lines.flatten <;> rfl

theorem target_run {m : Machine} (hm : m.target = none) (lines : List (List Word)) :
    (m.run lines).target = none := by
  induction lines generalizing m with
  | nil => exact hm
  | cons words lines ih => exact ih (target_closeLine _)

theorem positioning_foldl_apply (m : Machine) (words : List Word) :
    (words.foldl apply m).positioning =
      (lastOf Word.positioning? words).getD m.positioning := by
  have h := foldl_apply positioning Effect.positioning? (by intro m e; cases e <;> rfl) m words
  simpa only [Word.effect?_positioning] using h

theorem motion_foldl_apply (m : Machine) (words : List Word) :
    (words.foldl apply m).motion = (lastOf Word.motion? words).getD m.motion := by
  have h := foldl_apply motion Effect.motion? (by intro m e; cases e <;> rfl) m words
  simpa only [Word.effect?_motion] using h

theorem feedRate_foldl_apply (m : Machine) (words : List Word) :
    (words.foldl apply m).feedRate = (lastOf Word.feedRate? words).or m.feedRate := by
  have h := foldl_apply feedRate (fun e => e.feedRate?.map some) (by intro m e; cases e <;> rfl)
    m words
  rw [Word.lastOf_effect?_feedRate] at h
  rw [h]
  cases lastOf Word.feedRate? words <;> rfl

theorem position_foldl_apply (m : Machine) (words : List Word) :
    (words.foldl apply m).position = m.position := by
  have h := foldl_apply position (fun _ => none) (by intro m e; cases e <;> rfl) m words
  simpa [lastOf] using h

/-- Along a line an axis leads to the last coordinate that was named for it. -/
theorem aim_foldl_apply (m : Machine) (words : List Word) (axis : Axis) :
    (words.foldl apply m).aim.get axis =
      (lastOf (Word.coordinate? axis) words).getD (m.aim.get axis) := by
  have h := foldl_apply (fun m => m.aim.get axis) (Effect.coordinate? axis) (fun m e => by
    cases e with
    | coordinate axis' value =>
      rw [perform, aim, Option.getD_some, Position.get_set, Effect.coordinate?, ← aim]
      split <;> rfl
    | _ => rfl) m words
  simpa only [Word.effect?_coordinate] using h

/-- The positioning at the end of a line decides about all of the line. -/
theorem positioning_line (lines : List (List Word)) (words : List Word) :
    (words.foldl apply (run {} lines)).positioning = closingMode (lines ++ [words]) := by
  rw [← positioning_run, run_concat, step, positioning_closeLine]

theorem position_run (lines : List (List Word)) : (run {} lines).position = lastPosition lines := by
  induction lines using List.reverseRecOn with
  | nil => rfl
  | append_singleton lines words ih =>
    -- No target is left of the lines before, so the next line sets out from their position.
    have haim : (run {} lines).aim = lastPosition lines := by
      rw [aim, target_run rfl, Option.getD_none, ih]
    apply Position.ext_get
    intro axis
    rw [run_concat, step, position_closeLine, positioning_line, position_foldl_apply, ih,
      lastPosition_get (lines ++ [words]), committed_concat]
    split
    · rw [aim_foldl_apply, haim, lastPosition_get]
      cases lastOf (Word.coordinate? axis) words <;> simp
    · simp [lastPosition_get]

/-- The registers of a machine are the history of its run: the last positioning, motion, feed rate
and spindle state that a word wrote, and the coordinates of the last lines that closed in absolute
positioning. If the next line closes in absolute positioning, it covers the Euclidean distance
from the coordinates before it to those after it, and otherwise none. -/
theorem run_last_writes (lines : List (List Word)) :
    (run {} lines).positioning =
      (lastOf Word.positioning? lines.flatten).getD .absolute ∧
    (run {} lines).motion = (lastOf Word.motion? lines.flatten).getD .rapid ∧
    (run {} lines).feedRate = lastOf Word.feedRate? lines.flatten ∧
    (run {} lines).spindle = (lastOf Word.spindle? lines.flatten).getD .off ∧
    (∀ axis, (run {} lines).position.get axis = (committed axis lines).getLast?.getD 0) ∧
    ∀ words,
      let before := lastPosition lines
      let after := lastPosition (lines ++ [words])
      ((run {} lines).step words).2 =
        if closingMode (lines ++ [words]) = .absolute then
          some ((after.x - before.x) * (after.x - before.x) +
            (after.y - before.y) * (after.y - before.y) +
            (after.z - before.z) * (after.z - before.z)).sqrt
        else none := by
  refine ⟨positioning_run lines, motion_run lines, feedRate_run lines, spindle_run lines,
    fun axis => by rw [position_run, lastPosition_get], ?_⟩
  intro words before after
  have hclose := position_closeLine (words.foldl apply (run {} lines))
  rw [← step, ← run_concat, position_run, positioning_line] at hclose
  rw [step, distance_closeLine, positioning_line, position_foldl_apply, position_run]
  split
  · next hmode =>
    have hafter : after = (words.foldl apply (run {} lines)).aim := hclose.trans (if_pos hmode)
    rw [hafter]
    rfl
  · rfl

end Machine
end Gcode

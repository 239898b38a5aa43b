import Gcode.CycleTime
import Gcode.Proofs.ModalHistory

/-! What the machining time of a program depends on: motion, positioning and feed words, and the
last coordinates on lines that close in absolute positioning. Nothing else can change it. -/
namespace Gcode
namespace Word

/-- What a word tells the clock: a motion or positioning code in its canonical form, or a feed rate
as it is written. -/
def timing? (w : Word) : Option (Char × String) :=
  if w.kind ≠ .address then none
  else if w.letter = 'G' ∧ w.code ∈ ["0", "1", "90", "91"] then some ('G', w.code)
  else if w.letter = 'F' ∨ w.letter = 'E' then some (w.letter, w.argument)
  else none

def axisArgument? (axis : Axis) (w : Word) : Option String :=
  if w.kind = .address ∧ w.letter = axisLetter axis then some w.argument else none

end Word

/-- Two runs of as many lines that tell the clock the same, line by line: the same motion,
positioning and feed words in the same order, and the same last argument for each axis where the
line closes in absolute positioning. -/
structure TimedAlike (xs ys : List (List Word)) : Prop where
  length_eq : xs.length = ys.length
  timing_eq : ∀ (k : Nat) (u v : List Word), xs[k]? = some u → ys[k]? = some v →
    u.filterMap Word.timing? = v.filterMap Word.timing?
  axis_eq : ∀ (k : Nat) (u v : List Word), xs[k]? = some u → ys[k]? = some v →
    closingMode (xs.take (k + 1)) = .absolute →
    ∀ axis, lastOf (Word.axisArgument? axis) u = lastOf (Word.axisArgument? axis) v

def numberOf (argument : String) : Float := (readFloat? argument.toList).getD (0.0 / 0.0)

namespace Timing

def positioning? (said : Char × String) : Option Positioning :=
  if said = ('G', "90") then some .absolute
  else if said = ('G', "91") then some .incremental
  else none

def motion? (said : Char × String) : Option Motion :=
  if said = ('G', "0") then some .rapid
  else if said = ('G', "1") then some .linear
  else none

def feedRate? (said : Char × String) : Option Float :=
  if said.1 = 'F' ∨ said.1 = 'E' then some (numberOf said.2 / 60) else none

end Timing

namespace Word

theorem timing?_positioning (w : Word) : w.timing?.bind Timing.positioning? = w.positioning? := by
  unfold timing? positioning?
  split
  · simp_all [is]
  · split
    · simp_all [is, Timing.positioning?]
    · split <;> grind [is, Timing.positioning?]

theorem timing?_motion (w : Word) : w.timing?.bind Timing.motion? = w.motion? := by
  unfold timing? motion?
  split
  · simp_all [is]
  · split
    · simp_all [is, Timing.motion?]
    · split <;> grind [is, Timing.motion?]

theorem timing?_feedRate (w : Word) : w.timing?.bind Timing.feedRate? = w.feedRate? := by
  unfold timing? feedRate?
  split
  · simp_all
  · split
    · simp_all [Timing.feedRate?]
    · split <;> simp_all [Timing.feedRate?, value, numberOf]

theorem axisArgument?_coordinate (axis : Axis) (w : Word) :
    (w.axisArgument? axis).map numberOf = w.coordinate? axis := by
  unfold axisArgument? coordinate?
  split <;> rfl

end Word

variable {u v : List Word}

/-- A register that only the clock's words write ends up the same. -/
theorem lastOf_congr {β : Type} {read : Word → Option β} {said : Char × String → Option β}
    (hr : ∀ w, w.timing?.bind said = read w)
    (h : u.filterMap Word.timing? = v.filterMap Word.timing?) : lastOf read u = lastOf read v := by
  have hread (words : List Word) :
      words.filterMap read = (words.filterMap Word.timing?).filterMap said := by
    rw [List.filterMap_filterMap]
    exact List.filterMap_congr fun w _ => (hr w).symm
  rw [lastOf, lastOf, hread, hread, h]

theorem lastOf_coordinate (axis : Axis)
    (h : lastOf (Word.axisArgument? axis) u = lastOf (Word.axisArgument? axis) v) :
    lastOf (Word.coordinate? axis) u = lastOf (Word.coordinate? axis) v := by
  have hread : Word.coordinate? axis = fun w => (w.axisArgument? axis).map numberOf := by
    funext w
    exact (w.axisArgument?_coordinate axis).symm
  rw [hread, lastOf_map, lastOf_map, h]

namespace Machine

structure Alike (m m' : Machine) : Prop where
  positioning_eq : m.positioning = m'.positioning
  motion_eq : m.motion = m'.motion
  feedRate_eq : m.feedRate = m'.feedRate
  position_eq : m.position = m'.position
  target_left : m.target = none
  target_right : m'.target = none

namespace Alike
variable {m m' : Machine}

/-- After the same line for the clock, machines that are alike cover the same distance and are
alike again. What a line that closes in incremental positioning says of the axes is forgotten. -/
theorem step (h : m.Alike m') (ht : u.filterMap Word.timing? = v.filterMap Word.timing?)
    (ha : (u.foldl apply m).positioning = .absolute →
      ∀ axis, lastOf (Word.axisArgument? axis) u = lastOf (Word.axisArgument? axis) v) :
    (m.step u).1.Alike (m'.step v).1 ∧ (m.step u).2 = (m'.step v).2 := by
  have hmode : (u.foldl apply m).positioning = (v.foldl apply m').positioning := by
    rw [positioning_foldl_apply, positioning_foldl_apply, h.positioning_eq,
      lastOf_congr Word.timing?_positioning ht]
  have hmotion : (u.foldl apply m).motion = (v.foldl apply m').motion := by
    rw [motion_foldl_apply, motion_foldl_apply, h.motion_eq, lastOf_congr Word.timing?_motion ht]
  have hfeed : (u.foldl apply m).feedRate = (v.foldl apply m').feedRate := by
    rw [feedRate_foldl_apply, feedRate_foldl_apply, h.feedRate_eq,
      lastOf_congr Word.timing?_feedRate ht]
  have hstart : (u.foldl apply m).position = (v.foldl apply m').position := by
    rw [position_foldl_apply, position_foldl_apply, h.position_eq]
  have haim (hm : (u.foldl apply m).positioning = .absolute) :
      (u.foldl apply m).aim = (v.foldl apply m').aim := by
    apply Position.ext_get
    intro axis
    have hm₀ : m.aim = m'.aim := by
      rw [aim, aim, h.target_left, h.target_right, h.position_eq]
    rw [aim_foldl_apply, aim_foldl_apply, hm₀, lastOf_coordinate axis (ha hm axis)]
  constructor
  · constructor
    · rw [Machine.step, Machine.step, positioning_closeLine, positioning_closeLine, hmode]
    · rw [Machine.step, Machine.step, motion_closeLine, motion_closeLine, hmotion]
    · rw [Machine.step, Machine.step, feedRate_closeLine, feedRate_closeLine, hfeed]
    · rw [Machine.step, Machine.step, position_closeLine, position_closeLine, ← hmode, hstart]
      split
      · exact haim ‹_›
      · rfl
    · exact target_closeLine _
    · exact target_closeLine _
  · rw [Machine.step, Machine.step, distance_closeLine, distance_closeLine, ← hmode, hstart]
    split
    · rw [haim ‹_›]
    · rfl

end Alike
end Machine
namespace CycleTime

theorem machine_step (t : CycleTime) (words : List Word) :
    (t.step words).machine = (t.machine.step words).1 := by
  unfold step
  cases t.machine.step words with
  | mk m d =>
    cases d with
    | none => rfl
    | some distance =>
      simp only
      split <;> rfl

/-- The clock goes on by the time of the line, if the line is a move at the feed rate. -/
theorem seconds_step (t : CycleTime) (words : List Word) :
    (t.step words).seconds =
      match (t.machine.step words).2, (t.machine.step words).1.motion with
      | some distance, .linear =>
        t.seconds + distance / (t.machine.step words).1.feedRate.getD 1
      | _, _ => t.seconds := by
  unfold step
  cases t.machine.step words with
  | mk m d =>
    cases d with
    | none => rfl
    | some distance =>
      simp only
      cases m.motion <;> rfl

theorem machine_foldl_step (lines : List (List Word)) :
    (lines.foldl step {}).machine = Machine.run {} lines := by
  induction lines using List.reverseRecOn with
  | nil => rfl
  | append_singleton lines words ih =>
    rw [List.foldl_append, Machine.run_concat, ← ih]
    exact machine_step _ words

/-- Clocks that show the same next to machines that are alike show the same after the next line. -/
theorem step_alike {t t' : CycleTime} (h : t.machine.Alike t'.machine)
    (hs : t.seconds = t'.seconds)
    (ht : u.filterMap Word.timing? = v.filterMap Word.timing?)
    (ha : (u.foldl Machine.apply t.machine).positioning = .absolute →
      ∀ axis, lastOf (Word.axisArgument? axis) u = lastOf (Word.axisArgument? axis) v) :
    (t.step u).machine.Alike (t'.step v).machine ∧ (t.step u).seconds = (t'.step v).seconds := by
  obtain ⟨halike, hdistance⟩ := h.step ht ha
  rw [machine_step, machine_step]
  refine ⟨halike, ?_⟩
  rw [seconds_step, seconds_step, hs, hdistance, halike.motion_eq, halike.feedRate_eq]

end CycleTime

namespace TimedAlike
variable {xs ys : List (List Word)}

theorem init (h : TimedAlike (xs ++ [u]) (ys ++ [v])) : TimedAlike xs ys := by
  have hlen : xs.length = ys.length := by simpa using h.length_eq
  have hget {zs : List (List Word)} {w w' : List Word} {k : Nat} (hk : zs[k]? = some w) :
      (zs ++ [w'])[k]? = some w :=
    (List.getElem?_append_left (List.getElem?_eq_some_iff.mp hk).1).trans hk
  refine ⟨hlen, fun k w w' hw hw' => h.timing_eq k w w' (hget hw) (hget hw'), ?_⟩
  intro k w w' hw hw' hm
  apply h.axis_eq k w w' (hget hw) (hget hw')
  rwa [List.take_append_of_le_length (List.getElem?_eq_some_iff.mp hw).1]

theorem last (h : TimedAlike (xs ++ [u]) (ys ++ [v])) :
    u.filterMap Word.timing? = v.filterMap Word.timing? ∧
      (closingMode (xs ++ [u]) = .absolute →
        ∀ axis, lastOf (Word.axisArgument? axis) u = lastOf (Word.axisArgument? axis) v) := by
  have hlen : xs.length = ys.length := by simpa using h.length_eq
  have hu : (xs ++ [u])[xs.length]? = some u := List.getElem?_concat_length
  have hv : (ys ++ [v])[xs.length]? = some v := hlen ▸ List.getElem?_concat_length
  refine ⟨h.timing_eq _ u v hu hv, fun hm => h.axis_eq _ u v hu hv ?_⟩
  rwa [List.take_of_length_le (by simp)]

/-- Line by line, both clocks show the same. -/
theorem foldl_step (h : TimedAlike xs ys) :
    (xs.foldl CycleTime.step {}).machine.Alike (ys.foldl CycleTime.step {}).machine ∧
      (xs.foldl CycleTime.step {}).seconds = (ys.foldl CycleTime.step {}).seconds := by
  induction xs using List.reverseRecOn generalizing ys with
  | nil =>
    obtain rfl := List.eq_nil_of_length_eq_zero h.length_eq.symm
    exact ⟨⟨rfl, rfl, rfl, rfl, rfl, rfl⟩, rfl⟩
  | append_singleton xs u ih =>
    rcases List.eq_nil_or_concat ys with rfl | ⟨ys, v, rfl⟩
    · exact absurd h.length_eq (by simp)
    · rw [List.concat_eq_append] at h ⊢
      obtain ⟨ht, ha⟩ := h.last
      obtain ⟨halike, hseconds⟩ := ih h.init
      rw [List.foldl_append, List.foldl_append]
      apply CycleTime.step_alike halike hseconds ht
      rw [CycleTime.machine_foldl_step, Machine.positioning_line]
      exact ha

end TimedAlike

/-- Programs that tell the clock the same, line by line, take the same time to the last bit. Other
codes, the spindle, macros, keywords and comments have no part in it, nor have coordinates on lines
that close in incremental positioning, nor the places of axis words among the others. -/
theorem CycleTime.ofText_eq_of_timedAlike {a b : String}
    (h : TimedAlike ((Block.ofText a).map (·.words)) ((Block.ofText b).map (·.words))) :
    ofText a = ofText b := by
  rw [ofText, ofText, run_eq_foldl, run_eq_foldl]
  exact h.foldl_step.2

theorem CycleTime.ofText_eq_of_timedAlike_incremental_line :
    let a := "G1 X3 F60 (cut)\nG91 X5 M3"
    let b := "x9 g001 #1 f60 x3\r\r\nGOTO2 y7 g91 ; on"
    TimedAlike ((Block.ofText a).map (·.words)) ((Block.ofText b).map (·.words)) ∧
      ofText a = ofText b := by
  intro a b
  have hwords : TimedAlike ((Block.ofText a).map (·.words)) ((Block.ofText b).map (·.words)) := by
    have ha : (Block.ofText a).map (·.words) =
        [[⟨'G', "1", 0, .address⟩, ⟨'X', "3", 0, .address⟩, ⟨'F', "60", 0, .address⟩],
          [⟨'G', "91", 1, .address⟩, ⟨'X', "5", 1, .address⟩, ⟨'M', "3", 1, .address⟩]] := by
      decide +kernel
    have hb : (Block.ofText b).map (·.words) =
        [[⟨'X', "9", 0, .address⟩, ⟨'G', "001", 0, .address⟩, ⟨'#', "1", 0, .macroVar⟩,
            ⟨'F', "60", 0, .address⟩, ⟨'X', "3", 0, .address⟩],
          [⟨'G', "OTO", 2, .keyword⟩, ⟨'Y', "7", 2, .address⟩, ⟨'G', "91", 2, .address⟩]] := by
      decide +kernel
    rw [ha, hb]
    refine ⟨rfl, ?_, ?_⟩
    · rintro (_ | _ | k) u v hu hv <;> cases hu <;> cases hv <;> decide +kernel
    · rintro (_ | _ | k) u v hu hv hm axis <;> cases hu <;> cases hv
      · cases axis <;> decide +kernel
      · exact absurd hm (by decide +kernel)
  exact ⟨hwords, ofText_eq_of_timedAlike hwords⟩

end Gcode

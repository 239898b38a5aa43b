import Gcode.Proofs.TimeDependence

/-! Motion that takes no time. The clock goes on at a line that closes in absolute positioning and
linear motion, and at no other, whatever numbers the others contain. -/
namespace Gcode

theorem mem_of_lastOf {β : Type} {read : Word → Option β} {words : List Word} {b : β}
    (h : lastOf read words = some b) : ∃ w ∈ words, read w = some b :=
  List.mem_filterMap.mp (List.mem_of_getLast? h)

namespace Word
variable {w : Word}

theorem is_of_motion? (h : w.motion? = some .linear) : w.is 'G' "1" := by
  unfold motion? at h
  split at h
  · cases h
  · split at h
    · assumption
    · cases h

theorem is_of_positioning? (h : w.positioning? = some .absolute) : w.is 'G' "90" := by
  unfold positioning? at h
  split at h
  · assumption
  · split at h <;> cases h

theorem positioning?_of_is (h : w.is 'G' "91") : w.positioning? = some .incremental := by
  have hcode : w.code = "91" := by
    simp only [is, Bool.and_eq_true, decide_eq_true_eq] at h
    exact h.2
  have hother : ¬w.is 'G' "90" := by simp [is, hcode]
  rw [positioning?, if_neg hother, if_pos h]

end Word

/-- A word for incremental positioning is in force as long as no word for absolute positioning
follows. -/
theorem lastOf_positioning?_of_is {u v : List Word} {w : Word} (hw : w.is 'G' "91")
    (hv : ∀ x ∈ v, ¬x.is 'G' "90") :
    lastOf Word.positioning? (u ++ w :: v) = some .incremental := by
  rw [lastOf_append, ← List.singleton_append, lastOf_append, lastOf_singleton,
    Word.positioning?_of_is hw]
  cases h : lastOf Word.positioning? v with
  | none => rfl
  | some mode =>
    cases mode with
    | incremental => rfl
    | absolute =>
      obtain ⟨x, hx, hread⟩ := mem_of_lastOf h
      exact absurd (Word.is_of_positioning? hread) (hv x hx)

namespace Machine

def Feeds (m : Machine) : Prop := m.positioning = .absolute ∧ m.motion = .linear

instance (m : Machine) : Decidable m.Feeds :=
  inferInstanceAs (Decidable (m.positioning = .absolute ∧ m.motion = .linear))

/-- No line of a run is a move at the feed rate. -/
def RunsFree (m : Machine) (lines : List (List Word)) : Prop :=
  ∀ before words, before ++ [words] <+: lines → ¬(m.run (before ++ [words])).Feeds

theorem RunsFree.step {m : Machine} {words : List Word} {lines : List (List Word)}
    (h : m.RunsFree (words :: lines)) :
    ¬(m.step words).1.Feeds ∧ (m.step words).1.RunsFree lines := by
  constructor
  · exact h [] words (List.prefix_append [words] lines)
  · intro before words' hprefix
    exact h (words :: before) words' (List.prefix_cons_iff.mpr (.inr ⟨_, rfl, hprefix⟩))

theorem not_feeds_of_rapid {lines : List (List Word)}
    (h : ∀ w ∈ lines.flatten, ¬w.is 'G' "1") : ¬(run {} lines).Feeds := by
  rintro ⟨-, hmotion⟩
  rw [motion_run] at hmotion
  cases hl : lastOf Word.motion? lines.flatten with
  | none =>
    rw [hl] at hmotion
    cases hmotion
  | some mode =>
    obtain rfl : mode = .linear := by simpa [hl] using hmotion
    obtain ⟨w, hw, hread⟩ := mem_of_lastOf hl
    exact h w hw (Word.is_of_motion? hread)

theorem not_feeds_of_incremental {lines : List (List Word)} {u v : List Word} {w : Word}
    (hlines : lines.flatten = u ++ w :: v) (hw : w.is 'G' "91") (hv : ∀ x ∈ v, ¬x.is 'G' "90") :
    ¬(run {} lines).Feeds := by
  rintro ⟨hmode, -⟩
  rw [positioning_run, closingMode, hlines, lastOf_positioning?_of_is hw hv] at hmode
  cases hmode

theorem mem_flatten_of_isPrefix {a b : List (List Word)} {w : Word} (h : a <+: b)
    (hw : w ∈ a.flatten) : w ∈ b.flatten := by
  obtain ⟨words, hwords, hw⟩ := List.mem_flatten.mp hw
  exact List.mem_flatten.mpr ⟨words, h.mem hwords, hw⟩

theorem runsFree_of_rapid {lines : List (List Word)}
    (h : ∀ w ∈ lines.flatten, ¬w.is 'G' "1") : RunsFree {} lines := by
  intro before words hprefix
  exact not_feeds_of_rapid fun w hw => h w (mem_flatten_of_isPrefix hprefix hw)

/-- In front of the line with a word for incremental positioning motion is rapid, and from there on
positioning is incremental. -/
theorem runsFree_of_incremental {before after : List (List Word)} {u v : List Word} {w : Word}
    (hrapid : ∀ x ∈ before.flatten, ¬x.is 'G' "1") (hw : w.is 'G' "91")
    (hv : ∀ x ∈ v ++ after.flatten, ¬x.is 'G' "90") :
    RunsFree {} (before ++ (u ++ w :: v) :: after) := by
  intro lines words hprefix
  have hrapid' (h : lines ++ [words] <+: before) : ¬(run {} (lines ++ [words])).Feeds :=
    not_feeds_of_rapid fun x hx => hrapid x (mem_flatten_of_isPrefix h hx)
  have hbefore := List.prefix_append before ((u ++ w :: v) :: after)
  rcases List.prefix_or_prefix_of_prefix hprefix hbefore with h | ⟨rest, hrest⟩
  · exact hrapid' h
  · rw [← hrest, List.prefix_append_right_inj, List.prefix_cons_iff] at hprefix
    rcases hprefix with rfl | ⟨behind, rfl, hbehind⟩
    · rw [List.append_nil] at hrest
      exact hrapid' (hrest ▸ List.prefix_rfl)
    · have hflatten : (lines ++ [words]).flatten =
          before.flatten ++ u ++ w :: (v ++ behind.flatten) := by
        rw [← hrest]
        simp
      refine not_feeds_of_incremental hflatten hw fun x hx => ?_
      rw [List.mem_append] at hx
      exact hv x (List.mem_append.mpr (hx.imp_right (mem_flatten_of_isPrefix hbehind)))

end Machine

namespace CycleTime

theorem seconds_step_of_not_feeds {t : CycleTime} {words : List Word}
    (h : ¬(t.machine.step words).1.Feeds) : (t.step words).seconds = t.seconds := by
  rw [seconds_step]
  split
  · next distance hdistance hmotion =>
    rw [Machine.step, Machine.distance_closeLine] at hdistance
    split at hdistance
    · next hmode =>
      rw [← Machine.positioning_closeLine, ← Machine.step] at hmode
      exact absurd ⟨hmode, hmotion⟩ h
    · cases hdistance
  · rfl

theorem seconds_foldl_step {t : CycleTime} {lines : List (List Word)}
    (h : t.machine.RunsFree lines) : (lines.foldl step t).seconds = t.seconds := by
  induction lines generalizing t with
  | nil => rfl
  | cons words lines ih =>
    obtain ⟨hwords, hlines⟩ := h.step
    rw [← machine_step] at hlines
    rw [List.foldl_cons, ih hlines, seconds_step_of_not_feeds hwords]

/-- A program without a line that closes in absolute positioning and linear motion takes no time at
all. One without a word for linear motion is such a program, and so is one with a word for
incremental positioning if no line above it has a word for linear motion and no word behind it
goes back to absolute positioning. -/
theorem ofText_eq_zero (text : String) :
    let lines := (Block.ofText text).map (·.words)
    (Machine.RunsFree {} lines → ofText text = 0.0) ∧
    ((∀ w ∈ lines.flatten, ¬w.is 'G' "1") → ofText text = 0.0) ∧
    ∀ before u w v after, lines = before ++ (u ++ w :: v) :: after → w.is 'G' "91" →
      (∀ x ∈ before.flatten, ¬x.is 'G' "1") → (∀ x ∈ v ++ after.flatten, ¬x.is 'G' "90") →
      ofText text = 0.0 := by
  intro lines
  have hfree (h : Machine.RunsFree {} lines) : ofText text = 0.0 := by
    rw [ofText, run_eq_foldl]
    exact seconds_foldl_step h
  refine ⟨hfree, fun h => hfree (Machine.runsFree_of_rapid h), ?_⟩
  intro before u w v after hlines hw hrapid hv
  exact hfree (hlines ▸ Machine.runsFree_of_incremental hrapid hw hv)

/-- A coordinate that is no number, a feed rate of zero, and linear motion from the incremental line
on. -/
theorem ofText_eq_zero_incremental_line :
    let text := "G0 X1..5 F0\ng1 (cut) G91 Y7\r\nG01 Z-.5"
    let lines := (Block.ofText text).map (·.words)
    let before : List (List Word) :=
      [[⟨'G', "0", 0, .address⟩, ⟨'X', "1..5", 0, .address⟩, ⟨'F', "0", 0, .address⟩]]
    let w : Word := ⟨'G', "91", 1, .address⟩
    let after : List (List Word) := [[⟨'G', "01", 2, .address⟩, ⟨'Z', "-.5", 2, .address⟩]]
    (lines = before ++ ([⟨'G', "1", 1, .address⟩] ++ w :: [⟨'Y', "7", 1, .address⟩]) :: after ∧
      w.is 'G' "91" ∧ (∀ x ∈ before.flatten, ¬x.is 'G' "1") ∧
      (∀ x ∈ [⟨'Y', "7", 1, .address⟩] ++ after.flatten, ¬x.is 'G' "90") ∧
      Machine.RunsFree {} lines) ∧ ofText text = 0.0 := by
  intro text lines before w after
  have hlines : lines =
      before ++ ([⟨'G', "1", 1, .address⟩] ++ w :: [⟨'Y', "7", 1, .address⟩]) :: after := by
    decide +kernel
  have hw : w.is 'G' "91" := by decide +kernel
  have hrapid : ∀ x ∈ before.flatten, ¬x.is 'G' "1" := by decide +kernel
  have hv : ∀ x ∈ [⟨'Y', "7", 1, .address⟩] ++ after.flatten, ¬x.is 'G' "90" := by decide +kernel
  have hfree : Machine.RunsFree {} lines :=
    hlines ▸ Machine.runsFree_of_incremental hrapid hw hv
  exact ⟨⟨hlines, hw, hrapid, hv, hfree⟩,
    (ofText_eq_zero text).2.2 before _ w _ after hlines hw hrapid hv⟩

end CycleTime
end Gcode

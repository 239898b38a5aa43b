import Gcode.Proofs.LabelText

/-! The labels of spindle entries. What a label shows as a speed is the argument of a word beside
the code, whatever that word is. -/
namespace Gcode

inductive Turn where
  | clockwise | counterClockwise
deriving DecidableEq, Repr

namespace Turn

def kind : Turn → EntryKind
  | clockwise => .spindleClockwise
  | counterClockwise => .spindleCounterClockwise

def code : Turn → String
  | clockwise => "3"
  | counterClockwise => "4"

def direction : Turn → String
  | clockwise => "CW"
  | counterClockwise => "CCW"

def label (turn : Turn) : Option String → String
  | some speed => "Spindle On " ++ speed ++ "RPM " ++ turn.direction
  | none => "Spindle On " ++ turn.direction

theorem label_none (turn : Turn) : turn.label none = "Spindle On " ++ turn.direction := rfl

theorem label_some (turn : Turn) (speed : String) :
    turn.label (some speed) = "Spindle On " ++ (speed ++ ("RPM " ++ turn.direction)) := by
  rw [label, String.append_assoc, String.append_assoc]

theorem mem_codes (turn : Turn) : (turn.kind, 'M', turn.code) ∈ Meaning.codes := by
  cases turn <;> decide +kernel

theorem kind_ne_workOffset (turn : Turn) : turn.kind ≠ .workOffset := by
  cases turn <;> decide +kernel

theorem eq_of_append {turn other : Turn} {m n : String}
    (h : m ++ ("RPM " ++ turn.direction) = n ++ ("RPM " ++ other.direction)) : turn = other := by
  have hsuffix : ∀ turn other : Turn, ("RPM " ++ turn.direction).toList <:+
      ("RPM " ++ other.direction).toList → turn = other := by
    rintro (_ | _) (_ | _) <;> decide +kernel
  have hends (s t : String) : t.toList <:+ (s ++ t).toList := by
    rw [String.toList_append]
    exact List.suffix_append _ _
  rcases List.suffix_or_suffix_of_suffix (h ▸ hends m _) (hends n _) with hs | hs
  · exact hsuffix _ _ hs
  · exact (hsuffix _ _ hs).symm

theorem direction_injective {turn other : Turn} (h : turn.direction = other.direction) :
    turn = other := by
  revert h
  cases turn <;> cases other <;> decide +kernel

theorem direction_ne (turn other : Turn) (speed : String) :
    turn.direction ≠ speed ++ ("RPM " ++ other.direction) := by
  intro h
  have hmem : 'R' ∈ turn.direction.toList := by
    rw [h, String.toList_append, String.toList_append]
    exact List.mem_append_right _ (List.mem_append_left _ (by decide))
  revert hmem
  cases turn <;> decide +kernel

/-- A label can be read in one way only. -/
theorem label_inj {turn other : Turn} {speed speed' : Option String}
    (h : turn.label speed = other.label speed') : turn = other ∧ speed = speed' := by
  cases speed with
  | none =>
    rw [label_none] at h
    cases speed' with
    | none => exact ⟨direction_injective ((String.append_right_inj _).mp h), rfl⟩
    | some n =>
      rw [label_some, String.append_right_inj] at h
      exact absurd h (direction_ne turn other n)
  | some m =>
    rw [label_some] at h
    cases speed' with
    | none =>
      rw [label_none, String.append_right_inj] at h
      exact absurd h.symm (direction_ne other turn m)
    | some n =>
      rw [label_some, String.append_right_inj] at h
      obtain rfl := eq_of_append h
      exact ⟨rfl, congrArg some ((String.append_left_inj _).mp h)⟩

end Turn

theorem Meaning.label_of_kind : ∀ meaning ∈ all, ∀ turn : Turn,
    meaning.kind = turn.kind → meaning.label = .spindle turn.direction := by
  have hall : ∀ meaning ∈ all,
      (meaning.kind = Turn.clockwise.kind → meaning.label = .spindle "CW") ∧
        (meaning.kind = Turn.counterClockwise.kind → meaning.label = .spindle "CCW") := by
    decide +kernel
  intro meaning hm turn
  cases turn with
  | clockwise => exact (hall meaning hm).1
  | counterClockwise => exact (hall meaning hm).2

namespace Block
variable {block : Block} {before after : List Word} {w : Word}

/-- A label looks at the word in front of its code, and if there is none at the word behind. -/
theorem neighbour?_beside (h : block.words = before ++ w :: after) :
    block.neighbour? before.length (if before.length = 0 then 1 else -1) =
      before.getLast?.or after.head? := by
  rcases List.eq_nil_or_concat before with rfl | ⟨front, v, rfl⟩
  · have hone : block.neighbour? 0 1 = block.words[1]? := rfl
    rw [List.length_nil, if_pos rfl, hone, h, List.nil_append, List.getElem?_cons_succ,
      List.getLast?_nil, Option.none_or, List.head?_eq_getElem?]
  · have hback : ((front.length + 1 : Nat) : Int) + -1 = Int.ofNat front.length := by
      rw [Int.ofNat_eq_natCast]
      omega
    rw [List.length_concat, if_neg (Nat.succ_ne_zero _), neighbour?, hback]
    simp [h]

theorem render_spindle (h : block.words = before ++ w :: after) (turn : Turn) :
    (LabelRule.spindle turn.direction).render block before.length w =
      turn.label ((before.getLast?.or after.head?).map (·.argument)) := by
  rw [LabelRule.render, neighbour?_beside h]
  cases before.getLast?.or after.head? <;> rfl

/-- The label of a spindle entry tells the direction of its code, and as a speed the argument of the
word in front of the code, or behind it if the code opens the line. It tells no speed only if the
code stands alone. -/
theorem label_spindle {e : Entry} {turn : Turn} (he : e ∈ block.entries)
    (hk : e.kind = turn.kind) :
    ∃ before w after, block.words = before ++ w :: after ∧ w.is 'M' turn.code = true ∧
      block.entryAt? before.length w = some e ∧
      ∀ other speed, e.label = other.label speed ↔
        other = turn ∧ (before.getLast?.or after.head?).map (·.argument) = speed := by
  obtain ⟨before, w, after, meaning, hwords, hm, rfl⟩ := exists_word he
  have hcode : w.entryKind? = some turn.kind := by
    rw [Word.entryKind?, hm, ← hk]
    rfl
  have hentry : block.entryAt? before.length w = some _ := congrArg (Option.map _) hm
  refine ⟨before, w, after, hwords,
    (w.entryKind?_eq_some_iff _ _ _ turn.mem_codes turn.kind_ne_workOffset).mp hcode, hentry, ?_⟩
  -- A label is read in one way, so it can only show what it was made of.
  intro other speed
  rw [Meaning.label_of_kind meaning (Meaning.mem_all_of_ofWord? hm) turn hk, render_spindle hwords]
  constructor
  · intro h
    obtain ⟨rfl, hspeed⟩ := Turn.label_inj h
    exact ⟨rfl, hspeed⟩
  · rintro ⟨rfl, rfl⟩
    rfl

/-- The speed of the first code is behind it, and its label shows the number of the line. The second
label shows a coordinate. -/
theorem label_spindle_line_number :
    let block := ofLine ⟨0, "N10 m03 S1200 X-5.0 M4 (slow) S800"⟩
    ∃ e ∈ block.entries, ∃ e' ∈ block.entries,
      (e.kind = Turn.clockwise.kind ∧ e'.kind = Turn.counterClockwise.kind) ∧
      (e.label = "Spindle On 10RPM CW" ∧ e'.label = "Spindle On -5.0RPM CCW") ∧
      (∃ before w after, block.words = before ++ w :: after ∧ w.is 'M' "3" = true ∧
        (before.getLast?.or after.head?).map (·.argument) = some "10") ∧
      ∃ before w after, block.words = before ++ w :: after ∧ w.is 'M' "4" = true ∧
        (before.getLast?.or after.head?).map (·.argument) = some "-5.0" := by
  intro block
  obtain ⟨e, he, e', he', hkinds, hlabels⟩ : ∃ e ∈ block.entries, ∃ e' ∈ block.entries,
      (e.kind = Turn.clockwise.kind ∧ e'.kind = Turn.counterClockwise.kind) ∧
        e.label = "Spindle On 10RPM CW" ∧ e'.label = "Spindle On -5.0RPM CCW" := by
    decide +kernel
  obtain ⟨before, w, after, hwords, hcode, -, hshows⟩ := label_spindle he hkinds.1
  obtain ⟨before', w', after', hwords', hcode', -, hshows'⟩ := label_spindle he' hkinds.2
  exact ⟨e, he, e', he', hkinds, hlabels,
    ⟨before, w, after, hwords, hcode, ((hshows .clockwise (some "10")).mp hlabels.1).2⟩,
    before', w', after', hwords', hcode',
    ((hshows' .counterClockwise (some "-5.0")).mp hlabels.2).2⟩

/-- A label may show the number of a line as a speed. -/
theorem not_forall_shown_speed : ¬∀ (line : Line) (e : Entry) (turn other : Turn) (n : String),
    e ∈ (ofLine line).entries → e.kind = turn.kind → e.label = other.label (some n) →
      ∃ before w v after,
        ((ofLine line).words = before ++ w :: v :: after ∨
          (ofLine line).words = before ++ v :: w :: after) ∧
        w.is 'M' turn.code = true ∧ v.kind = .address ∧ v.letter = 'S' ∧ v.argument = n := by
  intro h
  let line : Line := ⟨0, "N10 M3"⟩
  obtain ⟨e, he, hk, hl⟩ : ∃ e ∈ (ofLine line).entries,
      e.kind = Turn.clockwise.kind ∧ e.label = Turn.clockwise.label (some "10") := by
    decide +kernel
  obtain ⟨before, w, v, after, hwords, -, -, hletter, -⟩ :=
    h line e .clockwise .clockwise "10" he hk hl
  have hmem : v ∈ (ofLine line).words := by
    rcases hwords with hw | hw <;> simp [hw]
  have hnone : ∀ v ∈ (ofLine line).words, v.letter ≠ 'S' := by decide +kernel
  exact hnone v hmem hletter

end Block

end Gcode

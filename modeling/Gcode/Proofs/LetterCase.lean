import Gcode.Proofs.CommentRemoval
import Gcode.Word
import Mathlib

/-! What turning characters into capitals keeps of the character classes. -/
namespace Gcode

/-- Only letters have a capital of their own. -/
theorem eq_of_toUpper_eq {c u : Char} (h : c.toUpper = u) (hu : u.isUpper = false) : c = u := by
  rw [← h, Char.isUpper_toUpper_eq_isAlpha, Char.isAlpha, Bool.or_eq_false_iff] at hu
  rw [← h, Char.toUpper_eq_of_not_isLower (by simp [hu.2])]

theorem eq_of_map_toUpper_eq {s t : List Char} (h : s.map Char.toUpper = t)
    (ht : ∀ u ∈ t, u.isUpper = false) : s = t := by
  induction s generalizing t with
  | nil => simpa using h
  | cons c s ih =>
    subst h
    have hc := eq_of_toUpper_eq rfl (ht c.toUpper List.mem_cons_self)
    have hs := ih rfl fun u hu => ht u (List.mem_cons_of_mem _ hu)
    rw [List.map_cons, ← hc, ← hs]

/-- Two letters beyond ASCII equal a capital when case is ignored, and they are their own
capitals. -/
theorem foldCase_eq_toUpper {c : Char} (hs : c.toUpper ≠ '\u017F') (hk : c.toUpper ≠ '\u212A') :
    foldCase c = c.toUpper := by
  have hs' : c ≠ '\u017F' := fun e => hs (by rw [e]; decide)
  have hk' : c ≠ '\u212A' := fun e => hk (by rw [e]; decide)
  simp [foldCase, hs', hk']

theorem foldCase_of_isUpper {c : Char} (h : c.toUpper.isUpper = true) :
    foldCase c = c.toUpper := by
  apply foldCase_eq_toUpper
  · intro e; rw [e] at h; exact absurd h (by decide)
  · intro e; rw [e] at h; exact absurd h (by decide)

theorem foldCase_of_isAlpha {c : Char} (h : c.isAlpha = true) : foldCase c = c.toUpper :=
  foldCase_of_isUpper (by rw [Char.isUpper_toUpper_eq_isAlpha, h])

theorem isLetter_of_isUpper {c : Char} (h : c.toUpper.isUpper = true) : isLetter c = true := by
  rw [isLetter, foldCase_of_isUpper h, h]

theorem isLetter_of_isAlpha {c : Char} (h : c.isAlpha = true) : isLetter c = true :=
  isLetter_of_isUpper (by rw [Char.isUpper_toUpper_eq_isAlpha, h])

theorem isLetter_eq_isAlpha {c : Char} (hs : c ≠ '\u017F') (hk : c ≠ '\u212A') :
    isLetter c = c.isAlpha := by
  rw [isLetter, foldCase, if_neg hs, if_neg hk, Char.isUpper_toUpper_eq_isAlpha]

theorem isNameChar_of_toUpper {c : Char}
    (h : c.toUpper.isUpper ∨ c.toUpper.isDigit ∨ c.toUpper = '_') :
    WordKind.isNameChar c = true := by
  by_cases hu : c.toUpper.isUpper = true
  · simp [WordKind.isNameChar, isLetter_of_isUpper hu]
  · rw [← eq_of_toUpper_eq rfl (Bool.not_eq_true _ ▸ hu)] at h hu
    cases h with
    | inl h => exact absurd h hu
    | inr h => cases h <;> simp [WordKind.isNameChar, *]

theorem isAlpha_false_of_isDigit {c : Char} (h : c.isDigit = true) : c.isAlpha = false := by
  simp [Char.isDigit, UInt32.le_iff_toNat_le] at h
  simp [Char.isAlpha, Char.isUpper, Char.isLower, UInt32.le_iff_toNat_le]
  omega

theorem isAlpha_false_of_isNumberChar {c : Char} (h : WordKind.isNumberChar c = true) :
    c.isAlpha = false := by
  simp only [WordKind.isNumberChar, Bool.or_eq_true, beq_iff_eq] at h
  rcases h with ((h | rfl) | rfl) | rfl
  · exact isAlpha_false_of_isDigit h
  all_goals decide

theorem isLetter_false_of_isNumberChar {c : Char} (h : WordKind.isNumberChar c = true) :
    isLetter c = false := by
  rw [isLetter_eq_isAlpha (ne_of_class h (by decide)) (ne_of_class h (by decide))]
  exact isAlpha_false_of_isNumberChar h

theorem isDigit_false_of_isNumberChar_false {c : Char} (h : WordKind.isNumberChar c = false) :
    c.isDigit = false := by
  simp only [WordKind.isNumberChar, Bool.or_eq_false_iff] at h
  exact h.1.1.1

theorem isUpper_false_of_isAlpha_false {c : Char} (h : c.isAlpha = false) : c.isUpper = false := by
  rw [Char.isAlpha, Bool.or_eq_false_iff] at h
  exact h.1

theorem toNat_of_isAlphanum {c : Char} (h : c.isAlphanum = true) :
    48 ≤ c.toNat ∧ c.toNat ≤ 122 := by
  simp [Char.isAlphanum, Char.isAlpha, Char.isUpper, Char.isLower, Char.isDigit,
    UInt32.le_iff_toNat_le] at h
  omega

theorem isPlain_of_isAlphanum {c : Char} (h : c.isAlphanum = true) : IsPlain c := by
  have hn := toNat_of_isAlphanum h
  refine ⟨ne_of_class h (by decide), ne_of_class h (by decide), ?_⟩
  simp [isBlank]
  omega

theorem isPlain_of_isAlpha {c : Char} (h : c.isAlpha = true) : IsPlain c :=
  isPlain_of_isAlphanum (by rw [Char.isAlphanum, h, Bool.true_or])

theorem isPlain_of_isUpper {c : Char} (h : c.isUpper = true) : IsPlain c :=
  isPlain_of_isAlphanum (by simp [Char.isAlphanum, Char.isAlpha, h])

theorem isPlain_of_isDigit {c : Char} (h : c.isDigit = true) : IsPlain c :=
  isPlain_of_isAlphanum (by simp [Char.isAlphanum, h])

theorem isPlain_of_isNumberChar {c : Char} (h : WordKind.isNumberChar c = true) : IsPlain c := by
  simp only [WordKind.isNumberChar, Bool.or_eq_true, beq_iff_eq] at h
  rcases h with ((h | rfl) | rfl) | rfl
  · exact isPlain_of_isDigit h
  all_goals decide

theorem isLetter_false_of_isBlank {c : Char} (h : isBlank c = true) : isLetter c = false := by
  rw [isLetter_eq_isAlpha (ne_of_class h (by decide)) (ne_of_class h (by decide))]
  cases ha : c.isAlpha with
  | false => rfl
  | true => exact absurd ((isPlain_of_isAlpha ha).2.2.symm.trans h) Bool.false_ne_true

theorem foldCase_ne_of_isLetter_false {c u : Char} (h : isLetter c = false)
    (hu : u.isUpper = true) : foldCase c ≠ u := by
  intro he
  rw [isLetter, he, hu] at h
  cases h

theorem toUpper_of_isAlpha_false {c : Char} (h : c.isAlpha = false) : c.toUpper = c := by
  rw [Char.isAlpha, Bool.or_eq_false_iff] at h
  exact Char.toUpper_eq_of_not_isLower (by simp [h.2])

theorem toUpper_of_isNumberChar {c : Char} (h : WordKind.isNumberChar c = true) :
    c.toUpper = c :=
  toUpper_of_isAlpha_false (isAlpha_false_of_isNumberChar h)

theorem map_eq_self {f : Char → Char} {t : List Char} (h : ∀ c ∈ t, f c = c) : t.map f = t :=
  (List.map_congr_left h).trans (List.map_id' t)

theorem toUpper_eq_iff {c u : Char} (hu : u.isAlpha = false) : c.toUpper = u ↔ c = u := by
  constructor
  · exact fun h => eq_of_toUpper_eq h (isUpper_false_of_isAlpha_false hu)
  · rintro rfl
    exact toUpper_of_isAlpha_false hu

/-- A class without letters does not tell capitals from small letters. -/
theorem class_toUpper {p : Char → Bool} (h : ∀ c, c.isAlpha = true → p c = false) (c : Char) :
    p c.toUpper = p c := by
  cases ha : c.isAlpha with
  | false => rw [toUpper_of_isAlpha_false ha]
  | true => rw [h c ha, h _ (Char.isAlpha_toUpper_eq_isAlpha c ▸ ha)]

theorem foldCase_toUpper (c : Char) : foldCase c.toUpper = foldCase c := by
  cases ha : c.isAlpha with
  | false => rw [toUpper_of_isAlpha_false ha]
  | true =>
    rw [foldCase_of_isAlpha ha, foldCase_of_isAlpha (Char.isAlpha_toUpper_eq_isAlpha c ▸ ha),
      Char.toUpper_toUpper_eq_toUpper]

theorem isLetter_toUpper (c : Char) : isLetter c.toUpper = isLetter c := by
  rw [isLetter, foldCase_toUpper, isLetter]

/-- White space, `(` and `;` have no other case. -/
theorem isPlain_of_toUpper {c : Char} (h : IsPlain c.toUpper) : IsPlain c := by
  by_cases hu : c.toUpper.isUpper = true
  · rw [Char.isUpper_toUpper_eq_isAlpha] at hu
    exact isPlain_of_isAlphanum (by simp [Char.isAlphanum, hu])
  · rwa [← eq_of_toUpper_eq rfl (Bool.not_eq_true _ ▸ hu)] at h

end Gcode

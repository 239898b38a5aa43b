import Gcode.Code
import Mathlib.Data.List.TakeWhile

/-! The canonical form of arguments. -/
namespace Gcode

theorem dropWhile_append_of_head {p : Char → Bool} (s : List Char) {r : List Char}
    (hr : ∀ c ∈ r.head?, p c = false) : (s ++ r).dropWhile p = s.dropWhile p ++ r := by
  rw [List.dropWhile_append]
  split
  · rename_i he
    rw [List.isEmpty_iff.mp he, List.nil_append]
    cases r with
    | nil => rfl
    | cons c r => rw [List.dropWhile_cons, hr c rfl, if_neg Bool.false_ne_true]
  · rfl

theorem takeWhile_append_of_head {p : Char → Bool} {s r : List Char} (hs : ∀ c ∈ s, p c = true)
    (hr : ∀ c ∈ r.head?, p c = false) : (s ++ r).takeWhile p = s := by
  rw [List.takeWhile_append_of_pos hs]
  cases r with
  | nil => simp
  | cons c r => simp [hr c rfl]

theorem dropWhile_append_of_class {p : Char → Bool} {s r : List Char} (hs : ∀ c ∈ s, p c = true)
    (hr : ∀ c ∈ r.head?, p c = false) : (s ++ r).dropWhile p = r := by
  rw [dropWhile_append_of_head s hr, List.dropWhile_eq_nil_iff.mpr hs, List.nil_append]

/-- The longest part of a class at the front of a text, and what stands behind it. -/
theorem exists_span (p : Char → Bool) (cs : List Char) : ∃ s r, cs = s ++ r ∧
    (∀ c ∈ s, p c = true) ∧ ∀ c ∈ r.head?, p c = false := by
  refine ⟨cs.takeWhile p, cs.dropWhile p, List.takeWhile_append_dropWhile.symm, fun c hc => ?_,
    fun c hc => ?_⟩
  · exact List.all_eq_true.mp List.all_takeWhile c hc
  · have h := List.head?_dropWhile_not p cs
    rw [Option.mem_def.mp hc] at h
    simpa using h

/-- A text falls in one way into a part of a class and a rest that begins outside of it. -/
theorem append_inj_of_head {p : Char → Bool} {s s' r r' : List Char}
    (hs : ∀ c ∈ s, p c = true) (hs' : ∀ c ∈ s', p c = true) (hr : ∀ c ∈ r.head?, p c = false)
    (hr' : ∀ c ∈ r'.head?, p c = false) (h : s ++ r = s' ++ r') : s = s' ∧ r = r' := by
  have hfront : s = s' := by
    rw [← takeWhile_append_of_head hs hr, h, takeWhile_append_of_head hs' hr']
  exact ⟨hfront, List.append_cancel_left (hfront ▸ h)⟩

theorem eq_of_isPrefix {s t cs : List Char} (hs : s <+: cs) (ht : t <+: cs)
    (hle : s.length ≤ t.length) (hge : t.length ≤ s.length) : s = t :=
  (List.prefix_of_prefix_length_le hs ht hle).eq_of_length (Nat.le_antisymm hle hge)

theorem mem_dropWhile_of_neg {p : Char → Bool} {c : Char} (hc : p c = false) {s : List Char}
    (h : c ∈ s) : c ∈ s.dropWhile p := by
  rw [← List.takeWhile_append_dropWhile (p := p) (l := s)] at h
  rcases List.mem_append.mp h with h | h
  · have hp := List.all_eq_true.mp List.all_takeWhile c h
    rw [hc] at hp
    cases hp
  · exact h

theorem eq_zeros_append (s : List Char) :
    s = List.replicate (leading (· == '0') s) '0' ++ s.dropWhile (· == '0') := by
  have hzeros : s.takeWhile (· == '0') = List.replicate (leading (· == '0') s) '0' :=
    List.eq_replicate_iff.mpr
      ⟨rfl, fun c hc => beq_iff_eq.mp (List.all_eq_true.mp List.all_takeWhile c hc)⟩
  rw [← hzeros, List.takeWhile_append_dropWhile]

/-- A whole number is the canonical form of the arguments that write it behind zeros. -/
theorem canonicalArgument_eq_iff {t : List Char} (s : List Char) (hn : t ≠ []) (hp : '.' ∉ t)
    (hz : t ≠ ['0']) : canonicalArgument s = t ↔ s.dropWhile (· == '0') = t := by
  by_cases h : '.' ∈ s
  · have hl : '.' ∈ canonicalArgument s :=
      List.mem_append_right _ (mem_dropWhile_of_neg (by decide) h)
    have hr : '.' ∈ s.dropWhile (· == '0') := mem_dropWhile_of_neg (by decide) h
    exact ⟨fun he => absurd (he ▸ hl) hp, fun he => absurd (he ▸ hr) hp⟩
  · have hall : ∀ c ∈ s, (c != '.') = true := fun c hc => bne_iff_ne.mpr fun e => h (e ▸ hc)
    rw [canonicalArgument, List.takeWhile_eq_self_iff.mpr hall,
      List.dropWhile_eq_nil_iff.mpr hall, List.append_nil, dropZeros]
    split
    · rename_i he
      rw [he]
      exact ⟨fun e => absurd e.symm hz, fun e => absurd e.symm hn⟩
    · rfl

theorem Code.ofArgument_eq_iff {argument code : String} (hn : code.toList ≠ [])
    (hp : '.' ∉ code.toList) (hz : code.toList ≠ ['0']) :
    Code.ofArgument argument = code ↔ argument.toList.dropWhile (· == '0') = code.toList := by
  rw [← canonicalArgument_eq_iff _ hn hp hz, ← String.toList_inj, ofArgument, String.toList_ofList]

end Gcode

import Gcode.Proofs.CodeSpellings

/-! The codes of a line, and which of them a cursor is on. Codes do not overlap, but where one ends
another may begin, and a cursor at that column touches both. -/
namespace Gcode

/-- A code stands in a line from a column on, and takes as many characters as it can. -/
def CodeAt (line : List Char) (column : Nat) (code : List Char) : Prop :=
  ∃ before after, line = before ++ code ++ after ∧ before.length = column ∧ CodeForm code ∧
    EndsCode code after

/-- A fraction takes all digits behind a point, and no point without a digit behind it. -/
theorem endsCode_fraction {code rest : List Char} (h : ∀ c ∈ rest.head?, c.isDigit = false) :
    EndsCode (code ++ rest.take (fractionWidth rest)) (rest.drop (fractionWidth rest)) := by
  cases rest with
  | nil => exact ⟨h, fun _ _ he => by cases he⟩
  | cons d rest =>
    by_cases hd : d = '.'
    · subst hd
      obtain ⟨fs, rest, rfl, hfs, hrest⟩ := exists_digits rest
      rw [fractionWidth, leading_append hfs hrest]
      by_cases hn : fs = []
      · subst hn
        refine ⟨fun c hc => Option.some.inj hc ▸ rfl, fun _ ds he => ?_⟩
        exact (List.cons.inj he).2 ▸ hrest
      · have hlen : fs.length ≠ 0 := mt List.length_eq_zero_iff.mp hn
        rw [if_neg hlen, List.drop_succ_cons, List.drop_left, List.take_succ_cons]
        refine ⟨hrest, fun hpoint => absurd ?_ hpoint⟩
        exact List.mem_append_right code List.mem_cons_self
    · rw [fractionWidth_of_ne rest hd, List.drop_zero]
      exact ⟨h, fun _ _ he => absurd (List.cons.inj he).1 hd⟩

theorem endsCode_of_hoverCode? {cs : List Char} {x : Unit × Nat} (h : hoverCode? cs = some x) :
    EndsCode (cs.take x.2) (cs.drop x.2) := by
  cases cs with
  | nil => cases h
  | cons c cs =>
    cases hc : c.isAlpha with
    | false =>
      rw [hoverCode?_of_isAlpha_false cs hc] at h
      cases h
    | true =>
      obtain ⟨ds, rest, rfl, hds, hrest⟩ := exists_digits cs
      by_cases hn : ds = []
      · subst hn
        rw [List.nil_append, hoverCode?_of_head hrest] at h
        cases h
      · rw [hoverCode?_digits hc hn hds hrest] at h
        cases h
        have htake : (c :: (ds ++ rest)).take (ds.length + 1 + fractionWidth rest) =
            c :: ds ++ rest.take (fractionWidth rest) := by
          rw [← List.cons_append, ← List.length_cons, List.take_length_add_append]
        have hdrop : (c :: (ds ++ rest)).drop (ds.length + 1 + fractionWidth rest) =
            rest.drop (fractionWidth rest) := by
          rw [← List.cons_append, ← List.length_cons, List.drop_length_add_append]
        exact htake ▸ hdrop ▸ endsCode_fraction hrest

theorem mem_finds_iff {line : List Char} {f : Find Unit} :
    f ∈ hoverCode?.finds line ↔ CodeAt line f.start f.text := by
  constructor
  · intro h
    obtain ⟨before, rest, width, rfl, hstart, hp, ht⟩ := Pattern.exists_of_mem_findsFrom h
    refine ⟨before, rest.drop width, ?_, ?_, ht ▸ codeForm_of_hoverCode? hp,
      ht ▸ endsCode_of_hoverCode? hp⟩
    · rw [ht, List.append_assoc, List.take_append_drop]
    · rw [hstart, Nat.zero_add]
  · rintro ⟨before, after, rfl, hstart, hform, hends⟩
    rw [finds_code hform hends, hstart]
    exact List.mem_append_right _ List.mem_cons_self

instance (line : List Char) (column : Nat) (code : List Char) :
    Decidable (CodeAt line column code) :=
  decidable_of_iff (⟨column, (), code⟩ ∈ hoverCode?.finds line) mem_finds_iff

/-- In a list in order the first item with a property is one whose predecessors lack it. -/
theorem find?_eq_some_of_pairwise {α : Type} {R : α → α → Prop} {p : α → Bool} {l : List α} {a : α}
    (h : l.Pairwise R) (ha : a ∈ l) (hp : p a = true)
    (hbefore : ∀ b ∈ l, R b a → ¬p b = true) : l.find? p = some a := by
  obtain ⟨before, after, rfl⟩ := List.append_of_mem ha
  have hnone : before.find? p = none := List.find?_eq_none.mpr fun b hb =>
    hbefore b (List.mem_append_left _ hb)
      ((List.pairwise_append.mp h).2.2 b hb a List.mem_cons_self)
  rw [List.find?_append, hnone, Option.none_or, List.find?_cons_of_pos hp]

section
variable {line code : List Char} {start column : Nat}

theorem CodeAt.length_pos (h : CodeAt line start code) : 0 < code.length := by
  obtain ⟨-, -, -, -, hform, -⟩ := h
  obtain ⟨c, t, rfl, -⟩ := hform.exists_letter
  exact Nat.zero_lt_succ t.length

theorem CodeAt.stop_le (h : CodeAt line start code) : start + code.length ≤ line.length := by
  obtain ⟨before, after, rfl, rfl, -⟩ := h
  simp only [List.length_append]
  exact Nat.le_add_right _ _

/-- A cursor is on a code that it touches, unless it touches one in front of that. -/
theorem codeUnder?_of_touched (hcode : CodeAt line start code)
    (hl : start ≤ min column line.length) (hr : min column line.length ≤ start + code.length)
    (hbefore : ∀ s t, CodeAt line s t → s + t.length ≤ start →
      s + t.length ≠ min column line.length) :
    codeUnder? line column = some ⟨start, (), code⟩ := by
  have hmem : (⟨start, (), code⟩ : Find Unit) ∈ hoverCode?.finds line := mem_finds_iff.mpr hcode
  refine find?_eq_some_of_pairwise (Pattern.pairwise_stop hoverCode? 0 0 line) hmem ?_ ?_
  · simp only [Bool.and_eq_true, decide_eq_true_eq]
    exact ⟨hl, hr⟩
  · intro f hf hstop htouch
    have hne := hbefore f.start f.text (mem_finds_iff.mp hf) hstop
    rw [Bool.and_eq_true, decide_eq_true_eq, decide_eq_true_eq] at htouch
    have hstop' : f.stop ≤ start := hstop
    have hne' : f.stop ≠ min column line.length := hne
    omega

theorem codeUnder?_eq_none_iff : codeUnder? line column = none ↔ ∀ s t, CodeAt line s t →
    ¬(s ≤ min column line.length ∧ min column line.length ≤ s + t.length) := by
  rw [codeUnder?, List.find?_eq_none]
  constructor
  · intro h s t hcode
    have htouch := h ⟨s, (), t⟩ (mem_finds_iff.mpr hcode)
    rw [Bool.and_eq_true, decide_eq_true_eq, decide_eq_true_eq] at htouch
    exact htouch
  · intro h f hf
    rw [Bool.and_eq_true, decide_eq_true_eq, decide_eq_true_eq]
    exact h f.start f.text (mem_finds_iff.mp hf)

end

/-- A cursor is on the first code that it touches. That is the one that ends at the cursor, if there
is one, and else the code in which the cursor stands. A column past the end of the line counts as
its end. -/
theorem codeUnder?_first_touched (line : List Char) (column : Nat) :
    (∀ start code, CodeAt line start code → start + code.length = min column line.length →
      codeUnder? line column = some ⟨start, (), code⟩) ∧
    ((∀ s t, CodeAt line s t → s + t.length ≠ min column line.length) →
      ∀ start code, CodeAt line start code → start ≤ column → column < start + code.length →
        codeUnder? line column = some ⟨start, (), code⟩) ∧
    (codeUnder? line column = none ↔ ∀ s t, CodeAt line s t →
      ¬(s ≤ min column line.length ∧ min column line.length ≤ s + t.length)) := by
  refine ⟨fun start code hcode hstop => ?_, fun hnone start code hcode hl hr => ?_,
    codeUnder?_eq_none_iff⟩
  · have hpos := hcode.length_pos
    exact codeUnder?_of_touched hcode (by omega) (by omega) fun s t _ ht => by omega
  · have hle := hcode.stop_le
    exact codeUnder?_of_touched hcode (by omega) (by omega) fun s t ht _ => hnone s t ht

/-- Two codes without a separator: between them a cursor is on the first, and in the second on
that. -/
theorem codeUnder?_first_touched_run_together :
    let line := "é g0M06.5(".toList
    (CodeAt line 2 "g0".toList ∧ CodeAt line 4 "M06.5".toList ∧
      ∀ s t, CodeAt line s t → s + t.length ≠ min 7 line.length) ∧
    codeUnder? line 4 = some ⟨2, (), "g0".toList⟩ ∧
    codeUnder? line 7 = some ⟨4, (), "M06.5".toList⟩ := by
  intro line
  have hfirst : CodeAt line 2 "g0".toList := by decide +kernel
  have hsecond : CodeAt line 4 "M06.5".toList := by decide +kernel
  have hstops : ∀ f ∈ hoverCode?.finds line, f.stop ≠ min 7 line.length := by decide +kernel
  have hnone : ∀ s t, CodeAt line s t → s + t.length ≠ min 7 line.length := fun s t ht =>
    hstops ⟨s, (), t⟩ (mem_finds_iff.mpr ht)
  exact ⟨⟨hfirst, hsecond, hnone⟩,
    (codeUnder?_first_touched line 4).1 2 _ hfirst (by decide +kernel),
    (codeUnder?_first_touched line 7).2.1 hnone 4 _ hsecond (by decide) (by decide +kernel)⟩

/-- A cursor is not on the code in which it stands, if another code ends there. -/
theorem not_forall_codeUnder?_contains : ¬∀ (line : List Char) (column start : Nat)
    (code : List Char), CodeAt line start code → start ≤ column → column < start + code.length →
      codeUnder? line column = some ⟨start, (), code⟩ := by
  intro h
  have hcode : CodeAt "G0M6".toList 2 "M6".toList := by decide +kernel
  exact absurd (h _ 2 2 _ hcode (by decide) (by decide)) (by decide +kernel)

end Gcode

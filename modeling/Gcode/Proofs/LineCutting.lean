import Gcode.Line

/-! How a text falls into physical lines, and where each of them stands in it. -/
namespace Gcode

def IsBreak (c : Char) : Prop := c = '\n' ∨ c = '\r'

instance : DecidablePred IsBreak := fun c => inferInstanceAs (Decidable (c = '\n' ∨ c = '\r'))

/-- A line starts at the beginning of a text and after every terminator, but not inside of one. -/
def StartsLine (before rest : List Char) : Prop :=
  ∀ c ∈ before.getLast?, c = '\n' ∨ c = '\r' ∧ rest.head? ≠ some '\n'

structure IsLine (before line after : List Char) : Prop where
  start : StartsLine before (line ++ after)
  inside : ∀ c ∈ line, ¬IsBreak c
  stop : ∀ c ∈ after.head?, IsBreak c
  real : line ≠ [] ∨ after ≠ []

def afterBreak : List Char → List Char
  | '\r' :: '\n' :: cs => cs
  | cs => cs.tail

theorem cutLines_break {c : Char} {cs : List Char} (hb : IsBreak c)
    (hr : c = '\r' → cs.head? ≠ some '\n') : cutLines (c :: cs) = [] :: cutLines cs := by
  have hc : ∀ ds, c = '\r' → cs = '\n' :: ds → False := fun ds e he => hr e (he ▸ rfl)
  have hb' : c = '\n' ∨ c = '\r' := hb
  rw [cutLines.eq_3 c cs hc, if_pos hb']

theorem cutLines_cons {c : Char} (cs : List Char) (h : ¬IsBreak c) :
    cutLines (c :: cs) = (c :: (cutLines cs).headD []) :: (cutLines cs).tail := by
  have hr : c ≠ '\r' := fun e => h (.inr e)
  have hb : ¬(c = '\n' ∨ c = '\r') := h
  rw [cutLines.eq_3 c cs fun _ e => absurd e hr, if_neg hb]
  cases cutLines cs with
  | nil => rfl
  | cons l ls => rfl

theorem cutLines_eq_nil {cs : List Char} : cutLines cs = [] ↔ cs = [] := by
  cases cs with
  | nil => simp [cutLines]
  | cons c cs =>
    fun_cases cutLines (c :: cs) <;> simp_all

/-- The first line of a text, and the lines behind its terminator. -/
theorem cutLines_line {l after : List Char} (hl : ∀ c ∈ l, ¬IsBreak c)
    (ha : ∀ c ∈ after.head?, IsBreak c) :
    cutLines (l ++ after) =
      if l = [] ∧ after = [] then [] else l :: cutLines (afterBreak after) := by
  induction l with
  | nil =>
    cases after with
    | nil => rfl
    | cons c cs =>
      have hb := ha c rfl
      by_cases hf : c = '\r' ∧ cs.head? = some '\n'
      · obtain ⟨rfl, hf⟩ := hf
        obtain ⟨ds, rfl⟩ := List.head?_eq_some_iff.mp hf
        simp [cutLines, afterBreak]
      · have hr : c = '\r' → cs.head? ≠ some '\n' := fun e he => hf ⟨e, he⟩
        have ht : afterBreak (c :: cs) = cs := by
          unfold afterBreak
          split
          · simp_all
          · rfl
        simp [cutLines_break hb hr, ht]
  | cons c l ih =>
    have hc := hl c List.mem_cons_self
    rw [List.cons_append, cutLines_cons _ hc, ih fun d hd => hl d (List.mem_cons_of_mem c hd)]
    by_cases he : l = [] ∧ after = []
    · obtain ⟨rfl, rfl⟩ := he
      rfl
    · simp [he]

theorem head?_ne_some {c : Char} {cs : List Char} (h : ∀ ds, cs = c :: ds → False) :
    cs.head? ≠ some c := by
  intro he
  obtain ⟨ds, hd⟩ := List.head?_eq_some_iff.mp he
  exact h ds hd

namespace StartsLine
variable {c : Char} {before rest : List Char}

theorem tail (h : StartsLine (c :: before) rest) : StartsLine before rest := by
  cases before with
  | nil => simp [StartsLine]
  | cons d before => exact h

theorem cons (h : StartsLine before rest)
    (hc : before = [] → c = '\n' ∨ c = '\r' ∧ rest.head? ≠ some '\n') :
    StartsLine (c :: before) rest := by
  cases before with
  | nil => simpa [StartsLine] using hc rfl
  | cons d before => exact h

/-- A terminator in front of a text where a line starts is a whole one. -/
theorem head?_ne (h : StartsLine (c :: before) rest) (hr : c = '\r' → before.head? ≠ some '\n') :
    c = '\r' → (before ++ rest).head? ≠ some '\n' := by
  cases before with
  | nil =>
    rintro rfl
    simpa [StartsLine] using h
  | cons d before => exact hr

end StartsLine

/-- Two texts are cut apart where a line starts. -/
theorem cutLines_append {before rest : List Char} (h : StartsLine before rest) :
    cutLines (before ++ rest) = cutLines before ++ cutLines rest := by
  fun_induction cutLines before with
  | case1 => rfl
  | case2 cs ih =>
    rw [List.cons_append, List.cons_append, cutLines, ih h.tail.tail]
    rfl
  | case3 c cs hr hb ih =>
    have hn := h.head?_ne fun e => head?_ne_some fun ds => hr ds e
    rw [List.cons_append, cutLines_break hb hn, ih h.tail]
    rfl
  | case4 c cs hr hb he ih =>
    rw [cutLines_eq_nil] at he
    subst he
    have hc := h c rfl
    exact absurd (hc.imp_right And.left) hb
  | case5 c cs hr hb l ls he ih =>
    rw [List.cons_append, cutLines_cons _ hb, ih h.tail, he]
    rfl

/-- Every line of a text stands in it behind as many lines as its place says. -/
theorem exists_isLine {text l : List Char} {i : Nat} (h : (cutLines text)[i]? = some l) :
    ∃ before after, text = before ++ l ++ after ∧ IsLine before l after ∧
      (cutLines before).length = i := by
  fun_induction cutLines text generalizing l i with
  | case1 => simp at h
  | case2 cs ih =>
    cases i with
    | zero =>
      cases h
      exact ⟨[], _, rfl, ⟨by simp [StartsLine], by simp, by simp [IsBreak], by simp⟩, rfl⟩
    | succ i =>
      obtain ⟨before, after, rfl, hl, rfl⟩ := ih h
      refine ⟨'\r' :: '\n' :: before, after, rfl, ⟨?_, hl.inside, hl.stop, hl.real⟩, rfl⟩
      exact (hl.start.cons fun _ => .inl rfl).cons (by simp)
  | case3 c cs hr hb ih =>
    have hn : c = '\r' → cs.head? ≠ some '\n' := fun e => head?_ne_some fun ds => hr ds e
    cases i with
    | zero =>
      cases h
      exact ⟨[], _, rfl, ⟨by simp [StartsLine], by simp, by rintro d ⟨⟩; exact hb, by simp⟩,
        rfl⟩
    | succ i =>
      obtain ⟨before, after, rfl, hl, rfl⟩ := ih h
      refine ⟨c :: before, after, rfl, ⟨?_, hl.inside, hl.stop, hl.real⟩, ?_⟩
      · refine hl.start.cons ?_
        rintro rfl
        exact hb.imp_right fun e => ⟨e, hn e⟩
      · have hf : c = '\r' → before.head? ≠ some '\n' := by
          cases before with
          | nil => simp
          | cons d before => exact hn
        rw [cutLines_break hb hf, List.length_cons]
  | case4 c cs hr hb he ih =>
    rw [cutLines_eq_nil] at he
    subst he
    cases i with
    | zero =>
      cases h
      exact ⟨[], [], rfl, ⟨by simp [StartsLine], List.forall_mem_singleton.mpr hb, by simp,
        by simp⟩, rfl⟩
    | succ i => cases h
  | case5 c cs hr hb l₀ ls he ih =>
    -- `c` goes to the front of the first line, and of the text before every other line.
    rw [he] at ih
    cases i with
    | zero =>
      cases h
      obtain ⟨before, after, rfl, hl, hi⟩ := ih (i := 0) rfl
      rw [List.length_eq_zero_iff, cutLines_eq_nil] at hi
      subst hi
      refine ⟨[], after, rfl, ⟨by simp [StartsLine], ?_, hl.stop, by simp⟩, rfl⟩
      exact List.forall_mem_cons.mpr ⟨hb, hl.inside⟩
    | succ i =>
      obtain ⟨before, after, rfl, hl, hi⟩ := ih (i := i + 1) h
      have hn : before ≠ [] := by
        rintro rfl
        cases hi
      refine ⟨c :: before, after, rfl, ⟨hl.start.cons fun e => absurd e hn, hl.inside, hl.stop,
        hl.real⟩, ?_⟩
      rw [cutLines_cons _ hb, List.length_cons, List.length_tail, hi, Nat.add_sub_cancel]

namespace Line

theorem number_append (index : Nat) (a b : List (List Char)) :
    number index (a ++ b) = number index a ++ number (index + a.length) b := by
  induction a generalizing index with
  | nil => rfl
  | cons l a ih =>
    rw [List.cons_append, number, number, ih, List.cons_append, List.length_cons,
      Nat.add_right_comm, Nat.add_assoc]

end Line
end Gcode

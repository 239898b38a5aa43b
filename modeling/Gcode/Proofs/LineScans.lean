import Gcode.Proofs.Finds
import Gcode.Proofs.LineCutting

/-! Scans of the bare text that stay within lines. Such a scan finds in a text what it finds in
its lines, one after the other, so it does not matter how the lines end. -/
namespace Gcode.Pattern
variable {α : Type} {p : Pattern α}

/-- A pattern that no terminator takes part in. None of its matches begins with one, and behind a
text a terminator decides as little as the end of the text. -/
structure StaysInLines (p : Pattern α) : Prop where
  at_break : ∀ c cs, IsBreak c → p (c :: cs) = none
  before_break : ∀ s r, s ≠ [] → (∀ c ∈ r.head?, IsBreak c) → p (s ++ r) = p s

def hits (p : Pattern α) : List Char → List α
  | [] => []
  | c :: cs => ((p (c :: cs)).map (·.1)).toList ++ hits p cs

theorem places_eq_length_hits (p : Pattern α) (cs : List Char) :
    p.places cs = (p.hits cs).length := by
  induction cs with
  | nil => rfl
  | cons c cs ih =>
    rw [places, hits, ih, List.length_append]
    cases p (c :: cs) <;> rfl

theorem first?_eq_head?_hits (p : Pattern α) (cs : List Char) :
    p.first? cs = (p.hits cs).head? := by
  induction cs with
  | nil => rfl
  | cons c cs ih =>
    rw [first?_cons, hits, ih]
    cases p (c :: cs) <;> rfl

/-- The scan of a text is the scan of its lines. -/
theorem StaysInLines.hits_cutLines (h : p.StaysInLines) (cs : List Char) :
    p.hits cs = (cutLines cs).flatMap p.hits := by
  fun_induction cutLines cs with
  | case1 => rfl
  | case2 cs ih =>
    rw [hits, hits, h.at_break _ _ (.inr rfl), h.at_break _ _ (.inl rfl), ih]
    rfl
  | case3 c cs hr hb ih =>
    rw [hits, h.at_break _ _ hb, ih]
    rfl
  | case4 c cs hr hb he ih =>
    rw [cutLines_eq_nil] at he
    subst he
    exact (List.append_nil _).symm
  | case5 c cs hr hb l ls he ih =>
    -- The first line stands at the front, and a terminator behind it decides nothing.
    obtain ⟨before, after, rfl, hl, hi⟩ := exists_isLine (i := 0) (by rw [he]; rfl)
    rw [List.length_eq_zero_iff, cutLines_eq_nil] at hi
    subst hi
    have hp : p (c :: (l ++ after)) = p (c :: l) :=
      h.before_break (c :: l) after (List.cons_ne_nil c l) hl.stop
    rw [List.nil_append] at ih he ⊢
    rw [hits, hp, ih, he, List.flatMap_cons, List.flatMap_cons, hits, List.append_assoc]

/-- Two texts with a terminator between them are searched one after the other. -/
theorem StaysInLines.first?_append_break (h : p.StaysInLines) {c : Char} (hc : IsBreak c)
    (a b : List Char) : p.first? (a ++ c :: b) = (p.first? a).or (p.first? b) := by
  have hseam : ∀ s ≠ [], (p (s ++ c :: b)).map (·.1) = (p s).map (·.1) := fun s hs => by
    rw [h.before_break s (c :: b) hs fun d hd => Option.some.inj hd ▸ hc]
  rw [first?_seam hseam, first?_cons, h.at_break c b hc]
  rfl

end Gcode.Pattern

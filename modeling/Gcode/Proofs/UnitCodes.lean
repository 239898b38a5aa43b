import Gcode.Proofs.LineEndings

/-! The codes of units in a text. The first of them decides, wherever it stands, and a line feed
joins no code and breaks none. -/
namespace Gcode

/-- A capital is written in two ways. -/
theorem toUpper_eq_iff_of_isUpper {c u : Char} (hu : u.isUpper = true) :
    c.toUpper = u ↔ c = u ∨ c = u.toLower := by
  constructor
  · rintro rfl
    by_cases hl : c.isLower = true
    · right
      rw [Char.toLower_toUpper_eq_toLower,
        Char.toLower_eq_of_not_isUpper (Char.not_isUpper_of_isLower hl)]
    · exact .inl (Char.toUpper_eq_of_not_isLower hl).symm
  · have hself : u.toUpper = u := Char.toUpper_eq_of_not_isLower (Char.not_isLower_of_isUpper hu)
    rintro (rfl | rfl)
    · exact hself
    · rw [Char.toUpper_toLower_eq_toUpper, hself]

theorem foldCase_eq_G_iff {c : Char} : foldCase c = 'G' ↔ c = 'G' ∨ c = 'g' := by
  by_cases hs : c = '\u017F'
  · subst hs
    decide
  · by_cases hk : c = '\u212A'
    · subst hk
      decide
    · rw [foldCase, if_neg hs, if_neg hk]
      exact toUpper_eq_iff_of_isUpper (by decide)

namespace LengthUnit

def lastDigit : LengthUnit → Char
  | inch => '0'
  | metric => '1'

/-- G20 or G21 at the front of a text, in either case and with any zeros. The number ends there:
neither a digit nor a point follows. -/
def IsCode (u : LengthUnit) (cs : List Char) : Prop :=
  ∃ g zeros r, cs = g :: (List.replicate zeros '0' ++ '2' :: u.lastDigit :: r) ∧
    (g = 'G' ∨ g = 'g') ∧ ∀ c ∈ r.head?, c.isDigit = false ∧ c ≠ '.'

theorem ofDigits?_eq_some_iff {u : LengthUnit} {cs : List Char} :
    ofDigits? cs = some u ↔
      ∃ r, cs = '2' :: u.lastDigit :: r ∧ ∀ c ∈ r.head?, c.isDigit = false ∧ c ≠ '.' := by
  constructor
  · intro h
    unfold ofDigits? at h
    split at h
    · rename_i d r
      have hr : ∀ c ∈ r.head?, c.isDigit = false ∧ c ≠ '.' := by
        intro c hc
        obtain ⟨r, rfl⟩ := List.head?_eq_some_iff.mp hc
        by_contra hn
        simp_all
      have hdigit : (if d = '0' then some inch else if d = '1' then some metric else none) =
          some u := by
        cases r with
        | nil => simpa using h
        | cons c r => simpa [hr c rfl] using h
      refine ⟨r, ?_, hr⟩
      cases u <;> grind [lastDigit]
    · cases h
  · rintro ⟨r, rfl, hr⟩
    cases r with
    | nil => cases u <;> rfl
    | cons c r =>
      obtain ⟨hd, hp⟩ := hr c rfl
      cases u <;> simp [ofDigits?, lastDigit, hd, hp]

theorem recognizes_code? : code?.Recognizes IsCode where
  stands_iff u cs := by
    cases cs with
    | nil => simp [code?, IsCode]
    | cons g cs =>
      constructor
      · intro h
        obtain ⟨x, hx, rfl⟩ := Option.map_eq_some_iff.mp h
        rw [code?] at hx
        split at hx
        · rename_i hg
          obtain ⟨u, hu, rfl⟩ := Option.map_eq_some_iff.mp hx
          obtain ⟨r, hr, hend⟩ := ofDigits?_eq_some_iff.mp hu
          refine ⟨g, leading (· == '0') cs, r, ?_, foldCase_eq_G_iff.mp hg, hend⟩
          rw [← hr, ← eq_zeros_append]
        · cases hx
      · rintro ⟨_, zeros, r, he, hg, hend⟩
        obtain ⟨rfl, rfl⟩ := List.cons.inj he
        have hzeros : ∀ c ∈ List.replicate zeros '0', (c == '0') = true := fun c hc =>
          beq_iff_eq.mpr (List.eq_of_mem_replicate hc)
        have hdigits : ofDigits? ('2' :: u.lastDigit :: r) = some u :=
          ofDigits?_eq_some_iff.mpr ⟨r, rfl, hend⟩
        rw [code?, if_pos (foldCase_eq_G_iff.mpr hg), List.dropWhile_append_of_pos hzeros,
          List.dropWhile_cons_of_neg (by decide), hdigits]
        rfl
  not_nil u := by
    rintro ⟨g, zeros, r, h, -⟩
    cases h

/-- Behind a text on lines of its own another text decides only if the first one has no code. -/
theorem ofText_append_feed (a b : String) :
    ofText (a ++ "\n" ++ b) = ((code?.first? a.toList).or (code?.first? b.toList)).getD inch := by
  have hjoined : (a ++ "\n" ++ b).toList = a.toList ++ '\n' :: b.toList := by simp
  rw [ofText, hjoined, staysInLines.first?_append_break (.inl rfl)]

/-- A text is metric if its leftmost code of a unit is G21, and in inches otherwise. In a text with
another one below it the code is that of the first text, or of the second if the first has none. -/
theorem ofText_first_code :
    (∀ text, ofText text = metric ↔ Pattern.IsFirst IsCode metric text.toList) ∧
      (∀ text, ofText text = inch ↔ ¬Pattern.IsFirst IsCode metric text.toList) ∧
      ∀ a b : String,
        ((∃ u i, IsCode u (a.toList.drop i)) → ofText (a ++ "\n" ++ b) = ofText a) ∧
        ((¬∃ u i, IsCode u (a.toList.drop i)) → ofText (a ++ "\n" ++ b) = ofText b) := by
  have hmetric (text : String) :
      ofText text = metric ↔ Pattern.IsFirst IsCode metric text.toList := by
    rw [← recognizes_code?.first?_eq_some_iff, ofText]
    cases code?.first? text.toList <;> simp
  refine ⟨hmetric, fun text => ?_, fun a b => ⟨fun ha => ?_, fun ha => ?_⟩⟩
  · rw [← hmetric]
    cases ofText text <;> simp
  · cases hfirst : code?.first? a.toList with
    | none =>
      obtain ⟨u, i, hu⟩ := ha
      exact absurd hu (recognizes_code?.first?_eq_none_iff.mp hfirst u i)
    | some u => rw [ofText_append_feed, hfirst, ofText, hfirst, Option.some_or]
  · have hfirst : code?.first? a.toList = none :=
      recognizes_code?.first?_eq_none_iff.mpr fun u i hu => ha ⟨u, i, hu⟩
    rw [ofText_append_feed, hfirst, Option.none_or, ofText]

/-- Longer codes and codes with a point choose no unit, and neither does G2 in front of a line
that goes on with 0. -/
example : ofText "G210 g21.1 G2\n0 XG0021;G20" = metric := by decide +kernel

end LengthUnit
end Gcode

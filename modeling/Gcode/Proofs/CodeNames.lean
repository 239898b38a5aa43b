import Gcode.Proofs.CanonicalName

/-! Names of the same code. Two names have one canonical form exactly if they differ in case, in
white space around them, and in zeros in front of the whole part of the argument. -/
namespace Gcode

/-- Arguments that differ in nothing but zeros in front. They are cut at their first points. Either
none of them has a point, or the same fraction stands behind both points. A whole part that is
missing is zero. -/
inductive SameArgument : List Char → List Char → Prop
  | whole {w w' : List Char} (hw : '.' ∉ w) (hw' : '.' ∉ w')
      (h : w.dropWhile (· == '0') = w'.dropWhile (· == '0')) : SameArgument w w'
  | fraction {w w' : List Char} (f : List Char) (hw : '.' ∉ w) (hw' : '.' ∉ w')
      (h : w.dropWhile (· == '0') = w'.dropWhile (· == '0')) :
      SameArgument (w ++ '.' :: f) (w' ++ '.' :: f)

inductive SameName : List Char → List Char → Prop
  | refl (name : List Char) : SameName name name
  | letter {c : Char} {s t : List Char} (hc : c.isAlpha) (h : SameArgument s t) :
      SameName (c :: s) (c :: t)

theorem dropZeros_eq_iff {w w' : List Char} :
    dropZeros w = dropZeros w' ↔ w.dropWhile (· == '0') = w'.dropWhile (· == '0') := by
  constructor
  · intro h
    rw [← dropWhile_dropZeros w, h, dropWhile_dropZeros]
  · intro h
    rw [dropZeros, h, dropZeros]

theorem canonicalArgument_eq_canonicalArgument_iff {s t : List Char} :
    canonicalArgument s = canonicalArgument t ↔ SameArgument s t := by
  have hpoint {v : List Char} (hv : '.' ∉ v) : ∀ c ∈ dropZeros v, (c != '.') = true :=
    fun c hc => bne_iff_ne.mpr fun e => point_notMem_dropZeros hv (e ▸ hc)
  have hhead {v : List Char} (hv : ∀ c ∈ v.head?, c = '.') : ∀ c ∈ v.head?, (c != '.') = false :=
    fun c hc => by rw [hv c hc]; rfl
  constructor
  · intro h
    obtain ⟨w, f, rfl, hw, hf⟩ := exists_whole_fraction s
    obtain ⟨w', f', rfl, hw', hf'⟩ := exists_whole_fraction t
    rw [canonicalArgument_append hw hf, canonicalArgument_append hw' hf'] at h
    obtain ⟨hzeros, rfl⟩ := append_inj_of_head (hpoint hw) (hpoint hw') (hhead hf) (hhead hf') h
    cases f with
    | nil => simpa using SameArgument.whole hw hw' (dropZeros_eq_iff.mp hzeros)
    | cons c f =>
      obtain rfl : c = '.' := hf c rfl
      exact .fraction f hw hw' (dropZeros_eq_iff.mp hzeros)
  · intro h
    cases h with
    | whole hw hw' h =>
      have hempty : ∀ c ∈ ([] : List Char).head?, c = '.' := by simp
      rw [← List.append_nil s, ← List.append_nil t, canonicalArgument_append hw hempty,
        canonicalArgument_append hw' hempty, dropZeros_eq_iff.mpr h]
    | fraction f hw hw' h =>
      have hbehind : ∀ c ∈ ('.' :: f).head?, c = '.' := fun c hc => (Option.some.inj hc).symm
      rw [canonicalArgument_append hw hbehind, canonicalArgument_append hw' hbehind,
        dropZeros_eq_iff.mpr h]

theorem head?_withoutZeros (s : List Char) : (withoutZeros s).head? = s.head? := by
  cases s with
  | nil => rfl
  | cons c s =>
    rw [withoutZeros]
    split <;> rfl

theorem withoutZeros_eq_withoutZeros_iff {s t : List Char} :
    withoutZeros s = withoutZeros t ↔ SameName s t := by
  constructor
  · intro h
    have hfirst : s.head? = t.head? := by rw [← head?_withoutZeros, h, head?_withoutZeros]
    match s, t with
    | [], [] => exact .refl []
    | c :: s, d :: t =>
      obtain rfl : c = d := Option.some.inj hfirst
      by_cases hc : c.isAlpha = true
      · simp only [withoutZeros, hc, if_true, List.cons.injEq, true_and] at h
        exact .letter hc (canonicalArgument_eq_canonicalArgument_iff.mp h)
      · simp only [withoutZeros, hc, Bool.false_eq_true, if_false] at h
        exact h ▸ .refl _
  · intro h
    cases h with
    | refl => rfl
    | letter hc h =>
      rw [withoutZeros, withoutZeros, if_pos hc, if_pos hc,
        canonicalArgument_eq_canonicalArgument_iff.mpr h]

namespace Code

/-- The canonical form of a canonical name is the name itself. Two names have the same canonical
form exactly if they are names of the same code, once they are trimmed and in capitals. Trimming
takes away the white space around a name and nothing else. -/
theorem ofName_identifies (a b : String) :
    ofName (ofName a) = ofName a ∧
      (ofName a = ofName b ↔
        SameName (capitals (trimBlanks a.toList)) (capitals (trimBlanks b.toList))) ∧
      ∀ name, IsTrimmed (trimBlanks name) ∧ ∃ front back,
        name = front ++ trimBlanks name ++ back ∧ ∀ c ∈ front ++ back, isBlank c = true := by
  refine ⟨ofName_ofName a, ?_, fun name => ⟨isTrimmed_trimBlanks name, exists_blanks_around name⟩⟩
  rw [ofName, ofName, String.ofList_inj, canonicalName_eq, canonicalName_eq,
    withoutZeros_eq_withoutZeros_iff]

end Code
end Gcode

import Gcode.Proofs.CanonicalCode
import Gcode.Proofs.Capitals
import Mathlib.Data.List.DropRight

/-! The canonical names of codes. They are trimmed, in capitals and without leading zeros, so the
canonical form of one of them is the name itself. -/
namespace Gcode

structure IsTrimmed (cs : List Char) : Prop where
  head : ∀ c ∈ cs.head?, isBlank c = false
  last : ∀ c ∈ cs.getLast?, isBlank c = false

theorem last_of_suffix {p : Char → Bool} {r cs : List Char} (hr : r <:+ cs)
    (h : ∀ c ∈ cs.getLast?, p c = false) : ∀ c ∈ r.getLast?, p c = false := by
  intro c hc
  obtain ⟨s, rfl⟩ := hr
  apply h c
  rw [List.getLast?_append, Option.mem_def.mp hc]
  rfl

theorem last_cons {p : Char → Bool} {c : Char} {cs : List Char} (hc : p c = false)
    (h : ∀ d ∈ cs.getLast?, p d = false) : ∀ d ∈ (c :: cs).getLast?, p d = false := by
  intro d hd
  rw [List.getLast?_cons, Option.mem_some_iff] at hd
  subst hd
  cases hl : cs.getLast? with
  | none => exact hc
  | some d => exact h d hl

theorem isTrimmed_trimBlanks (cs : List Char) : IsTrimmed (trimBlanks cs) := by
  have htrim : trimBlanks cs = (cs.dropWhile isBlank).rdropWhile isBlank := rfl
  constructor
  · intro c hc
    obtain ⟨rest, hrest⟩ := List.head?_eq_some_iff.mp hc
    obtain ⟨blanks, hblanks⟩ := List.rdropWhile_prefix (p := isBlank) (l := cs.dropWhile isBlank)
    have h := List.head?_dropWhile_not isBlank cs
    rw [← hblanks, ← htrim, hrest] at h
    simpa using h
  · intro c hc
    rw [htrim] at hc
    obtain ⟨hne, rfl⟩ := List.mem_getLast?_eq_getLast hc
    exact Bool.not_eq_true _ ▸ List.rdropWhile_last_not isBlank _ hne

theorem exists_blanks_around (cs : List Char) : ∃ front back,
    cs = front ++ trimBlanks cs ++ back ∧ ∀ c ∈ front ++ back, isBlank c = true := by
  let rest := cs.dropWhile isBlank
  have hrest : rest = (rest.reverse.dropWhile isBlank).reverse ++
      (rest.reverse.takeWhile isBlank).reverse := by
    rw [← List.reverse_append, List.takeWhile_append_dropWhile, List.reverse_reverse]
  refine ⟨cs.takeWhile isBlank, (rest.reverse.takeWhile isBlank).reverse, ?_, fun c hc => ?_⟩
  · rw [trimBlanks, List.append_assoc, ← hrest, List.takeWhile_append_dropWhile]
  · rcases List.mem_append.mp hc with hc | hc
    · exact List.mem_takeWhile_imp hc
    · exact List.mem_takeWhile_imp (List.mem_reverse.mp hc)

namespace IsTrimmed
variable {cs : List Char}

theorem trimBlanks_eq (h : IsTrimmed cs) : trimBlanks cs = cs := by
  have hhead : cs.dropWhile isBlank = cs := by
    cases cs with
    | nil => rfl
    | cons c cs => rw [List.dropWhile_cons, h.head c rfl, if_neg Bool.false_ne_true]
  have hlast : cs.rdropWhile isBlank = cs := by
    refine List.rdropWhile_eq_self_iff.mpr fun hne => ?_
    rw [h.last _ (List.getLast?_eq_some_getLast hne)]
    exact Bool.false_ne_true
  rw [trimBlanks, hhead]
  exact hlast

theorem capitals (h : IsTrimmed cs) : IsTrimmed (capitals cs) := by
  constructor
  · intro c hc
    rw [Gcode.capitals, List.head?_map, Option.mem_map] at hc
    obtain ⟨d, hd, rfl⟩ := hc
    rw [isBlank_toUpper, h.head d hd]
  · intro c hc
    rw [Gcode.capitals, List.getLast?_map, Option.mem_map] at hc
    obtain ⟨d, hd, rfl⟩ := hc
    rw [isBlank_toUpper, h.last d hd]

end IsTrimmed

theorem mem_dropZeros {c : Char} {cs : List Char} (h : c ∈ dropZeros cs) : c = '0' ∨ c ∈ cs := by
  rw [dropZeros] at h
  split at h
  · exact .inl (List.mem_singleton.mp h)
  · exact .inr ((List.dropWhile_sublist _).mem h)

theorem point_notMem_dropZeros {cs : List Char} (h : '.' ∉ cs) : '.' ∉ dropZeros cs :=
  fun hm => (mem_dropZeros hm).elim (by decide) h

theorem dropWhile_dropZeros (cs : List Char) :
    (dropZeros cs).dropWhile (· == '0') = cs.dropWhile (· == '0') := by
  have hidem := List.dropWhile_idempotent (p := (· == '0')) (l := cs)
  rw [dropZeros]
  split
  · rename_i h
    rw [h]
    rfl
  · exact hidem

theorem dropZeros_dropZeros (cs : List Char) : dropZeros (dropZeros cs) = dropZeros cs := by
  rw [dropZeros, dropWhile_dropZeros, dropZeros]

/-- Only the part in front of the first point loses zeros. -/
theorem canonicalArgument_append {whole fraction : List Char} (hw : '.' ∉ whole)
    (hf : ∀ c ∈ fraction.head?, c = '.') :
    canonicalArgument (whole ++ fraction) = dropZeros whole ++ fraction := by
  have hall : ∀ c ∈ whole, (c != '.') = true := fun c hc => bne_iff_ne.mpr fun e => hw (e ▸ hc)
  have hhead : ∀ c ∈ fraction.head?, (c != '.') = false := fun c hc => by rw [hf c hc]; rfl
  rw [canonicalArgument, dropWhile_append_of_class hall hhead, takeWhile_append_of_head hall hhead]

/-- An argument falls into a whole part without a point, and a fraction that begins with one. -/
theorem exists_whole_fraction (cs : List Char) : ∃ whole fraction, cs = whole ++ fraction ∧
    '.' ∉ whole ∧ ∀ c ∈ fraction.head?, c = '.' := by
  obtain ⟨whole, fraction, he, hw, hf⟩ := exists_span (· != '.') cs
  refine ⟨whole, fraction, he, fun h => absurd (hw '.' h) (by decide), fun c hc => ?_⟩
  simpa using hf c hc

theorem canonicalArgument_canonicalArgument (cs : List Char) :
    canonicalArgument (canonicalArgument cs) = canonicalArgument cs := by
  obtain ⟨whole, fraction, rfl, hw, hf⟩ := exists_whole_fraction cs
  rw [canonicalArgument_append hw hf, canonicalArgument_append (point_notMem_dropZeros hw) hf,
    dropZeros_dropZeros]

/-- What is left of an argument is its end, with a zero in front if no whole part was left. -/
theorem exists_suffix_canonicalArgument (cs : List Char) : ∃ rest, rest <:+ cs ∧
    (canonicalArgument cs = rest ∨ canonicalArgument cs = '0' :: rest) := by
  obtain ⟨whole, fraction, rfl, hw, hf⟩ := exists_whole_fraction cs
  rw [canonicalArgument_append hw hf, dropZeros]
  split
  · exact ⟨fraction, List.suffix_append whole fraction, .inr rfl⟩
  · rename_i rest _
    obtain ⟨zeros, hzeros⟩ := List.dropWhile_suffix (l := whole) (· == '0')
    refine ⟨whole.dropWhile (· == '0') ++ fraction, ⟨zeros, ?_⟩, .inl rfl⟩
    rw [← List.append_assoc, hzeros]

theorem dropZeros_capitals (cs : List Char) :
    dropZeros (capitals cs) = capitals (dropZeros cs) := by
  rw [dropZeros, dropWhile_capitals (beq_toUpper (by decide))]
  cases h : cs.dropWhile (· == '0') with
  | nil =>
    rw [dropZeros, h]
    decide
  | cons d ds =>
    rw [dropZeros, h]
    rfl

theorem canonicalArgument_capitals (cs : List Char) :
    canonicalArgument (capitals cs) = capitals (canonicalArgument cs) := by
  obtain ⟨whole, fraction, rfl, hw, hf⟩ := exists_whole_fraction cs
  have hw' : '.' ∉ capitals whole := mt (mem_capitals (by decide)).mp hw
  have hf' : ∀ c ∈ (capitals fraction).head?, c = '.' := by
    cases fraction with
    | nil => exact hf
    | cons c cs =>
      rintro _ ⟨⟩
      rw [hf c rfl]
      decide
  have happend (u v : List Char) : capitals (u ++ v) = capitals u ++ capitals v := List.map_append
  rw [canonicalArgument_append hw hf, happend, happend, canonicalArgument_append hw' hf',
    dropZeros_capitals]

def withoutZeros : List Char → List Char
  | [] => []
  | c :: cs => if c.isAlpha then c :: canonicalArgument cs else c :: cs

theorem canonicalName_eq (name : List Char) :
    canonicalName name = withoutZeros (capitals (trimBlanks name)) := by
  rw [canonicalName, ← capitals]
  cases capitals (trimBlanks name) <;> rfl

theorem withoutZeros_withoutZeros (cs : List Char) :
    withoutZeros (withoutZeros cs) = withoutZeros cs := by
  cases cs with
  | nil => rfl
  | cons c cs =>
    by_cases hc : c.isAlpha
    · simp only [withoutZeros, hc, if_true, canonicalArgument_canonicalArgument]
    · simp only [withoutZeros, hc, Bool.false_eq_true, if_false]

theorem IsTrimmed.withoutZeros {cs : List Char} (h : IsTrimmed cs) :
    IsTrimmed (withoutZeros cs) := by
  cases cs with
  | nil => exact h
  | cons c cs =>
    rw [Gcode.withoutZeros]
    split
    · have hlast : ∀ d ∈ cs.getLast?, isBlank d = false :=
        last_of_suffix (List.suffix_cons c cs) h.last
      refine ⟨h.head, last_cons (h.head c rfl) ?_⟩
      obtain ⟨rest, hsuffix, hrest | hrest⟩ := exists_suffix_canonicalArgument cs
      · exact hrest ▸ last_of_suffix hsuffix hlast
      · exact hrest ▸ last_cons (by decide) (last_of_suffix hsuffix hlast)
    · exact h

theorem withoutZeros_capitals (cs : List Char) :
    withoutZeros (capitals cs) = capitals (withoutZeros cs) := by
  cases cs with
  | nil => rfl
  | cons c cs =>
    have hcons (ds : List Char) : capitals (c :: ds) = c.toUpper :: capitals ds := rfl
    rw [hcons, withoutZeros, withoutZeros, Char.isAlpha_toUpper_eq_isAlpha,
      canonicalArgument_capitals]
    split <;> rfl

theorem canonicalName_canonicalName (name : List Char) :
    canonicalName (canonicalName name) = canonicalName name := by
  have htrim : IsTrimmed (withoutZeros (capitals (trimBlanks name))) :=
    (isTrimmed_trimBlanks name).capitals.withoutZeros
  rw [canonicalName_eq name, canonicalName_eq, htrim.trimBlanks_eq, ← withoutZeros_capitals,
    capitals_capitals, withoutZeros_withoutZeros]

theorem Code.ofName_ofName (name : String) : ofName (ofName name) = ofName name := by
  rw [ofName, ofName, String.toList_ofList, canonicalName_canonicalName]

end Gcode

import Gcode.Proofs.CapitalWords
import Gcode.Proofs.CodeNames
import Gcode.Proofs.LabelText

/-! The keys of words. A word is looked up under its letter and its canonical code, which is the
pair by which the outline and the machine know it. -/
namespace Gcode

theorem IsSolid.isTrimmed {cs : List Char} (h : IsSolid cs) : IsTrimmed cs where
  head c hc := h c (List.mem_of_mem_head? hc)
  last c hc := h c (List.mem_of_mem_getLast? hc)

namespace Meaning

theorem isAlpha_of_mem_table : ∀ e ∈ table, e.1.1.isAlpha = true := by decide +kernel

theorem isAlpha_of_ofWord? {w : Word} {meaning : Meaning} (h : ofWord? w = some meaning) :
    w.kind = .address ∧ w.letter.isAlpha = true := by
  obtain ⟨ha, hlookup | ⟨-, n, -, hletter, -⟩⟩ := ofWord?_eq_some_iff.mp h
  · exact ⟨ha, isAlpha_of_mem_table _ (mem_table_of_lookup hlookup)⟩
  · rw [hletter]
    exact ⟨ha, by decide⟩

end Meaning

namespace Word

def key (w : Word) : String := String.ofList (w.letter :: w.code.toList)

def IsRecognized (w : Word) : Prop := (Meaning.ofWord? w).isSome ∨ w.effect?.isSome

theorem isAlpha_of_effect? {w : Word} {effect : Effect} (h : w.effect? = some effect) :
    w.kind = .address ∧ w.letter.isAlpha = true := by
  rw [effect?] at h
  split at h
  · cases h
  · next ha =>
    refine ⟨not_not.mp ha, ?_⟩
    split at h
    case h_8 => cases h
    all_goals
      rename_i hletter
      rw [hletter]
      decide

theorem IsRecognized.isAlpha {w : Word} (h : w.IsRecognized) :
    w.kind = .address ∧ w.letter.isAlpha = true := by
  rcases h with h | h
  · obtain ⟨meaning, hm⟩ := Option.isSome_iff_exists.mp h
    exact Meaning.isAlpha_of_ofWord? hm
  · obtain ⟨effect, he⟩ := Option.isSome_iff_exists.mp h
    exact isAlpha_of_effect? he

variable {line : Line} {w : Word}

/-- The text of a word has no white space and is in capitals, so only zeros are dropped. -/
theorem ofName_text (hw : w ∈ (Block.ofLine line).words) (hc : w.letter.isAlpha = true) :
    Code.ofName w.text = w.key := by
  obtain ⟨t, -, -, htext⟩ := exists_of_mem_ofChars hw
  have htrim : IsTrimmed w.text.toList := (Block.isSolid_of_mem_words hw).isTrimmed
  have hcapitals : capitals w.text.toList = w.text.toList := by rw [htext, capitals_capitals]
  have hsplit : w.text.toList = w.letter :: w.argument.toList := by rw [text, String.toList_ofList]
  rw [Code.ofName, canonicalName_eq, htrim.trimBlanks_eq, hcapitals, hsplit, withoutZeros,
    if_pos hc, key, code, Code.ofArgument, String.toList_ofList]

/-- A word that begins with an ASCII letter is looked up under its letter and its code, in every
loaded reference, and finds the last explanation that is listed for them. The words of which the
outline or the machine takes notice are numbers behind such a letter. -/
theorem lookup_under_key (hw : w ∈ (Block.ofLine line).words) :
    (w.letter.isAlpha = true → Code.ofName w.text = w.key ∧ Code.ofName w.key = w.key ∧
      (∀ (registry : Registry) (name : String), registry.lookupFrom name w.text =
        (registry.get? name).bind (·.codes.get? w.key)) ∧
      ∀ listing, (Reference.ofListing listing).lookup w.text = listing.lastOn? w.key) ∧
    (w.IsRecognized → w.kind = .address ∧ w.letter.isAlpha = true) := by
  refine ⟨fun hc => ?_, IsRecognized.isAlpha⟩
  have htext : Code.ofName w.text = w.key := ofName_text hw hc
  refine ⟨htext, ?_, fun registry name => ?_, fun listing => ?_⟩
  · rw [← htext, Code.ofName_ofName]
  · rw [← htext]
    rfl
  · rw [Reference.lookup_ofListing, htext]

/-- A work offset with white space, a comment and zeros in it. -/
theorem lookup_under_key_spaced_zeros :
    let line : Line := ⟨7, "n5 g 0(a)054.1 P2 (x) M+03"⟩
    let w : Word := ⟨'G', "0054.1", 7, .address⟩
    w ∈ (Block.ofLine line).words ∧ w.IsRecognized ∧ w.letter.isAlpha = true ∧
    w.text = "G0054.1" ∧ w.key = "G54.1" ∧ Code.ofName "G0054.1" = "G54.1" ∧
    Code.ofName "G54.1" = "G54.1" ∧
    ∀ listing, (Reference.ofListing listing).lookup "G0054.1" = listing.lastOn? "G54.1" := by
  intro line w
  have hw : w ∈ (Block.ofLine line).words := by decide +kernel
  have hrecognized : w.IsRecognized := .inl (by decide +kernel)
  have htext : w.text = "G0054.1" := by decide +kernel
  have hkey : w.key = "G54.1" := by decide +kernel
  have hc : w.letter.isAlpha = true := ((lookup_under_key hw).2 hrecognized).2
  obtain ⟨hname, hagain, -, hlisting⟩ := (lookup_under_key hw).1 hc
  rw [htext, hkey] at hname
  rw [hkey] at hagain
  rw [htext, hkey] at hlisting
  exact ⟨hw, hrecognized, hc, htext, hkey, hname, hagain, hlisting⟩

end Word
end Gcode

import Gcode.Proofs.LabelText
import Gcode.Proofs.Numerals

/-! Which words make entries of an outline. They are the documented codes, and the work offsets that
are written with a plus sign in front of their numbers. -/
namespace Gcode

namespace Code

def offsets : List Nat := List.range' 54 6 ++ List.range' 110 20

def documented : List (Char × String) :=
  ["0", "1", "2", "3", "15", "54.1", "154", "65"].map (('G', ·)) ++
    offsets.map (fun n => ('G', toString n)) ++
    ["3", "4", "6", "8", "9", "97", "99"].map (('M', ·))

theorem mem_offsets {n : Nat} : n ∈ offsets ↔ 54 ≤ n ∧ n ≤ 59 ∨ 110 ≤ n ∧ n ≤ 129 := by
  simp only [offsets, List.mem_append, List.mem_range'_1]
  omega

/-- The documented codes are those of the table and the numbered work offsets. -/
theorem mem_documented_iff (key : Char × String) : key ∈ documented ↔
    (Meaning.table.lookup key).isSome = true ∨ key.1 = 'G' ∧ ∃ n ∈ offsets, key.2 = toString n := by
  constructor
  · have h : ∀ key ∈ documented, (Meaning.table.lookup key).isSome = true ∨
        key.1 = 'G' ∧ ∃ n ∈ offsets, key.2 = toString n := by
      decide +kernel
    exact h key
  · rintro (h | ⟨hletter, n, hn, hcode⟩)
    · have htable : ∀ e ∈ Meaning.table, e.1 ∈ documented := by decide +kernel
      obtain ⟨meaning, hlookup⟩ := Option.isSome_iff_exists.mp h
      exact htable _ (Meaning.mem_table_of_lookup hlookup)
    · have hoffsets : ∀ n ∈ offsets, ('G', toString n) ∈ documented := by decide +kernel
      have hkey : key = ('G', toString n) := Prod.ext hletter hcode
      exact hkey ▸ hoffsets n hn

end Code

namespace Word

def IsDocumented (w : Word) : Prop := w.kind = .address ∧ (w.letter, w.code) ∈ Code.documented

instance : DecidablePred IsDocumented := fun w =>
  inferInstanceAs (Decidable (w.kind = .address ∧ (w.letter, w.code) ∈ Code.documented))

/-- A work offset with a plus sign in front of its number, and any zeros between the two. -/
def IsSignedOffset (w : Word) : Prop :=
  w.kind = .address ∧ w.letter = 'G' ∧
    ∃ n ∈ Code.offsets, ∃ zeros, w.code.toList = '+' :: numeral zeros n

theorem code_eq_toString {w : Word} {zeros n : Nat} (h : w.code.toList = numeral zeros n) :
    w.code = toString n := by
  rw [code, Code.ofArgument, String.toList_ofList] at h
  have hcanonical := canonicalArgument_canonicalArgument w.argument.toList
  rw [h, canonicalArgument_numeral] at hcanonical
  rw [code, Code.ofArgument, h, ← hcanonical, Nat.toString_eq_ofList_toDigits]
  rfl

theorem readNat32?_code {w : Word} {n : Nat} (hn : n ∈ Code.offsets) :
    readNat32? w.code.toList = some n ↔
      w.code = toString n ∨ ∃ zeros, w.code.toList = '+' :: numeral zeros n := by
  have hlt : n < 0x100000000 := by
    have hrange := Code.mem_offsets.mp hn
    omega
  rw [readNat32?_eq_some_iff, and_iff_right hlt, exists_or]
  constructor
  · rintro (⟨zeros, h⟩ | h)
    · exact .inl (code_eq_toString h)
    · exact .inr h
  · rintro (h | h)
    · refine .inl ⟨0, ?_⟩
      rw [h, Nat.toString_eq_ofList_toDigits, String.toList_ofList]
      rfl
    · exact .inr h

def IsShown (w : Word) : Prop := w.IsDocumented ∨ w.IsSignedOffset

theorem IsShown.kind_eq {w : Word} (h : w.IsShown) : w.kind = .address := h.elim (·.1) (·.1)

theorem isSome_ofWord?_iff (w : Word) : (Meaning.ofWord? w).isSome = true ↔ w.IsShown := by
  simp only [Option.isSome_iff_exists, Meaning.ofWord?_eq_some_iff]
  constructor
  · rintro ⟨meaning, ha, hlookup | ⟨-, n, hread, hletter, hrange, -⟩⟩
    · exact .inl ⟨ha, (Code.mem_documented_iff _).mpr (.inl (hlookup ▸ rfl))⟩
    · have hn := Code.mem_offsets.mpr hrange
      cases (readNat32?_code hn).mp hread with
      | inl hcode =>
        exact .inl ⟨ha, (Code.mem_documented_iff _).mpr (.inr ⟨hletter, n, hn, hcode⟩)⟩
      | inr hsigned => exact .inr ⟨ha, hletter, n, hn, hsigned⟩
  · intro h
    cases hlookup : Meaning.table.lookup (w.letter, w.code) with
    | some meaning => exact ⟨meaning, h.kind_eq, .inl rfl⟩
    | none =>
      -- What the table does not list can only be shown as a work offset.
      have hoffset : w.letter = 'G' ∧ ∃ n ∈ Code.offsets, readNat32? w.code.toList = some n := by
        rcases h with ⟨-, hdocumented⟩ | ⟨-, hletter, n, hn, hsigned⟩
        · rcases (Code.mem_documented_iff _).mp hdocumented with hsome | ⟨hletter, n, hn, hcode⟩
          · rw [hlookup] at hsome
            cases hsome
          · exact ⟨hletter, n, hn, (readNat32?_code hn).mpr (.inl hcode)⟩
        · exact ⟨hletter, n, hn, (readNat32?_code hn).mpr (.inr hsigned)⟩
      obtain ⟨hletter, n, hn, hread⟩ := hoffset
      exact ⟨Meaning.plainOffset, h.kind_eq,
        .inr ⟨rfl, n, hread, hletter, Code.mem_offsets.mp hn, rfl⟩⟩

instance : DecidablePred IsShown := fun w => decidable_of_iff _ w.isSome_ofWord?_iff

end Word

/-- What a function keeps of a list stands in the order of the items that it keeps. -/
theorem forall₂_filterMap {α β : Type} {f : α → Option β} {p : α → Bool}
    (h : ∀ a, p a = (f a).isSome) (l : List α) :
    List.Forall₂ (fun a b => f a = some b) (l.filter p) (l.filterMap f) := by
  induction l with
  | nil => exact .nil
  | cons a l ih =>
    rw [List.filter_cons, h, List.filterMap_cons]
    cases hf : f a with
    | none => exact ih
    | some b => exact .cons hf ih

namespace Meaning

theorem not_offset_of_fixed {meaning : Meaning} {text : String} (hm : meaning ∈ all)
    (h : meaning.label = .fixed text) : ¬"Work Offset (G".toList <+: text.toList := by
  have hall : ∀ meaning ∈ all, ∀ parts ∈ meaning.label.templates, parts.length = 1 →
      ¬"Work Offset (G".toList <+: parts.flatMap String.toList := by
    decide +kernel
  have hparts : [text] ∈ meaning.label.templates := by
    rw [h]
    exact List.mem_singleton.mpr rfl
  have hnot := hall meaning hm [text] hparts rfl
  rwa [List.flatMap_singleton] at hnot

theorem letter_of_offset {w : Word} {meaning : Meaning} (hm : ofWord? w = some meaning)
    (h : meaning.label = .offset ∨ meaning.label = .indexedOffset) : w.letter = 'G' := by
  have htable : ∀ e ∈ table, e.2.label = .offset ∨ e.2.label = .indexedOffset → e.1.1 = 'G' := by
    decide +kernel
  obtain ⟨-, hlookup | ⟨-, n, -, hletter, -⟩⟩ := ofWord?_eq_some_iff.mp hm
  · exact htable _ (mem_table_of_lookup hlookup) h
  · exact hletter

end Meaning

theorem not_offset_of_spindle (rest : String) :
    ¬"Work Offset (G".toList <+: ("Spindle On " ++ rest).toList := by
  rintro ⟨t, ht⟩
  have hhead := congrArg List.head? ht
  rw [String.toList_append] at hhead
  exact absurd (Option.some.inj hhead) (by decide)

namespace Block
variable {block : Block} {e : Entry}

theorem forall₂_entries (block : Block) :
    List.Forall₂ (fun x e => block.entryAt? x.2 x.1 = some e)
      (block.words.zipIdx.filter fun x => x.1.IsShown) block.entries := by
  refine forall₂_filterMap (fun x => ?_) block.words.zipIdx
  rw [entryAt?, Option.isSome_map, Bool.eq_iff_iff, decide_eq_true_iff, Word.isSome_ofWord?_iff]

/-- A label that begins as the labels of work offsets do shows the code of a work offset. -/
theorem exists_offset (he : e ∈ block.entries) (hl : "Work Offset (G".toList <+: e.label.toList) :
    ∃ w ∈ block.words, w.IsShown ∧ w.letter = 'G' ∧
      (e.label = "Work Offset (G" ++ w.code ++ ")" ∨
        ∃ v ∈ block.words, e.label = "Work Offset (G" ++ w.code ++ " " ++ v.text ++ ")") := by
  obtain ⟨before, w, after, meaning, hwords, hm, rfl⟩ := exists_word he
  have hshown : w.IsShown := w.isSome_ofWord?_iff.mp (Option.isSome_iff_exists.mpr ⟨_, hm⟩)
  refine ⟨w, List.mem_iff_append.mpr ⟨before, after, hwords⟩, hshown, ?_⟩
  simp only at hl ⊢
  cases hlabel : meaning.label with
  | fixed text =>
    rw [hlabel] at hl
    exact absurd hl (Meaning.not_offset_of_fixed (Meaning.mem_all_of_ofWord? hm) hlabel)
  | offset => exact ⟨Meaning.letter_of_offset hm (.inl hlabel), .inl rfl⟩
  | indexedOffset =>
    refine ⟨Meaning.letter_of_offset hm (.inr hlabel), ?_⟩
    rw [LabelRule.render]
    split
    · next index hindex => exact .inr ⟨index, mem_words_of_neighbour? hindex, rfl⟩
    · exact .inl rfl
  | spindle direction =>
    rw [hlabel, LabelRule.render] at hl
    split at hl
    · rw [String.append_assoc, String.append_assoc] at hl
      exact absurd hl (not_offset_of_spindle _)
    · exact absurd hl (not_offset_of_spindle direction)

/-- A line has one entry for each documented code and each signed work offset in it, in the order of
its words, and none for any other word. No other code is ever shown as a work offset. -/
theorem entries_shown (block : Block) :
    List.Forall₂ (fun x e => block.entryAt? x.2 x.1 = some e)
        (block.words.zipIdx.filter fun x => x.1.IsShown) block.entries ∧
      ∀ e ∈ block.entries, "Work Offset (G".toList <+: e.label.toList →
        ∃ w ∈ block.words, w.IsShown ∧ w.letter = 'G' ∧
          (e.label = "Work Offset (G" ++ w.code ++ ")" ∨
            ∃ v ∈ block.words, e.label = "Work Offset (G" ++ w.code ++ " " ++ v.text ++ ")") :=
  ⟨forall₂_entries block, fun _ => exists_offset⟩

/-- A line with five words that are shown. `N54`, `G54.` and `G-54` are not. -/
theorem entries_shown_signed_offset :
    let block := ofLine ⟨4, "N54 g0054(a) G+054 G54. G-54 M006 X-5 G54.1 P2 G+5 4"⟩
    let shown := [("G0054", "Work Offset (G54)"), ("G+054", "Work Offset (G+054)"),
      ("M006", "Tool Change"), ("G54.1", "Work Offset (G54.1 P2)"), ("G+54", "Work Offset (G+54)")]
    (block.words.zipIdx.filter fun x => x.1.IsShown).map (·.1.text) = shown.map (·.1) ∧
      block.entries.map (·.label) = shown.map (·.2) ∧
      List.Forall₂ (fun x e => block.entryAt? x.2 x.1 = some e)
        (block.words.zipIdx.filter fun x => x.1.IsShown) block.entries ∧
      ∃ e ∈ block.entries, "Work Offset (G".toList <+: e.label.toList ∧
        ∃ w ∈ block.words, w.IsShown ∧ w.letter = 'G' ∧
          (e.label = "Work Offset (G" ++ w.code ++ ")" ∨
            ∃ v ∈ block.words, e.label = "Work Offset (G" ++ w.code ++ " " ++ v.text ++ ")") := by
  intro block shown
  obtain ⟨e, he, hlabel⟩ : ∃ e ∈ block.entries, "Work Offset (G".toList <+: e.label.toList := by
    decide +kernel
  exact ⟨by decide +kernel, by decide +kernel, block.entries_shown.1,
    e, he, hlabel, block.entries_shown.2 e he hlabel⟩

/-- A work offset with a plus sign is shown, and is no documented code. -/
theorem not_forall_entries_documented : ¬∀ (index : Nat) (text : String) (cs : List Char),
    let block : Block := ⟨index, text, Word.ofChars index cs⟩
    List.Forall₂ (fun x e => block.entryAt? x.2 x.1 = some e)
      (block.words.zipIdx.filter fun x => x.1.IsDocumented) block.entries := by
  intro h
  have hlength := (h 0 "G+54" "G+54".toList).length_eq
  exact absurd hlength (by decide +kernel)

end Block

end Gcode

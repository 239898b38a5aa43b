import Gcode.Outline
import Gcode.Proofs.CanonicalName
import Gcode.Proofs.CapitalWords
import Gcode.Proofs.OutlineKinds

/-! The texts of outline entries. A label is a fixed text with gaps. What fills them comes from
words, which hold no white space. -/
namespace Gcode

def IsSolid (cs : List Char) : Prop := ∀ c ∈ cs, isBlank c = false

theorem isSolid_withoutComments (cs : List Char) : IsSolid (withoutComments cs) := by
  intro c hc
  have h := (List.mem_filter.mp hc).2
  simpa using h

namespace IsSolid
variable {cs : List Char}

theorem filter_eq_nil (h : IsSolid cs) : cs.filter isBlank = [] :=
  List.filter_eq_nil_iff.mpr fun c hc => by simp [h c hc]

theorem canonicalArgument (h : IsSolid cs) : IsSolid (canonicalArgument cs) := by
  intro c hc
  obtain ⟨rest, hsuffix, hrest | hrest⟩ := exists_suffix_canonicalArgument cs
  · exact h c (hsuffix.mem (hrest ▸ hc))
  · rw [hrest] at hc
    rcases List.mem_cons.mp hc with rfl | hc
    · decide
    · exact h c (hsuffix.mem hc)

end IsSolid

def OnlySpaces (cs : List Char) : Prop := ∀ c ∈ cs, isBlank c = true → c = ' '

instance : DecidablePred OnlySpaces := fun cs =>
  decidable_of_iff ((cs.all fun c => !isBlank c || c == ' ') = true) <| by
    simp [OnlySpaces, List.all_eq_true, imp_iff_not_or]

theorem OnlySpaces.append {s t : List Char} (hs : OnlySpaces s) (ht : OnlySpaces t) :
    OnlySpaces (s ++ t) := fun c hc =>
  (List.mem_append.mp hc).elim (hs c) (ht c)

theorem IsSolid.onlySpaces {cs : List Char} (h : IsSolid cs) : OnlySpaces cs := by
  intro c hc hb
  rw [h c hc] at hb
  cases hb

namespace Word

theorem isSolid_of_mem_ofChars {line : Nat} {cs : List Char} {w : Word} (h : IsSolid cs)
    (hw : w ∈ ofChars line cs) : IsSolid w.text.toList := by
  obtain ⟨t, -, hpart, htext⟩ := exists_of_mem_ofChars hw
  intro u hu
  rw [htext, capitals] at hu
  obtain ⟨d, hd, rfl⟩ := List.mem_map.mp hu
  rw [isBlank_toUpper]
  exact h d (hpart.mem hd)

variable {w : Word}

theorem isSolid_argument (h : IsSolid w.text.toList) : IsSolid w.argument.toList := by
  intro c hc
  refine h c ?_
  rw [text, String.toList_ofList]
  exact List.mem_cons_of_mem w.letter hc

theorem isSolid_code (h : IsSolid w.text.toList) : IsSolid w.code.toList := by
  rw [code, Code.ofArgument, String.toList_ofList]
  exact (isSolid_argument h).canonicalArgument

end Word

namespace Block

theorem isSolid_of_mem_words {line : Line} {w : Word} (h : w ∈ (ofLine line).words) :
    IsSolid w.text.toList :=
  Word.isSolid_of_mem_ofChars (isSolid_withoutComments line.text.toList) h

theorem mem_words_of_neighbour? {block : Block} {position : Nat} {offset : Int} {w : Word}
    (h : block.neighbour? position offset = some w) : w ∈ block.words := by
  rw [neighbour?] at h
  split at h
  · exact List.mem_of_getElem? h
  · cases h

end Block

inductive Fills : List String → String → Prop
  | last (part : String) : Fills [part] part
  | gap (part : String) {filling text : String} {parts : List String}
    (hf : IsSolid filling.toList) (h : Fills parts text) :
    Fills (part :: parts) (part ++ (filling ++ text))

namespace Fills
variable {parts : List String} {text : String}

/-- The white space of a text is that of its parts. -/
theorem filter_isBlank (h : Fills parts text) :
    text.toList.filter isBlank = (parts.flatMap String.toList).filter isBlank := by
  induction h with
  | last part => rw [List.flatMap_singleton]
  | gap part hf h ih =>
    rw [String.toList_append, String.toList_append, List.filter_append, List.filter_append,
      hf.filter_eq_nil, List.nil_append, ih, List.flatMap_cons, List.filter_append]

theorem onlySpaces (h : Fills parts text) (hp : OnlySpaces (parts.flatMap String.toList)) :
    OnlySpaces text.toList := by
  intro c hc hb
  have hblank : c ∈ text.toList.filter isBlank := List.mem_filter.mpr ⟨hc, hb⟩
  rw [h.filter_isBlank] at hblank
  exact hp c (List.mem_filter.mp hblank).1 hb

end Fills

namespace LabelRule

/-- The parts of the labels of a rule, with a word in the place that it looks at and without. -/
def templates : LabelRule → List (List String)
  | fixed text => [[text]]
  | offset => [["Work Offset (G", ")"]]
  | indexedOffset => [["Work Offset (G", " ", ")"], ["Work Offset (G", ")"]]
  | spindle direction => [["Spindle On ", "RPM " ++ direction], ["Spindle On " ++ direction]]

theorem fills_render (rule : LabelRule) {block : Block} (position : Nat) {w : Word}
    (hb : ∀ v ∈ block.words, IsSolid v.text.toList) (hw : w ∈ block.words) :
    ∃ parts ∈ rule.templates, Fills parts (rule.render block position w) := by
  have hcode := Word.isSolid_code (hb w hw)
  cases rule with
  | fixed text => exact ⟨_, List.mem_singleton.mpr rfl, .last text⟩
  | offset =>
    refine ⟨_, List.mem_singleton.mpr rfl, ?_⟩
    rw [render, String.append_assoc]
    exact .gap _ hcode (.last _)
  | indexedOffset =>
    rw [render]
    split
    · next index hi =>
      have hindex := hb index (Block.mem_words_of_neighbour? hi)
      refine ⟨_, List.mem_cons_self, ?_⟩
      simp only [String.append_assoc]
      exact .gap _ hcode (.gap _ hindex (.last _))
    · refine ⟨_, List.mem_cons_of_mem _ (List.mem_singleton.mpr rfl), ?_⟩
      rw [String.append_assoc]
      exact .gap _ hcode (.last _)
  | spindle direction =>
    rw [render]
    split
    · next speed hs =>
      have hspeed := Word.isSolid_argument (hb speed (Block.mem_words_of_neighbour? hs))
      refine ⟨_, List.mem_cons_self, ?_⟩
      simp only [String.append_assoc]
      exact .gap _ hspeed (.last _)
    · exact ⟨_, List.mem_cons_of_mem _ (List.mem_singleton.mpr rfl), .last _⟩

end LabelRule

namespace Meaning

def all : List Meaning := plainOffset :: table.map (·.2)

theorem mem_all_of_ofWord? {w : Word} {meaning : Meaning} (h : ofWord? w = some meaning) :
    meaning ∈ all := by
  obtain ⟨-, hlookup | ⟨-, n, -, -, -, rfl⟩⟩ := ofWord?_eq_some_iff.mp h
  · exact List.mem_cons_of_mem _ (List.mem_map.mpr ⟨_, mem_table_of_lookup hlookup, rfl⟩)
  · exact List.mem_cons_self

theorem onlySpaces_of_mem_all : ∀ meaning ∈ all, OnlySpaces meaning.tooltip.toList ∧
    ∀ parts ∈ meaning.label.templates, OnlySpaces (parts.flatMap String.toList) := by
  decide +kernel

end Meaning

/-- An entry has the fixed text of a meaning, and a label that one of its templates makes. -/
theorem exists_meaning_of_mem_outline {text : String} {e : Entry} (h : e ∈ outline text) :
    ∃ meaning ∈ Meaning.all, e.tooltip = meaning.tooltip ∧ e.kind = meaning.kind ∧
      ∃ parts ∈ meaning.label.templates, Fills parts e.label := by
  obtain ⟨block, hblock, he⟩ := List.mem_flatMap.mp h
  obtain ⟨line, -, rfl⟩ := List.mem_map.mp hblock
  obtain ⟨before, w, after, meaning, hwords, hm, rfl⟩ := Block.exists_word he
  have hw : w ∈ (Block.ofLine line).words := List.mem_iff_append.mpr ⟨before, after, hwords⟩
  exact ⟨meaning, Meaning.mem_all_of_ofWord? hm, rfl, rfl,
    meaning.label.fills_render _ (fun _ => Block.isSolid_of_mem_words) hw⟩

theorem onlySpaces_of_mem_outline {text : String} {e : Entry} (h : e ∈ outline text) :
    OnlySpaces e.label.toList ∧ OnlySpaces e.tooltip.toList := by
  obtain ⟨meaning, hm, htooltip, -, parts, hp, hfills⟩ := exists_meaning_of_mem_outline h
  obtain ⟨htooltips, hparts⟩ := Meaning.onlySpaces_of_mem_all meaning hm
  exact ⟨hfills.onlySpaces (hparts parts hp), htooltip ▸ htooltips⟩

end Gcode

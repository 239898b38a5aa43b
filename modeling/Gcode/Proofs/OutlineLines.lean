import Gcode.Proofs.NumberedLines

/-! Every entry of an outline comes from the line whose number it carries, and from nothing else. -/
namespace Gcode

theorem Block.mem_entries {block : Block} {e : Entry} (h : e ∈ block.entries) :
    e.line = block.index ∧ e.start = 0 ∧ e.stop = block.width := by
  obtain ⟨⟨w, position⟩, -, he⟩ := List.mem_filterMap.mp h
  obtain ⟨meaning, -, rfl⟩ := Option.map_eq_some_iff.mp he
  exact ⟨rfl, rfl, rfl⟩

namespace Document

def entriesAt (document : Document) (i : Nat) : List Entry :=
  (document.line? i).elim [] fun text => (Block.ofLine ⟨i, text⟩).entries

def symbolOf (document : Document) (e : Entry) : DocumentSymbol :=
  let width := (document.line? e.line).elim 0 fun text => utf16Length text.toList
  ⟨e.label, e.tooltip, e.kind.symbolNumber, ⟨⟨e.line, 0⟩, ⟨e.line, width⟩⟩⟩

variable (document : Document)

theorem entriesAt_eq (i : Nat) :
    document.entriesAt i =
      ((Line.at? document.text i).map fun line => (Block.ofLine line).entries).getD [] := by
  rw [entriesAt, line?_eq]
  cases h : Line.at? document.text i with
  | none => rfl
  | some line =>
    have hi := Line.index_of_at? h
    subst hi
    rfl

theorem line_of_mem_entriesAt {i : Nat} {e : Entry} (h : e ∈ document.entriesAt i) :
    e.line = i := by
  unfold entriesAt at h
  cases hl : document.line? i with
  | none => simp [hl] at h
  | some text =>
    rw [hl] at h
    exact (Block.mem_entries h).1

theorem outline_eq_flatMap {n : Nat} (hn : (cutLines document.text.toList).length ≤ n) :
    outline document.text = (List.range n).flatMap document.entriesAt := by
  rw [outline, Block.ofText, Line.ofText_eq_filterMap hn, List.filterMap_eq_flatMap_toList,
    List.flatMap_map, List.flatMap_assoc]
  apply List.flatMap_congr
  intro i hi
  rw [entriesAt_eq]
  cases Line.at? document.text i with
  | none => rfl
  | some line => simp

/-- Entries of other lines carry other numbers. -/
theorem filter_flatMap_entriesAt (n i : Nat) :
    ((List.range n).flatMap document.entriesAt).filter (·.line = i) =
      if i < n then document.entriesAt i else [] := by
  induction n with
  | zero => rfl
  | succ n ih =>
    rw [List.range_succ, List.flatMap_append, List.filter_append, ih, List.flatMap_singleton]
    by_cases hi : n = i
    · subst hi
      have hall : ∀ e ∈ document.entriesAt n, decide (e.line = n) = true := fun e he =>
        decide_eq_true (document.line_of_mem_entriesAt he)
      rw [if_neg (Nat.lt_irrefl n), if_pos (Nat.lt_succ_self n), List.filter_eq_self.mpr hall,
        List.nil_append]
    · have hnone : ∀ e ∈ document.entriesAt n, ¬decide (e.line = i) = true := fun e he => by
        rw [document.line_of_mem_entriesAt he]
        simpa using hi
      rw [List.filter_eq_nil_iff.mpr hnone, List.append_nil]
      have hlt : i < n ↔ i < n + 1 := by omega
      simp only [hlt]

theorem filter_outline (i : Nat) :
    (outline document.text).filter (·.line = i) = document.entriesAt i := by
  have hn : (cutLines document.text.toList).length ≤
      (cutLines document.text.toList).length + i + 1 := by omega
  rw [document.outline_eq_flatMap hn, filter_flatMap_entriesAt, if_pos (by omega)]

theorem pairwise_outline : (outline document.text).Pairwise (·.line ≤ ·.line) := by
  rw [document.outline_eq_flatMap (Nat.le_refl _), List.pairwise_flatMap]
  constructor
  · intro i _
    apply List.pairwise_of_forall_mem_list
    intro e he e' he'
    exact Nat.le_of_eq
      ((document.line_of_mem_entriesAt he).trans (document.line_of_mem_entriesAt he').symm)
  · apply List.pairwise_lt_range.imp
    intro i j hij e he e' he'
    rw [document.line_of_mem_entriesAt he, document.line_of_mem_entriesAt he']
    exact Nat.le_of_lt hij

theorem symbols_eq_map :
    DocumentSymbol.ofText document.text = (outline document.text).map document.symbolOf := by
  rw [DocumentSymbol.ofText, outline, List.map_flatMap]
  apply List.flatMap_congr
  intro block hb
  obtain ⟨line, hl, rfl⟩ := List.mem_map.mp hb
  apply List.map_congr_left
  intro e he
  have hline : document.line? e.line = some line.text := by
    rw [(Block.mem_entries he).1, line?_eq]
    show (Line.at? document.text line.index).map (·.text) = _
    rw [Line.mem_ofText.mp hl]
    rfl
  rw [symbolOf, hline]
  rfl

/-- The outline of a text falls into the entries of its lines, in the order of the lines. Those
with a number are what the line of that number makes on its own: none if the line is missing or
blank, and else entries that cover the whole of it. The symbols of an editor are the same entries
with columns in UTF-16. -/
theorem outline_by_line :
    (∀ i, document.line? i =
      ((cutLines document.text.toList)[i]?.filter (!·.all isBlank)).map String.ofList) ∧
    (∀ i, (outline document.text).filter (·.line = i) = document.entriesAt i) ∧
    (∀ i text, document.line? i = some text →
      ∀ e ∈ document.entriesAt i, e.line = i ∧ e.start = 0 ∧ e.stop = text.toList.length) ∧
    (∀ n, (cutLines document.text.toList).length ≤ n →
      outline document.text = (List.range n).flatMap document.entriesAt) ∧
    (outline document.text).Pairwise (·.line ≤ ·.line) ∧
    DocumentSymbol.ofText document.text = (outline document.text).map document.symbolOf := by
  refine ⟨document.line?_eq_getElem?, document.filter_outline, ?_,
    fun n => document.outline_eq_flatMap, document.pairwise_outline, document.symbols_eq_map⟩
  intro i text hl e he
  rw [entriesAt, hl] at he
  exact Block.mem_entries he

end Document
end Gcode

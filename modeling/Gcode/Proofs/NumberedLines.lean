import Gcode.Proofs.LineCutting
import Gcode.Workspace
import Mathlib.Data.List.Basic

/-! Lines by their numbers. The lines of a text that are not blank keep the numbers that they have
among all of its physical lines. -/
namespace Gcode
namespace Line

def at? (text : String) (i : Nat) : Option Line :=
  ((cutLines text.toList)[i]?.map fun l => ⟨i, String.ofList l⟩).filter (!·.isBlank)

theorem number_take (ls : List (List Char)) (n : Nat) :
    number 0 (ls.take n) =
      (List.range n).filterMap fun i => ls[i]?.map fun l => ⟨i, String.ofList l⟩ := by
  induction n with
  | zero => rfl
  | succ n ih =>
    rw [List.take_add_one, number_append, ih, List.range_succ, List.filterMap_append]
    cases h : ls[n]? with
    | none => simp [h, number]
    | some l =>
      have hn := (List.getElem?_eq_some_iff.mp h).1
      have hlen : (ls.take n).length = n := List.length_take_of_le (Nat.le_of_lt hn)
      simp [h, number, hlen]

theorem ofText_eq_filterMap {text : String} {n : Nat}
    (hn : (cutLines text.toList).length ≤ n) :
    ofText text = (List.range n).filterMap (at? text) := by
  rw [ofText, all, ← List.take_of_length_le hn, number_take, List.filter_filterMap]
  rfl

theorem index_of_at? {text : String} {i : Nat} {line : Line} (h : at? text i = some line) :
    line.index = i := by
  obtain ⟨h, -⟩ := Option.filter_eq_some_iff.mp h
  obtain ⟨l, -, rfl⟩ := Option.map_eq_some_iff.mp h
  rfl

theorem mem_ofText {text : String} {line : Line} :
    line ∈ ofText text ↔ at? text line.index = some line := by
  have hn : (cutLines text.toList).length ≤ (cutLines text.toList).length + line.index + 1 := by
    omega
  rw [ofText_eq_filterMap hn, List.mem_filterMap]
  constructor
  · rintro ⟨i, -, h⟩
    rw [index_of_at? h]
    exact h
  · intro h
    exact ⟨line.index, List.mem_range.mpr (by omega), h⟩

/-- Numbers tell lines apart, so the first line with a number is the only one. -/
theorem find?_ofText (text : String) (i : Nat) :
    (ofText text).find? (·.index = i) = at? text i := by
  cases hf : (ofText text).find? (·.index = i) with
  | some line =>
    have hi : line.index = i := by simpa using List.find?_some hf
    rw [← hi, mem_ofText.mp (List.mem_of_find?_eq_some hf)]
  | none =>
    cases ha : at? text i with
    | none => rfl
    | some line =>
      have hi := index_of_at? ha
      have hm : line ∈ ofText text := mem_ofText.mpr (hi ▸ ha)
      exact absurd (decide_eq_true hi) (List.find?_eq_none.mp hf line hm)

end Line

theorem Document.line?_eq (document : Document) (i : Nat) :
    document.line? i = (Line.at? document.text i).map (·.text) := by
  rw [line?, Line.find?_ofText]

/-- Lines are looked up among the physical lines, blank ones counted. -/
theorem Document.line?_eq_getElem? (document : Document) (i : Nat) :
    document.line? i =
      ((cutLines document.text.toList)[i]?.filter (!·.all isBlank)).map String.ofList := by
  have hb : (fun line : Line => !line.isBlank) ∘ (fun l => ⟨i, String.ofList l⟩) =
      fun l => !l.all isBlank := by
    funext l
    rw [Function.comp_apply, Line.isBlank, String.toList_ofList]
  rw [line?_eq, Line.at?, Option.filter_map, hb, Option.map_map]
  rfl

end Gcode

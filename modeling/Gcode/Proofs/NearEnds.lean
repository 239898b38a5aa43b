import Gcode.Reference.Modeline
import Mathlib.Data.List.Basic

/-! The lines near the two ends of a text. They come in the order of their numbers, each of them
once, and what stands between the ends does not matter. -/
namespace Gcode.Modeline

/-- Lines count only by the names that they give. -/
theorem filterMap_window_congr {f : List Char → Option String} {lines lines' : List (List Char)}
    (h : lines.map f = lines'.map f) :
    (window lines).filterMap f = (window lines').filterMap f := by
  have hwindow (ls : List (List Char)) : (window ls).filterMap f =
      ((ls.map f).take 5 ++ (ls.map f).drop (max ((ls.map f).length - 5) 5)).filterMap id := by
    rw [window, List.length_map, ← List.map_take, ← List.map_drop, ← List.map_append,
      List.filterMap_map, Function.id_comp]
  rw [hwindow, hwindow, h]

theorem window_of_length_le {lines : List (List Char)} (h : lines.length ≤ 10) :
    window lines = lines := by
  have hmax : max (lines.length - 5) 5 = 5 := by omega
  rw [window, hmax, List.take_append_drop]

/-- What stands between the first five lines and the last five is not looked at. -/
theorem window_middle {top bottom : List (List Char)} (middle : List (List Char))
    (ht : 5 ≤ top.length) (hb : 5 ≤ bottom.length) :
    window (top ++ middle ++ bottom) = top.take 5 ++ bottom.drop (bottom.length - 5) := by
  have hmax : max ((top ++ middle ++ bottom).length - 5) 5 =
      (top ++ middle).length + (bottom.length - 5) := by
    simp only [List.length_append]
    omega
  rw [window, hmax, List.drop_length_add_append, List.append_assoc,
    List.take_append_of_le_length ht]

def numberedWindow (lines : List (List Char)) : List (List Char × Nat) :=
  lines.zipIdx.take 5 ++ lines.zipIdx.drop (max (lines.length - 5) 5)

theorem map_fst_numberedWindow (lines : List (List Char)) :
    (numberedWindow lines).map Prod.fst = window lines := by
  rw [numberedWindow, List.map_append, List.map_take, List.map_drop, List.zipIdx_map_fst, window]

theorem mem_numberedWindow {lines : List (List Char)} {l : List Char} {i : Nat} :
    (l, i) ∈ numberedWindow lines ↔
      lines[i]? = some l ∧ (i < 5 ∨ lines.length ≤ i + 5) := by
  have hplace (j : Nat) : lines.zipIdx[j]? = some (l, i) ↔ j = i ∧ lines[j]? = some l := by
    rw [List.getElem?_zipIdx, Nat.zero_add]
    cases lines[j]? <;> simp [and_comm]
  rw [numberedWindow, List.mem_append, List.mem_iff_getElem?, List.mem_iff_getElem?]
  simp only [List.getElem?_take, List.getElem?_drop]
  constructor
  · rintro (⟨j, hj⟩ | ⟨j, hj⟩)
    · split at hj
      · obtain ⟨rfl, hl⟩ := (hplace j).mp hj
        exact ⟨hl, .inl ‹_›⟩
      · cases hj
    · obtain ⟨rfl, hl⟩ := (hplace _).mp hj
      exact ⟨hl, .inr (by omega)⟩
  · rintro ⟨hl, hnear⟩
    by_cases hi : i < 5
    · refine .inl ⟨i, ?_⟩
      rw [if_pos hi]
      exact (hplace i).mpr ⟨rfl, hl⟩
    · refine .inr ⟨i - max (lines.length - 5) 5, (hplace _).mpr ?_⟩
      have hsum : max (lines.length - 5) 5 + (i - max (lines.length - 5) 5) = i := by omega
      exact ⟨hsum, hsum.symm ▸ hl⟩

/-- No line comes twice, and none comes before one above it. -/
theorem pairwise_numberedWindow (lines : List (List Char)) :
    (numberedWindow lines).Pairwise (·.2 < ·.2) := by
  have hall : lines.zipIdx.Pairwise (·.2 < ·.2) := by
    rw [← List.pairwise_map (f := Prod.snd), List.zipIdx_map_snd]
    exact List.pairwise_lt_range'
  have hsub : (numberedWindow lines).Sublist (lines.zipIdx.take 5 ++ lines.zipIdx.drop 5) :=
    (List.Sublist.refl _).append (List.drop_sublist_drop_left _ (Nat.le_max_right _ 5))
  rw [List.take_append_drop] at hsub
  exact hall.sublist hsub

/-- The lines near an end of a text are known by their numbers. -/
theorem exists_of_mem_window {lines : List (List Char)} {l : List Char} (h : l ∈ window lines) :
    ∃ i, lines[i]? = some l ∧ (i < 5 ∨ lines.length ≤ i + 5) := by
  rw [← map_fst_numberedWindow] at h
  obtain ⟨⟨l, i⟩, hi, rfl⟩ := List.mem_map.mp h
  exact ⟨i, mem_numberedWindow.mp hi⟩

/-- In a list in the order of its numbers the first success is the one with the smallest number. -/
theorem findSome?_eq_some_iff_of_pairwise {α β : Type} {l : List (α × Nat)}
    {g : α × Nat → Option β} {b : β} (h : l.Pairwise (·.2 < ·.2)) :
    l.findSome? g = some b ↔
      ∃ a ∈ l, g a = some b ∧ ∀ c ∈ l, c.2 < a.2 → g c = none := by
  rw [List.findSome?_eq_some_iff]
  constructor
  · rintro ⟨front, a, behind, rfl, ha, hfront⟩
    refine ⟨a, by simp, ha, fun c hc hlt => ?_⟩
    have hbehind := (List.pairwise_cons.mp (List.pairwise_append.mp h).2.1).1
    obtain hc | hc := List.mem_append.mp hc
    · exact hfront c hc
    · obtain rfl | hc := List.mem_cons.mp hc
      · exact absurd hlt (Nat.lt_irrefl _)
      · exact absurd (hbehind c hc) (Nat.lt_asymm hlt)
  · rintro ⟨a, ha, hg, hbefore⟩
    obtain ⟨front, behind, rfl⟩ := List.append_of_mem ha
    refine ⟨front, a, behind, rfl, hg, fun c hc => hbefore c (by simp [hc]) ?_⟩
    exact (List.pairwise_append.mp h).2.2 c hc a List.mem_cons_self

end Gcode.Modeline

import Gcode.Proofs.LineEndings
import Gcode.Proofs.NearEnds

/-! The lines in which modelines stand. They are the physical lines of a text, except that a
carriage return without a line feed after it ends no line and counts as a blank. -/
namespace Gcode

def blankReturn (c : Char) : Char := if c = '\r' then ' ' else c

/-- A text with a blank in place of every carriage return that no line feed follows. -/
def blankReturns : List Char → List Char
  | [] => []
  | '\r' :: '\n' :: cs => '\r' :: '\n' :: blankReturns cs
  | c :: cs => blankReturn c :: blankReturns cs

def ReturnsPaired (cs : List Char) : Prop :=
  ∀ i < cs.length, cs[i]? = some '\r' → cs[i + 1]? = some '\n'

instance : DecidablePred ReturnsPaired := fun cs =>
  inferInstanceAs (Decidable (∀ i < cs.length, cs[i]? = some '\r' → cs[i + 1]? = some '\n'))

theorem ReturnsPaired.tail {c : Char} {cs : List Char} (h : ReturnsPaired (c :: cs)) :
    ReturnsPaired cs := fun i hi => h (i + 1) (Nat.succ_lt_succ hi)

theorem ReturnsPaired.head? {cs : List Char} (h : ReturnsPaired ('\r' :: cs)) :
    cs.head? = some '\n' := by
  rw [List.head?_eq_getElem?]
  exact h 0 (Nat.zero_lt_succ _) rfl

theorem blankReturns_of_paired {cs : List Char} (h : ReturnsPaired cs) :
    blankReturns cs = cs := by
  fun_induction blankReturns cs with
  | case1 => rfl
  | case2 cs ih => rw [ih h.tail.tail]
  | case3 c cs hr ih =>
    have hc : c ≠ '\r' := by
      rintro rfl
      obtain ⟨ds, rfl⟩ := List.head?_eq_some_iff.mp h.head?
      exact hr ds rfl rfl
    rw [blankReturn, if_neg hc, ih h.tail]

theorem isBreak_blankReturn {c : Char} (hc : c ≠ '\n') : ¬IsBreak (blankReturn c) := by
  unfold blankReturn
  split
  · decide
  · rename_i hr
    exact fun h => h.elim hc hr

namespace Modeline

/-- The lines of modelines are the physical lines of the text with blanks for bare returns. -/
theorem cutLines_blankReturns (cs : List Char) :
    cutLines (blankReturns cs) = (cutAtFeeds cs).map fun l => l.map blankReturn := by
  fun_induction cutAtFeeds cs with
  | case1 => rfl
  | case2 cs ih =>
    rw [blankReturns.eq_3 '\n' cs fun _ e => absurd e (by decide), blankReturn,
      if_neg (by decide), cutLines_break (.inl rfl) fun e => absurd e (by decide), ih]
    rfl
  | case3 cs ih =>
    rw [blankReturns, cutLines, ih]
    rfl
  | case4 c cs hf hr he ih =>
    rw [blankReturns.eq_3 c cs fun ds e h => hr ds e h,
      cutLines_cons _ (isBreak_blankReturn hf), ih, he]
    rfl
  | case5 c cs hf hr l ls he ih =>
    rw [blankReturns.eq_3 c cs fun ds e h => hr ds e h,
      cutLines_cons _ (isBreak_blankReturn hf), ih, he]
    rfl

theorem isBlank_blankReturn (c : Char) : isBlank (blankReturn c) = isBlank c := by
  unfold blankReturn
  split
  · rename_i hc
    subst hc
    rfl
  · rfl

theorem blankReturn_eq_iff {c d : Char} (hd : isBlank d = false) : blankReturn c = d ↔ c = d := by
  unfold blankReturn
  split
  · rename_i hc
    subst hc
    have hblank : isBlank ' ' = true := rfl
    have hreturn : isBlank '\r' = true := rfl
    exact ⟨fun e => absurd (e ▸ hblank) (by simp [hd]),
      fun e => absurd (e ▸ hreturn) (by simp [hd])⟩
  · rfl

theorem map_blankReturn_eq_iff {s t : List Char} (ht : ∀ d ∈ t, isBlank d = false) :
    s.map blankReturn = t ↔ s = t := by
  induction t generalizing s with
  | nil => exact List.map_eq_nil_iff
  | cons d t ih =>
    cases s with
    | nil => simp
    | cons c s =>
      rw [List.map_cons, List.cons.injEq, List.cons.injEq,
        blankReturn_eq_iff (ht d List.mem_cons_self),
        ih fun e he => ht e (List.mem_cons_of_mem d he)]

theorem takeWhile_map_blankReturn (cs : List Char) :
    (cs.map blankReturn).takeWhile isNameChar = cs.takeWhile isNameChar := by
  induction cs with
  | nil => rfl
  | cons c cs ih =>
    rw [List.map_cons, List.takeWhile_cons, List.takeWhile_cons, ih]
    unfold blankReturn
    split
    · rename_i hc
      subst hc
      rfl
    · rfl

theorem leading_map_blankReturn (cs : List Char) :
    leading isNameChar (cs.map blankReturn) = leading isNameChar cs := by
  rw [leading, takeWhile_map_blankReturn, leading]

theorem take_leading_map_blankReturn (cs : List Char) :
    (cs.map blankReturn).take (leading isNameChar cs) = cs.take (leading isNameChar cs) := by
  have htake (r : List Char) : r.take (leading isNameChar r) = r.takeWhile isNameChar :=
    (List.prefix_iff_eq_take.mp (List.takeWhile_prefix isNameChar)).symm
  rw [htake, ← leading_map_blankReturn, htake, takeWhile_map_blankReturn]

/-- Between the parts of a modeline any white space may stand, and none within them. -/
theorem modeline?_map_blankReturn (cs : List Char) :
    modeline? (cs.map blankReturn) = modeline? cs := by
  have hkeyword : ∀ d ∈ keyword, isBlank d = false := by
    have h : (keyword.all fun d => isBlank d == false) = true := by decide +kernel
    exact fun d hd => beq_iff_eq.mp (List.all_eq_true.mp h d hd)
  simp only [modeline?, ← List.map_take, map_blankReturn_eq_iff hkeyword, ← List.map_drop,
    dropWhile_map_of_class isBlank_blankReturn]
  split
  · cases (cs.drop keyword.length).dropWhile isBlank with
    | nil => rfl
    | cons c rest =>
      rw [List.map_cons]
      by_cases hc : c = '='
      · subst hc
        have hequals : blankReturn '=' = '=' := rfl
        simp only [hequals, dropWhile_map_of_class isBlank_blankReturn, List.length_map]
        rw [leading_map_blankReturn]
        split
        · rfl
        · rename_i n hn
          have hn : leading isNameChar (rest.dropWhile isBlank) = n + 1 := hn
          rw [← hn, take_leading_map_blankReturn]
      · have hc' : blankReturn c ≠ '=' := fun e => hc ((blankReturn_eq_iff rfl).mp e)
        simp [hc, hc']
  · rfl

/-- Modelines are read off the physical lines of the text with blanks for bare returns. -/
theorem names_eq (text : String) :
    names text =
      (window (cutLines (blankReturns text.toList))).filterMap modeline?.first? := by
  apply filterMap_window_congr
  rw [cutLines_blankReturns, List.map_map]
  exact List.map_congr_left fun l _ => (Pattern.first?_map modeline?_map_blankReturn l).symm

end Modeline

/-- Feeds in place of all line endings leave no carriage return. -/
theorem notMem_withEndings_feed (cs : List Char) : '\r' ∉ withEndings .feed cs := by
  fun_induction withEndings .feed cs with
  | case1 => simp
  | case2 cs ih => simpa [LineEnding.chars] using ih
  | case3 c cs hr hb ih => simpa [LineEnding.chars] using ih
  | case4 c cs hr hb ih =>
    rw [List.mem_cons, not_or]
    exact ⟨fun e => hb (.inr e.symm), ih⟩

theorem returnsPaired_of_notMem {cs : List Char} (h : '\r' ∉ cs) : ReturnsPaired cs :=
  fun _ _ hi => absurd (List.mem_of_getElem? hi) h

namespace Registry
variable (registry : Registry)

/-- The reference that a text with blanks for bare returns chooses, with feeds for line endings. -/
theorem chosenBy_eq (text : String) :
    registry.chosenBy text =
      registry.chosenBy (String.ofList (withEndings .feed (blankReturns text.toList))) := by
  have hpaired := returnsPaired_of_notMem (notMem_withEndings_feed (blankReturns text.toList))
  rw [chosenBy, chosenBy, Modeline.names_eq, Modeline.names_eq, String.toList_ofList,
    blankReturns_of_paired hpaired, LineEnding.cutLines_withEndings]

theorem exists_of_chosenBy {text name : String} (h : registry.chosenBy text = some name) :
    ∃ i line, (cutLines (blankReturns text.toList))[i]? = some line ∧
      Modeline.modeline?.first? line = some name ∧
      (i < 5 ∨ (cutLines (blankReturns text.toList)).length ≤ i + 5) := by
  rw [chosenBy, Modeline.names_eq] at h
  obtain ⟨line, hl, hname⟩ := List.mem_filterMap.mp (List.mem_of_find?_eq_some h)
  obtain ⟨i, hi, hwindow⟩ := Modeline.exists_of_mem_window hl
  exact ⟨i, line, hi, hname, hwindow⟩

/-- A text is searched for modelines in the first five and the last five of its physical lines,
whatever ends them, once blanks stand for the carriage returns that no line feed follows. A text
without such carriage returns is searched as it is. -/
theorem chosenBy_near_ends (text : String) :
    let read := blankReturns text.toList
    registry.chosenBy text = registry.chosenBy (String.ofList (withEndings .feed read)) ∧
      (∀ name, registry.chosenBy text = some name →
        ∃ i line, (cutLines read)[i]? = some line ∧
          Modeline.modeline?.first? line = some name ∧
          (i < 5 ∨ (cutLines read).length ≤ i + 5)) ∧
      (ReturnsPaired text.toList → read = text.toList) :=
  ⟨registry.chosenBy_eq text, fun _ h => registry.exists_of_chosenBy h, blankReturns_of_paired⟩

/-- Among twelve lines with two kinds of ends, a modeline in the middle does not count. -/
theorem chosenBy_near_ends_two_endings :
    let registry := (add {} ⟨"mill", none, none, []⟩).add ⟨"lathe", none, none, []⟩
    let text := "1\n2\r\n3\r\n4\n5\r\n;gcode_reference=mill\r\n\n8\r\n9\n10\n11\r\n" ++
      "(gcode_reference = lathe)\r\n"
    (ReturnsPaired text.toList ∧ registry.chosenBy text = some "lathe") ∧
      registry.chosenBy (String.ofList (withEndings .feed text.toList)) = some "lathe" ∧
      ∃ i line, (cutLines text.toList)[i]? = some line ∧
        Modeline.modeline?.first? line = some "lathe" ∧
        (i < 5 ∨ (cutLines text.toList).length ≤ i + 5) := by
  intro registry text
  have hpaired : ReturnsPaired text.toList := by decide +kernel
  have hchosen : registry.chosenBy text = some "lathe" := by decide +kernel
  obtain ⟨hfeeds, hwindow, hread⟩ := registry.chosenBy_near_ends text
  rw [hread hpaired] at hfeeds hwindow
  exact ⟨⟨hpaired, hchosen⟩, hfeeds ▸ hchosen, hwindow "lathe" hchosen⟩

/-- With bare carriage returns for line endings the whole text is one line, so a modeline in its
middle chooses. With feeds it does not. -/
theorem not_forall_chosenBy_withEndings :
    ¬∀ (registry : Registry) (text : String),
      registry.chosenBy text =
        registry.chosenBy (String.ofList (withEndings .feed text.toList)) := by
  intro h
  let registry := add {} ⟨"lathe", none, none, []⟩
  let text := "1\r2\r3\r4\r5\r;gcode_reference=lathe\r7\r8\r9\r10\r11"
  have hreturns : registry.chosenBy text = some "lathe" := by decide +kernel
  have hfeeds : registry.chosenBy (String.ofList (withEndings .feed text.toList)) = none := by
    decide +kernel
  exact absurd (hreturns.symm.trans ((h registry text).trans hfeeds)) (by decide)

end Registry
end Gcode

import Gcode.Proofs.CanonicalCode
import Gcode.Proofs.JoinedPrograms
import Gcode.Proofs.LetterCase
import Gcode.Proofs.LineScans
import Gcode.Proofs.OutlineKinds

/-! Tool changes in the outline and in the bare text. The scan of the bare text finds every tool
change that is written in one piece and with at most one zero. -/
namespace Gcode.ToolChange

theorem foldCase_letter {c d : Char} (hc : c.toUpper = d) (hd : d.isUpper = true) :
    foldCase c = d := by
  rw [foldCase_of_isUpper (hc ▸ hd), hc]

/-- A tool change begins with its only letter, so two of them never overlap. -/
theorem pattern_inside {cs : List Char} {x : Unit × Nat} (h : pattern cs = some x) :
    ∀ i, 0 < i → i < x.2 → pattern (cs.drop i) = none := by
  intro i hi hx
  unfold pattern at h
  split at h
  · split at h <;> cases h
    obtain rfl : i = 1 := by omega
    exact pattern_of_first _ (by decide)
  · split at h <;> cases h
    obtain rfl | rfl : i = 1 ∨ i = 2 := by omega
    · exact pattern_of_first _ (by decide)
    · exact pattern_of_first _ (by decide)
  · cases h

theorem count_eq_places (text : String) : count text = pattern.places text.toList := by
  rw [count, Pattern.finds, Pattern.length_findsFrom (fun _ _ => pattern_inside), List.drop_zero]

theorem staysInLines : pattern.StaysInLines where
  at_break c cs hc := by
    rcases hc with rfl | rfl
    · exact pattern_of_first cs (by decide)
    · exact pattern_of_first cs (by decide)
  before_break s r hs hr := by
    apply pattern_append hs
    intro c hc
    rcases hr c hc with rfl | rfl <;> decide

/-- Tool changes stand within lines. -/
theorem places_cutLines (cs : List Char) :
    pattern.places cs = ((cutLines cs).map pattern.places).sum := by
  have hlines : pattern.places = fun l => (pattern.hits l).length :=
    funext pattern.places_eq_length_hits
  simp only [hlines, staysInLines.hits_cutLines cs, List.length_flatMap]

def IsToolChange (f : Find WordKind) : Bool := (Word.ofFind? 0 f).any (·.is 'M' "6")

def ofLine (line : List Char) : List (Find WordKind) :=
  (WordKind.any?.finds (withoutComments line)).filter IsToolChange

/-- Whether a find stands in a line in one piece. The line falls into the find and the text around
it, and removal of comments leaves the find between what it leaves of the two other parts. -/
def StandsIn (line : List Char) (f : Find WordKind) : Prop :=
  ∃ i < line.length, (withoutComments (line.take i)).length = f.start ∧
    f.text <+: line.drop i ∧
    withoutComments line = withoutComments (line.take i) ++ f.text ++
      withoutComments (line.drop (i + f.text.length))

instance (line : List Char) (f : Find WordKind) : Decidable (StandsIn line f) :=
  inferInstanceAs (Decidable (∃ i < line.length, _))

def IsWritten (line : List Char) (f : Find WordKind) : Prop :=
  StandsIn line f ∧ f.text.length ≤ 3

instance (line : List Char) : DecidablePred (IsWritten line) := fun f =>
  inferInstanceAs (Decidable (StandsIn line f ∧ f.text.length ≤ 3))

def written (text : String) : Nat :=
  ((Line.ofText text).map fun line =>
    (ofLine line.text.toList).countP (IsWritten line.text.toList ·)).sum

def hidden (text : String) : Nat :=
  ((Line.ofText text).map fun line =>
    (ofLine line.text.toList).countP (¬IsWritten line.text.toList ·)).sum

/-- With at most one zero there are two ways to write a tool change in a case. -/
theorem text_of_isToolChange {f : Find WordKind} (h : IsToolChange f = true)
    (hlen : f.text.length ≤ 3) :
    ∃ c, foldCase c = 'M' ∧ (f.text = [c, '6'] ∨ f.text = [c, '0', '6']) := by
  obtain ⟨w, hw, his⟩ := (Option.any_eq_true _ _).mp h
  obtain ⟨c, t, ht, rfl⟩ := Word.exists_of_ofFind? hw
  simp only [Word.is, Bool.and_eq_true, decide_eq_true_eq] at his
  obtain ⟨⟨-, hc⟩, hcode⟩ := his
  rw [Word.code, Code.ofArgument_eq_iff (by decide) (by decide) (by decide),
    String.toList_ofList] at hcode
  refine ⟨c, foldCase_letter hc (by decide), ?_⟩
  have hupper := eq_zeros_append (t.map Char.toUpper)
  rw [hcode] at hupper
  have hlength := congrArg List.length hupper
  rw [List.length_map, List.length_append, List.length_replicate] at hlength
  rw [ht, List.length_cons, hlength] at hlen
  have hzeros : leading (· == '0') (t.map Char.toUpper) = 0 ∨
      leading (· == '0') (t.map Char.toUpper) = 1 := by
    have hone : ("6".toList).length = 1 := rfl
    omega
  rcases hzeros with h0 | h1
  · rw [h0] at hupper
    rw [ht, eq_of_map_toUpper_eq hupper (by simp [Char.isUpper])]
    exact .inl rfl
  · rw [h1] at hupper
    rw [ht, eq_of_map_toUpper_eq hupper (by simp [Char.isUpper])]
    exact .inr rfl

theorem pattern_of_isWritten {line : List Char} {f : Find WordKind} (h : IsToolChange f = true)
    (hw : IsWritten line f) : ∃ i < line.length,
      (withoutComments (line.take i)).length = f.start ∧ (pattern (line.drop i)).isSome = true := by
  obtain ⟨⟨i, hi, hstart, ⟨rest, hrest⟩, -⟩, hlen⟩ := hw
  obtain ⟨c, hc, ht | ht⟩ := text_of_isToolChange h hlen
  · refine ⟨i, hi, hstart, ?_⟩
    rw [← hrest, ht, List.cons_append, List.cons_append, pattern, if_pos hc]
    rfl
  · refine ⟨i, hi, hstart, ?_⟩
    rw [← hrest, ht, List.cons_append, List.cons_append, List.cons_append, pattern, if_pos hc]
    rfl

/-- The tool changes of a line that are written in one piece stand at different places of it, and
the scan matches at each. -/
theorem countP_isWritten_le (line : List Char) :
    (ofLine line).countP (IsWritten line ·) ≤ pattern.places line := by
  have hpairwise : ((ofLine line).filter (IsWritten line ·)).Pairwise (·.start < ·.start) :=
    ((Pattern.pairwise_start _ _ _ _).filter _).filter _
  have hnodup : (((ofLine line).filter (IsWritten line ·)).map (·.start)).Nodup :=
    List.pairwise_map.mpr (hpairwise.imp Nat.ne_of_lt)
  have hsubset : ((ofLine line).filter (IsWritten line ·)).map (·.start) ⊆
      ((List.range line.length).filter fun i => (pattern (line.drop i)).isSome).map
        fun i => (withoutComments (line.take i)).length := by
    intro k hk
    obtain ⟨f, hf, rfl⟩ := List.mem_map.mp hk
    obtain ⟨hf, hwritten⟩ := List.mem_filter.mp hf
    obtain ⟨i, hi, hstart, hmatch⟩ :=
      pattern_of_isWritten (List.mem_filter.mp hf).2 (of_decide_eq_true hwritten)
    exact List.mem_map.mpr ⟨i, List.mem_filter.mpr ⟨List.mem_range.mpr hi, hmatch⟩, hstart⟩
  have hlength := (List.subperm_of_subset hnodup hsubset).length_le
  rwa [List.length_map, List.length_map, ← List.countP_eq_length_filter,
    ← List.countP_eq_length_filter, ← Pattern.places_eq_countP] at hlength

theorem map_number {β : Type} (g : List Char → β) (index : Nat) (ls : List (List Char)) :
    (Line.number index ls).map (fun line => g line.text.toList) = ls.map g := by
  induction ls generalizing index with
  | nil => rfl
  | cons l ls ih => rw [Line.number, List.map_cons, ih, String.toList_ofList, List.map_cons]

theorem written_le_count (text : String) : written text ≤ count text := by
  have hsub : ((Line.ofText text).map fun line => pattern.places line.text.toList).Sublist
      ((Line.all text).map fun line => pattern.places line.text.toList) :=
    List.filter_sublist.map _
  calc written text
      ≤ ((Line.ofText text).map fun line => pattern.places line.text.toList).sum :=
        List.sum_le_sum fun line _ => countP_isWritten_le line.text.toList
    _ ≤ ((Line.all text).map fun line => pattern.places line.text.toList).sum :=
        hsub.sum_le_sum fun _ _ => Nat.zero_le _
    _ = count text := by
        rw [Line.all, map_number, ← places_cutLines, ← count_eq_places]

theorem isToolChange_eq (line : Nat) (f : Find WordKind) :
    ((Word.ofFind? line f).map (·.is 'M' "6")).getD false = IsToolChange f := by
  unfold IsToolChange Word.ofFind?
  split <;> rfl

/-- The entries of a line that are tool changes are its tool changes. -/
theorem countP_entries (line : Line) :
    (Block.ofLine line).entries.countP (·.kind = .toolChange) =
      (ofLine line.text.toList).length := by
  have hkind (w : Word) : decide (w.entryKind? = some .toolChange) = w.is 'M' "6" := by
    rw [Bool.eq_iff_iff, decide_eq_true_eq]
    exact w.entryKind?_eq_some_iff .toolChange 'M' "6" (by decide) (by decide)
  have hentries : (Block.ofLine line).entries.countP (·.kind = .toolChange) =
      ((Block.ofLine line).entries.map (·.kind)).countP (· = .toolChange) := by
    rw [List.countP_map]
    rfl
  have hwords (w : Word) :
      (w.entryKind?.map fun k => decide (k = .toolChange)).getD false = w.is 'M' "6" := by
    rw [← hkind]
    cases w.entryKind? <;> simp
  rw [hentries, Block.kinds_entries, List.countP_filterMap]
  simp only [hwords]
  rw [Block.ofLine, Word.ofChars, List.countP_filterMap]
  simp only [isToolChange_eq]
  rw [ofLine, List.countP_eq_length_filter]

theorem countP_outline (text : String) :
    (outline text).countP (·.kind = .toolChange) = written text + hidden text := by
  have hline (line : Line) : (Block.ofLine line).entries.countP (·.kind = .toolChange) =
      (ofLine line.text.toList).countP (IsWritten line.text.toList ·) +
        (ofLine line.text.toList).countP (¬IsWritten line.text.toList ·) := by
    rw [countP_entries, List.length_eq_countP_add_countP (IsWritten line.text.toList ·)]
    simp
  rw [outline, List.countP_flatMap, Block.ofText, List.map_map, written, hidden,
    ← List.sum_map_add]
  refine congrArg List.sum (List.map_congr_left fun line _ => ?_)
  rw [Function.comp_apply, Function.comp_apply, hline]

/-- No tool change that the outline shows is missing from the count in the bare text, if it is
written as `M6` or `M06`. -/
theorem toolChanges_counted (text : String) :
    (outline text).countP (·.kind = .toolChange) = written text + hidden text ∧
      written text ≤ count text :=
  ⟨countP_outline text, written_le_count text⟩

/-- A space or a comment within a tool change hides it from the scan, and so does a second zero. -/
theorem exists_uncounted :
    ¬(outline "M 6").countP (·.kind = .toolChange) ≤ count "M 6" ∧
      ¬(outline "m(a)06").countP (·.kind = .toolChange) ≤ count "m(a)06" ∧
      ¬(outline "M006").countP (·.kind = .toolChange) ≤ count "M006" := by
  decide +kernel

end Gcode.ToolChange

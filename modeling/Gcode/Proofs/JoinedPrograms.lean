import Gcode.Proofs.Finds
import Gcode.Proofs.NumberedLines

/-! Programs one after the other. Behind a line feed the analysis of a text goes on as if the text
stood alone, further down and with a machine in the middle of its work. -/
namespace Gcode

/-- How many line terminators a text has. A carriage return and a line feed after it are one. -/
def terminators : List Char → Nat
  | [] => 0
  | '\r' :: '\n' :: cs => terminators cs + 1
  | c :: cs => if c = '\n' ∨ c = '\r' then terminators cs + 1 else terminators cs

theorem length_cutLines {cs : List Char} (h : ∀ c ∈ cs.getLast?, IsBreak c) :
    (cutLines cs).length = terminators cs := by
  fun_induction cutLines cs with
  | case1 => rfl
  | case2 cs ih =>
    rw [terminators, List.length_cons, ih]
    exact fun c hc => h c (List.mem_getLast?_cons (List.mem_getLast?_cons hc))
  | case3 c cs hr hb ih =>
    rw [terminators.eq_3 c cs hr, if_pos hb, List.length_cons, ih]
    exact fun d hd => h d (List.mem_getLast?_cons hd)
  | case4 c cs hr hb he ih =>
    rw [cutLines_eq_nil] at he
    subst he
    exact absurd (h c rfl) hb
  | case5 c cs hr hb l ls he ih =>
    rw [terminators.eq_3 c cs hr, if_neg hb, List.length_cons, ← ih, he, List.length_cons]
    exact fun d hd => h d (List.mem_getLast?_cons hd)

theorem length_cutLines_of_feed {cs : List Char} (h : cs.getLast? = some '\n') :
    (cutLines cs).length = terminators cs := by
  apply length_cutLines
  intro c hc
  rw [h] at hc
  exact .inl (Option.some.inj hc).symm

/-- Behind a line feed a line starts, whatever follows. -/
theorem cutLines_append_of_feed {a : List Char} (b : List Char) (ha : a.getLast? = some '\n') :
    cutLines (a ++ b) = cutLines a ++ cutLines b := by
  apply cutLines_append
  intro c hc
  rw [ha] at hc
  exact .inl (Option.some.inj hc).symm

def Line.down (k : Nat) (line : Line) : Line := { line with index := line.index + k }

def Word.down (k : Nat) (w : Word) : Word := { w with line := w.line + k }

def Block.down (k : Nat) (block : Block) : Block :=
  { block with index := block.index + k, words := block.words.map (Word.down k) }

def Entry.down (k : Nat) (e : Entry) : Entry := { e with line := e.line + k }

namespace Line

theorem number_add (index k : Nat) (ls : List (List Char)) :
    number (index + k) ls = (number index ls).map (down k) := by
  induction ls generalizing index with
  | nil => rfl
  | cons l ls ih =>
    rw [number, number, List.map_cons, ← ih, Nat.add_right_comm]
    rfl

theorem ofText_append {a : String} (b : String) (ha : a.toList.getLast? = some '\n') :
    ofText (a ++ b) = ofText a ++ (ofText b).map (down (terminators a.toList)) := by
  rw [ofText, all, String.toList_append, cutLines_append_of_feed _ ha, number_append,
    List.filter_append, length_cutLines_of_feed ha, number_add, List.filter_map]
  rfl

end Line

namespace Word
variable (k : Nat)

theorem ofChars_add (line : Nat) (cs : List Char) :
    ofChars (line + k) cs = (ofChars line cs).map (down k) := by
  rw [ofChars, ofChars, List.map_filterMap]
  apply List.filterMap_congr
  intro f _
  unfold ofFind?
  split <;> rfl

end Word

namespace Block
variable (k : Nat)

theorem ofLine_down (line : Line) : ofLine (line.down k) = (ofLine line).down k := by
  rw [ofLine, Line.down, Word.ofChars_add]
  rfl

theorem ofText_append {a : String} (b : String) (ha : a.toList.getLast? = some '\n') :
    ofText (a ++ b) = ofText a ++ (ofText b).map (down (terminators a.toList)) := by
  rw [ofText, Line.ofText_append b ha, List.map_append, List.map_map, ofText, ofText, List.map_map]
  congr 1
  apply List.map_congr_left
  intro line _
  exact ofLine_down _ line

theorem neighbour?_down (block : Block) (position : Nat) (offset : Int) :
    (block.down k).neighbour? position offset =
      (block.neighbour? position offset).map (Word.down k) := by
  unfold neighbour?
  split
  · exact List.getElem?_map
  · rfl

theorem render_down (rule : LabelRule) (block : Block) (position : Nat) (w : Word) :
    rule.render (block.down k) position (w.down k) = rule.render block position w := by
  cases rule with
  | fixed text => rfl
  | offset => rfl
  | indexedOffset =>
    rw [LabelRule.render, LabelRule.render, neighbour?_down]
    cases block.neighbour? position 1 <;> rfl
  | spindle direction =>
    rw [LabelRule.render, LabelRule.render, neighbour?_down]
    cases block.neighbour? position (if position = 0 then 1 else -1) <;> rfl

theorem entries_down (block : Block) :
    (block.down k).entries = block.entries.map (Entry.down k) := by
  have he (w : Word) (position : Nat) : (block.down k).entryAt? position (w.down k) =
      (block.entryAt? position w).map (Entry.down k) := by
    have hm : Meaning.ofWord? (w.down k) = Meaning.ofWord? w := rfl
    rw [entryAt?, entryAt?, hm]
    cases Meaning.ofWord? w with
    | none => rfl
    | some meaning =>
      rw [Option.map_some, Option.map_some, render_down]
      rfl
  rw [entries, entries, down, List.zipIdx_map, List.filterMap_map, List.map_filterMap]
  apply List.filterMap_congr
  rintro ⟨w, position⟩ _
  exact he w position

end Block

theorem outline_append {a : String} (b : String) (ha : a.toList.getLast? = some '\n') :
    outline (a ++ b) = outline a ++ (outline b).map (Entry.down (terminators a.toList)) := by
  rw [outline, Block.ofText_append b ha, List.flatMap_append, List.flatMap_map, outline, outline,
    List.map_flatMap]
  congr 1
  apply List.flatMap_congr
  intro block _
  exact Block.entries_down _ block

theorem Document.line?_append {a : String} (b : String) (ha : a.toList.getLast? = some '\n')
    (reference : Option String) (i : Nat) :
    (Document.mk (a ++ b) reference).line? i =
      if i < terminators a.toList then (Document.mk a reference).line? i
      else (Document.mk b reference).line? (i - terminators a.toList) := by
  rw [line?_eq_getElem?, line?_eq_getElem?, line?_eq_getElem?, String.toList_append,
    cutLines_append_of_feed _ ha, List.getElem?_append, length_cutLines_of_feed ha]
  split <;> rfl

theorem CycleTime.step_down (t : CycleTime) (k : Nat) (words : List Word) :
    t.step (words.map (Word.down k)) = t.step words := by
  have hm : t.machine.step (words.map (Word.down k)) = t.machine.step words := by
    rw [Machine.step, List.foldl_map]
    -- the effect of a word does not depend on its line
    rfl
  rw [step, hm, ← step]

theorem CycleTime.run_down (t : CycleTime) (k : Nat) (blocks : List Block) :
    t.run (blocks.map (Block.down k)) = t.run blocks := by
  rw [run, List.foldl_map, run]
  congr 1
  funext t block
  exact t.step_down k block.words

theorem CycleTime.ofText_append {a : String} (b : String) (ha : a.toList.getLast? = some '\n') :
    ofText (a ++ b) = ((run {} (Block.ofText a)).run (Block.ofText b)).seconds := by
  rw [ofText, Block.ofText_append b ha, run, List.foldl_append, ← run, ← run, run_down]

namespace ToolChange

theorem pattern_of_first {c : Char} (cs : List Char) (hc : foldCase c ≠ 'M') :
    pattern (c :: cs) = none := by
  unfold pattern
  split <;> simp_all

theorem pattern_of_second {c d : Char} (cs : List Char) (h6 : d ≠ '6') (h0 : d ≠ '0') :
    pattern (c :: d :: cs) = none := by
  unfold pattern
  split <;> simp_all

theorem pattern_of_third {c e : Char} (cs : List Char) (h6 : e ≠ '6') :
    pattern (c :: '0' :: e :: cs) = none := by
  unfold pattern
  split <;> simp_all

theorem length_of_pattern {cs : List Char} {x : Unit × Nat} (h : pattern cs = some x) :
    x.2 ≤ cs.length := by
  unfold pattern at h
  split at h
  · split at h <;> cases h
    simp
  · split at h <;> cases h
    simp
  · cases h

/-- A tool change goes on with `6` or `0` only, so it does not reach into text that starts with
anything else. -/
theorem pattern_append {s r : List Char} (hs : s ≠ []) (hr : ∀ c ∈ r.head?, c ≠ '6' ∧ c ≠ '0') :
    pattern (s ++ r) = pattern s := by
  cases r with
  | nil => rw [List.append_nil]
  | cons b r =>
    obtain ⟨h6, h0⟩ := hr b rfl
    match s with
    | [] => exact absurd rfl hs
    | [c] => exact pattern_of_second r h6 h0
    | c :: d :: s =>
      by_cases hd6 : d = '6'
      · subst hd6
        rfl
      · by_cases hd0 : d = '0'
        · subst hd0
          cases s with
          | nil => exact pattern_of_third r h6
          | cons e s =>
            by_cases he : e = '6'
            · subst he
              rfl
            · rw [pattern_of_third s he]
              exact pattern_of_third (s ++ b :: r) he
        · rw [pattern_of_second s hd6 hd0]
          exact pattern_of_second (s ++ b :: r) hd6 hd0

/-- Nothing behind a line feed decides about a tool change in front of it. -/
theorem pattern_append_of_feed {s : List Char} (b : List Char) (hs : s.getLast? = some '\n') :
    pattern (s ++ b) = pattern s := by
  obtain ⟨t, rfl⟩ := List.getLast?_eq_some_iff.mp hs
  have hfeed (r : List Char) : ∀ c ∈ ('\n' :: r).head?, c ≠ '6' ∧ c ≠ '0' := by
    intro c hc
    obtain rfl : '\n' = c := Option.some.inj hc
    decide
  rw [List.append_assoc]
  cases t with
  | nil =>
    rw [List.nil_append, List.nil_append, pattern_of_first [] (by decide)]
    exact pattern_of_first b (by decide)
  | cons c t =>
    have hn := List.cons_ne_nil c t
    rw [pattern_append hn (hfeed [])]
    exact pattern_append hn (hfeed b)

theorem count_append {a : String} (b : String) (ha : a.toList.getLast? = some '\n') :
    count (a ++ b) = count a + count b := by
  have hlocal : ∀ s, s <:+ a.toList → s ≠ [] → pattern (s ++ b.toList) = pattern s := by
    rintro s ⟨r, hr⟩ hs
    apply pattern_append_of_feed
    rw [← hr, List.getLast?_append_of_ne_nil r hs] at ha
    exact ha
  rw [count, String.toList_append, Pattern.finds,
    Pattern.findsFrom_joined (fun _ _ => length_of_pattern) hlocal 0 0 (Nat.zero_le _),
    List.length_append, Pattern.findsFrom_add, List.length_map]
  rfl

end ToolChange

/-- Two programs, the first of which ends with a line feed, are analysed one after the other. The
outline of the second stands below the lines of the first, lines and tool changes are those of the
two, and the clock of the second starts with the machine and the seconds that the first ends with.
-/
theorem analysis_append {a : String} (b : String) (ha : a.toList.getLast? = some '\n') :
    outline (a ++ b) = outline a ++
        (outline b).map (fun e => { e with line := e.line + terminators a.toList }) ∧
      (∀ reference i, (Document.mk (a ++ b) reference).line? i =
        if i < terminators a.toList then (Document.mk a reference).line? i
        else (Document.mk b reference).line? (i - terminators a.toList)) ∧
      ToolChange.count (a ++ b) = ToolChange.count a + ToolChange.count b ∧
      CycleTime.ofText (a ++ b) =
        (CycleTime.run (CycleTime.run {} (Block.ofText a)) (Block.ofText b)).seconds :=
  ⟨outline_append b ha, Document.line?_append b ha, ToolChange.count_append b ha,
    CycleTime.ofText_append b ha⟩

theorem analysis_append_two_terminators :
    let a := "G0 (M06\r\n\rG1 X3 F60\n"
    let b := "\n6 M6"
    (a.toList.getLast? = some '\n' ∧ terminators a.toList = 3) ∧
      outline (a ++ b) = outline a ++ [⟨"Tool Change", "M06 Tool Change", .toolChange, 4, 0, 4⟩] ∧
      (Document.mk (a ++ b) none).line? 4 = some "6 M6" ∧ ToolChange.count (a ++ b) = 2 ∧
      CycleTime.ofText (a ++ b) =
        (CycleTime.run (CycleTime.run {} (Block.ofText a)) (Block.ofText b)).seconds := by
  intro a b
  have ha : a.toList.getLast? = some '\n' := by decide +kernel
  have hk : terminators a.toList = 3 := by decide +kernel
  obtain ⟨ho, hl, hc, ht⟩ := analysis_append b ha
  refine ⟨⟨ha, hk⟩, ?_, ?_, ?_, ht⟩
  · rw [ho, hk]
    decide +kernel
  · rw [hl, hk]
    decide +kernel
  · rw [hc]
    decide +kernel

end Gcode

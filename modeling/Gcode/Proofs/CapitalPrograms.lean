import Gcode.Proofs.Capitals

/-! A program in capitals is the same program. -/
namespace Gcode

/-- The words of a text do not show in which case it is written. -/
theorem Word.ofChars_capitals (line : Nat) (cs : List Char) :
    ofChars line (capitals cs) = ofChars line cs := by
  rw [ofChars, Pattern.finds, WordKind.ignoresCase_any?.findsFrom, List.filterMap_map, ofChars,
    Pattern.finds]
  apply List.filterMap_congr
  intro f _
  rw [Function.comp_apply, ofFind?, ofFind?, ← capitals, capitals_capitals, ← capitals]

theorem dropClosed_capitals (inside : Bool) (cs : List Char) :
    dropClosed inside (capitals cs) = capitals (dropClosed inside cs) := by
  induction cs generalizing inside with
  | nil => cases inside <;> rfl
  | cons c cs ih =>
    show dropClosed inside (c.toUpper :: capitals cs) = _
    cases inside with
    | true =>
      rw [dropClosed, ih, dropClosed]
      simp only [bne, beq_toUpper (by decide : ')'.isAlpha = false)]
    | false =>
      simp only [dropClosed, toUpper_eq_iff (by decide : '('.isAlpha = false),
        mem_capitals (by decide : ')'.isAlpha = false), ih]
      split <;> rfl

theorem dropRemark_capitals (cs : List Char) :
    dropRemark (capitals cs) = capitals (dropRemark cs) := by
  induction cs with
  | nil => rfl
  | cons c cs ih =>
    show dropRemark (c.toUpper :: capitals cs) = _
    simp only [dropRemark, toUpper_eq_iff (by decide : ';'.isAlpha = false),
      mem_capitals (by decide : '\n'.isAlpha = false), ih]
    split <;> rfl

theorem withoutComments_capitals (cs : List Char) :
    withoutComments (capitals cs) = capitals (withoutComments cs) := by
  rw [withoutComments, dropClosed_capitals, dropRemark_capitals, capitals, List.filter_map,
    capitals, withoutComments]
  congr 2
  funext c
  rw [Function.comp_apply, isBlank_toUpper]

theorem isBreak_toUpper (c : Char) : IsBreak c.toUpper ↔ IsBreak c :=
  or_congr (toUpper_eq_iff (by decide)) (toUpper_eq_iff (by decide))

theorem cutLines_capitals (cs : List Char) :
    cutLines (capitals cs) = (cutLines cs).map capitals := by
  fun_induction cutLines cs with
  | case1 => rfl
  | case2 cs ih =>
    show cutLines ('\r' :: '\n' :: capitals cs) = _
    rw [cutLines, ih, List.map_cons]
    rfl
  | case3 c cs hr hb ih =>
    show cutLines (c.toUpper :: capitals cs) = _
    have hn : c.toUpper = '\r' → (capitals cs).head? ≠ some '\n' := fun e =>
      mt (head?_capitals (by decide)).mp
        (head?_ne_some fun ds => hr ds ((toUpper_eq_iff (by decide)).mp e))
    rw [cutLines_break ((isBreak_toUpper c).mpr hb) hn, ih, List.map_cons]
    rfl
  | case4 c cs hr hb he ih | case5 c cs hr hb l ls he ih =>
    show cutLines (c.toUpper :: capitals cs) = _
    rw [cutLines_cons _ (mt (isBreak_toUpper c).mp hb), ih, he]
    rfl

theorem ToolChange.count_toUpper (text : String) : count text.toUpper = count text := by
  rw [count, toList_toUpper, Pattern.finds,
    ignoresCase_pattern.findsFrom, List.length_map, count, Pattern.finds]

theorem LengthUnit.ofText_toUpper (text : String) : ofText text.toUpper = ofText text := by
  rw [ofText, toList_toUpper, ignoresCase_code?.first?, ofText]

theorem codeUnder?_capitals (line : List Char) (column : Nat) :
    codeUnder? (capitals line) column =
      (codeUnder? line column).map fun f => { f with text := capitals f.text } := by
  rw [codeUnder?, Pattern.finds, ignoresCase_hoverCode?.findsFrom, List.find?_map, codeUnder?,
    Pattern.finds]
  simp only [Function.comp_def, Find.stop, length_capitals]
  rfl

theorem canonicalName_capitals (name : List Char) :
    canonicalName (capitals name) = canonicalName name := by
  have htrim : trimBlanks (capitals name) = capitals (trimBlanks name) := by
    rw [trimBlanks, dropWhile_capitals isBlank_toUpper, capitals, ← List.map_reverse, ← capitals,
      dropWhile_capitals isBlank_toUpper, capitals, ← List.map_reverse, ← capitals, trimBlanks]
  rw [canonicalName, htrim, ← capitals, capitals_capitals, capitals, canonicalName]

def codeAt (registry : Registry) (name line : String) (column : Nat) :
    Option (Nat × Nat × Option CodeHelp) :=
  (codeUnder? line.toList column).map fun f =>
    (f.start, f.stop, registry.lookupFrom name (String.ofList f.text))

theorem codeAt_toUpper (registry : Registry) (name line : String) (column : Nat) :
    codeAt registry name line.toUpper column = codeAt registry name line column := by
  have hlookup (t : List Char) : registry.lookupFrom name (String.ofList (capitals t)) =
      registry.lookupFrom name (String.ofList t) := by
    simp only [Registry.lookupFrom, Reference.lookup, Code.ofName, String.toList_ofList,
      canonicalName_capitals]
  have hstop (f : Find Unit) : Find.stop { f with text := capitals f.text } = f.stop := by
    rw [Find.stop, Find.stop, length_capitals]
  rw [codeAt, toList_toUpper, codeUnder?_capitals, Option.map_map, codeAt]
  simp only [Function.comp_def, hlookup, hstop]

/-- A letter is one UTF-16 code unit in either case. -/
theorem utf16Length_capitals (cs : List Char) : utf16Length (capitals cs) = utf16Length cs := by
  induction cs with
  | nil => rfl
  | cons c cs ih =>
    have hc : c.toUpper.toNat < 0x10000 ↔ c.toNat < 0x10000 := by
      cases ha : c.isAlpha with
      | false => rw [toUpper_of_isAlpha_false ha]
      | true =>
        have h := toNat_of_isAlphanum (c := c) (by rw [Char.isAlphanum, ha, Bool.true_or])
        have h' := toNat_of_isAlphanum (c := c.toUpper)
          (by rw [Char.isAlphanum, Char.isAlpha_toUpper_eq_isAlpha, ha, Bool.true_or])
        omega
    rw [utf16Length, ← ih]
    simp only [capitals, List.map_cons, utf16Length, hc]

namespace Line

def toUpper (line : Line) : Line := { line with text := line.text.toUpper }

theorem number_capitals (index : Nat) (ls : List (List Char)) :
    number index (ls.map capitals) = (number index ls).map toUpper := by
  induction ls generalizing index with
  | nil => rfl
  | cons l ls ih =>
    have htext : String.ofList (capitals l) = (String.ofList l).toUpper := by
      rw [← String.toList_inj, toList_toUpper, String.toList_ofList, String.toList_ofList]
    rw [List.map_cons, number, number, List.map_cons, ih, htext]
    rfl

theorem isBlank_toUpper (line : Line) : line.toUpper.isBlank = line.isBlank := by
  rw [isBlank, toUpper, toList_toUpper, capitals, List.all_map, isBlank]
  congr 1
  exact funext Gcode.isBlank_toUpper

theorem ofText_toUpper (text : String) : ofText text.toUpper = (ofText text).map toUpper := by
  rw [ofText, all, toList_toUpper, cutLines_capitals, number_capitals, List.filter_map, ofText,
    all]
  congr 2
  funext line
  rw [Function.comp_apply, isBlank_toUpper]

end Line

namespace Block

theorem words_toUpper (line : Line) : (ofLine line.toUpper).words = (ofLine line).words := by
  rw [ofLine, Line.toUpper, toList_toUpper, withoutComments_capitals, Word.ofChars_capitals, ofLine]

theorem entries_toUpper (line : Line) :
    (ofLine line.toUpper).entries = (ofLine line).entries := by
  have hwords := words_toUpper line
  have hwidth : (ofLine line.toUpper).width = (ofLine line).width := by
    rw [width, ofLine, Line.toUpper, toList_toUpper, length_capitals, width, ofLine]
  have hentry (w : Word) (position : Nat) :
      (ofLine line.toUpper).entryAt? position w = (ofLine line).entryAt? position w := by
    simp only [entryAt?, hwidth, render_congr hwords]
    rfl
  rw [entries, hwords, entries]
  simp only [hentry]

theorem symbols_toUpper (line : Line) :
    DocumentSymbol.ofBlock (ofLine line.toUpper) = DocumentSymbol.ofBlock (ofLine line) := by
  have hwidth : utf16Length (ofLine line.toUpper).text.toList =
      utf16Length (ofLine line).text.toList := by
    rw [ofLine, Line.toUpper, toList_toUpper, utf16Length_capitals, ofLine]
  rw [DocumentSymbol.ofBlock, hwidth, entries_toUpper, DocumentSymbol.ofBlock]

end Block

theorem outline_toUpper (text : String) : outline text.toUpper = outline text := by
  rw [outline, Block.ofText, Line.ofText_toUpper, List.map_map, List.flatMap_map, outline,
    Block.ofText, List.flatMap_map]
  exact List.flatMap_congr fun line _ => Block.entries_toUpper line

theorem DocumentSymbol.ofText_toUpper (text : String) : ofText text.toUpper = ofText text := by
  rw [ofText, Block.ofText, Line.ofText_toUpper, List.map_map, List.flatMap_map, ofText,
    Block.ofText, List.flatMap_map]
  exact List.flatMap_congr fun line _ => Block.symbols_toUpper line

theorem CycleTime.ofText_toUpper (text : String) : ofText text.toUpper = ofText text := by
  have hwords : (Block.ofText text.toUpper).map (·.words) = (Block.ofText text).map (·.words) := by
    rw [Block.ofText, Line.ofText_toUpper, List.map_map, List.map_map, Block.ofText, List.map_map]
    exact List.map_congr_left fun line _ => Block.words_toUpper line
  rw [ofText, run_congr hwords, ofText]

theorem Document.line?_toUpper (text : String) (reference reference' : Option String) (i : Nat) :
    (Document.mk text.toUpper reference).line? i =
      ((Document.mk text reference').line? i).map String.toUpper := by
  rw [line?, Line.ofText_toUpper, List.find?_map, Option.map_map, line?, Option.map_map]
  rfl

/-- Texts that differ in the case of ASCII letters alone have the same outline and symbols, the same
machining time and tool changes, and the same unit. A cursor at the same place of a line, or of any
text, is on codes with the same columns, of which every reference says the same. -/
theorem analysis_eq_of_toUpper_eq {text text' : String} (h : text.toUpper = text'.toUpper) :
    outline text = outline text' ∧
      DocumentSymbol.ofText text = DocumentSymbol.ofText text' ∧
      CycleTime.ofText text = CycleTime.ofText text' ∧
      ToolChange.count text = ToolChange.count text' ∧
      LengthUnit.ofText text = LengthUnit.ofText text' ∧
      (∀ registry name column,
        codeAt registry name text column = codeAt registry name text' column) ∧
      ∀ registry name reference reference' i column,
        ((Document.mk text reference).line? i).map (codeAt registry name · column) =
          ((Document.mk text' reference').line? i).map (codeAt registry name · column) := by
  have hline (registry : Registry) (name text : String) (reference : Option String)
      (i column : Nat) :
      ((Document.mk text.toUpper none).line? i).map (codeAt registry name · column) =
        ((Document.mk text reference).line? i).map (codeAt registry name · column) := by
    rw [Document.line?_toUpper text none reference, Option.map_map]
    simp only [Function.comp_def, codeAt_toUpper]
  refine ⟨?_, ?_, ?_, ?_, ?_, fun registry name column => ?_,
    fun registry name reference reference' i column => ?_⟩
  · rw [← outline_toUpper, h, outline_toUpper]
  · rw [← DocumentSymbol.ofText_toUpper, h, DocumentSymbol.ofText_toUpper]
  · rw [← CycleTime.ofText_toUpper, h, CycleTime.ofText_toUpper]
  · rw [← ToolChange.count_toUpper, h, ToolChange.count_toUpper]
  · rw [← LengthUnit.ofText_toUpper, h, LengthUnit.ofText_toUpper]
  · rw [← codeAt_toUpper, h, codeAt_toUpper]
  · rw [← hline, h, hline]

/-- Words of every kind, a long s that stays as it is, and a code under the cursor. -/
theorem analysis_eq_of_toUpper_eq_mixed_case :
    let text := "g01x3 m3S500ſ\r\n#[Ab]goto10 g154P2é g21"
    let text' := "G01X3 M3s500ſ\r\n#[aB]GoTo10 G154p2é G21"
    text.toUpper = text'.toUpper ∧ outline text = outline text' ∧
      DocumentSymbol.ofText text = DocumentSymbol.ofText text' ∧
      CycleTime.ofText text = CycleTime.ofText text' ∧
      ToolChange.count text = ToolChange.count text' ∧
      LengthUnit.ofText text = LengthUnit.ofText text' ∧
      let registry := Registry.add {} .builtIn
      codeAt registry Reference.builtInName text 3 = codeAt registry Reference.builtInName text' 3 ∧
      ((Document.mk text none).line? 1).map (codeAt registry Reference.builtInName · 20) =
        ((Document.mk text' none).line? 1).map (codeAt registry Reference.builtInName · 20) := by
  intro text text'
  have h : text.toUpper = text'.toUpper := by
    rw [← String.toList_inj, toList_toUpper, toList_toUpper]
    decide +kernel
  obtain ⟨ho, hs, ht, hc, hu, hcode, hline⟩ := analysis_eq_of_toUpper_eq h
  exact ⟨h, ho, hs, ht, hc, hu, hcode _ _ 3, hline _ _ none none 1 20⟩

end Gcode

import Gcode.Proofs.RenderedLine
import Gcode.Proofs.ToolChanges

/-! Programs that consist of words. In these the scans of the bare text, which know neither lines
nor words, find what the words say. -/
namespace Gcode

/-- Texts of words, each a letter with digits and points, with any white space around them, the
ends of lines included. -/
inductive IsWordProgram : List Char → Prop
  | empty : IsWordProgram []
  | blank {c : Char} {r : List Char} (hc : isBlank c) (hr : IsWordProgram r) :
      IsWordProgram (c :: r)
  | word {c : Char} {ds r : List Char} (hc : c.isAlpha) (hn : ds ≠ [])
      (h : ∀ d ∈ ds, d.isDigit ∨ d = '.') (hr : IsWordProgram r) : IsWordProgram (c :: (ds ++ r))

namespace Word

def unplaced (w : Word) : Word := { w with line := 0 }

def unit? (w : Word) : Option LengthUnit :=
  if w.is 'G' "20" then some .inch
  else if w.is 'G' "21" then some .metric
  else none

def beginsToolChange (w : Word) : Bool :=
  w.kind = .address && w.letter = 'M' &&
    (['6'].isPrefixOf w.argument.toList || ['0', '6'].isPrefixOf w.argument.toList)

theorem ofChars_unplaced (line : Nat) (cs : List Char) :
    (ofChars line cs).map unplaced = ofChars 0 cs := by
  rw [ofChars, ofChars, List.map_filterMap]
  apply List.filterMap_congr
  intro f _
  unfold ofFind?
  split <;> rfl

theorem filterMap_findsFrom (line column : Nat) (cs : List Char) :
    (WordKind.any?.findsFrom 0 column cs).filterMap (ofFind? line) = ofChars line cs := by
  rw [← Nat.zero_add column, Pattern.findsFrom_add, List.filterMap_map]
  rfl

/-- The tokenizer passes over a character with which no word begins. -/
theorem ofChars_cons {c : Char} {cs : List Char} (line : Nat)
    (h : WordKind.any? (c :: cs) = none) : ofChars line (c :: cs) = ofChars line cs := by
  rw [ofChars, Pattern.finds, Pattern.findsFrom, h]
  exact filterMap_findsFrom line 1 cs

/-- The tokenizer takes a word off the front and goes on behind it. -/
theorem ofChars_append {t r : List Char} {kind : WordKind} (line : Nat) (hn : t ≠ [])
    (h : WordKind.any? (t ++ r) = some (kind, t.length)) :
    ofChars line (t ++ r) = (ofFind? line ⟨0, kind, t⟩).toList ++ ofChars line r := by
  rw [ofChars, Pattern.finds, Pattern.findsFrom_append hn h, List.filterMap_cons,
    filterMap_findsFrom]
  cases ofFind? line ⟨0, kind, t⟩ <;> rfl

end Word

def unplacedWords (cs : List Char) : List Word :=
  (cutLines cs).flatMap fun l => Word.ofChars 0 (withoutComments l)

theorem unplaced_wordsOf (text : String) :
    (wordsOf text).map Word.unplaced = unplacedWords text.toList := by
  have hlines (index : Nat) (ls : List (List Char)) :
      ((((Line.number index ls).filter (!·.isBlank)).map Block.ofLine).flatMap (·.words)).map
        Word.unplaced = ls.flatMap fun l => Word.ofChars 0 (withoutComments l) := by
    induction ls generalizing index with
    | nil => rfl
    | cons l ls ih =>
      rw [Line.number, List.flatMap_cons, ← ih (index + 1)]
      cases hb : l.all isBlank with
      | true =>
        rw [withoutComments_blank hb]
        simp [Line.isBlank, hb]
        rfl
      | false =>
        rw [← Word.ofChars_unplaced index]
        simp [Line.isBlank, hb, Block.ofLine]
  exact hlines 0 (cutLines text.toList)

/-- Text within a line goes to the front of the first line behind it. -/
theorem cutLines_inside {t : List Char} (r : List Char) (hn : t ≠ [])
    (h : ∀ c ∈ t, ¬IsBreak c) :
    cutLines (t ++ r) = (t ++ (cutLines r).headD []) :: (cutLines r).tail := by
  induction t with
  | nil => exact absurd rfl hn
  | cons c t ih =>
    rw [List.cons_append, cutLines_cons _ (h c List.mem_cons_self)]
    by_cases ht : t = []
    · subst ht
      rfl
    · rw [ih ht fun d hd => h d (List.mem_cons_of_mem c hd)]
      rfl

theorem unplacedWords_eq (cs : List Char) :
    unplacedWords cs = Word.ofChars 0 (withoutComments ((cutLines cs).headD [])) ++
      (cutLines cs).tail.flatMap fun l => Word.ofChars 0 (withoutComments l) := by
  rw [unplacedWords]
  cases cutLines cs <;> rfl

theorem unplacedWords_inside {t : List Char} (r : List Char) (hn : t ≠ [])
    (h : ∀ c ∈ t, ¬IsBreak c) :
    unplacedWords (t ++ r) =
      Word.ofChars 0 (withoutComments (t ++ (cutLines r).headD [])) ++
        (cutLines r).tail.flatMap fun l => Word.ofChars 0 (withoutComments l) := by
  rw [unplacedWords, cutLines_inside r hn h, List.flatMap_cons]

theorem unplacedWords_break {c : Char} (cs : List Char) (hc : IsBreak c) :
    unplacedWords (c :: cs) = unplacedWords cs := by
  have hblank (ls : List (List Char)) :
      ([] :: ls).flatMap (fun l => Word.ofChars 0 (withoutComments l)) =
        ls.flatMap fun l => Word.ofChars 0 (withoutComments l) := rfl
  by_cases hf : c = '\r' ∧ cs.head? = some '\n'
  · obtain ⟨rfl, hf⟩ := hf
    obtain ⟨ds, rfl⟩ := List.head?_eq_some_iff.mp hf
    have hfeed : cutLines ('\n' :: ds) = [] :: cutLines ds :=
      cutLines_break (.inl rfl) fun e => absurd e (by decide)
    rw [unplacedWords, unplacedWords, cutLines, hfeed]
  · rw [unplacedWords, cutLines_break hc fun e he => hf ⟨e, he⟩, hblank, unplacedWords]

theorem unplacedWords_blank {c : Char} (cs : List Char) (hc : isBlank c = true) :
    unplacedWords (c :: cs) = unplacedWords cs := by
  by_cases hb : IsBreak c
  · exact unplacedWords_break cs hb
  · have hn : [c] ≠ [] := List.cons_ne_nil c []
    rw [← List.singleton_append, unplacedWords_inside cs hn (by simpa using hb),
      List.singleton_append, withoutComments_cons_blank _ hc, ← unplacedWords_eq]

theorem not_isBreak_of_isPlain {c : Char} (h : IsPlain c) : ¬IsBreak c := by
  rintro (rfl | rfl)
  · exact absurd h.2.2 (by decide)
  · exact absurd h.2.2 (by decide)

theorem isPlain_word {c : Char} {ds : List Char} (hc : c.isAlpha = true)
    (h : ∀ d ∈ ds, WordKind.isNumberChar d = true) : ∀ d ∈ c :: ds, IsPlain d :=
  List.forall_mem_cons.mpr
    ⟨isPlain_of_isAlpha hc, fun d hd => isPlain_of_isNumberChar (h d hd)⟩

theorem unplacedWords_word {c : Char} {ds r : List Char} (hc : c.isAlpha = true) (hn : ds ≠ [])
    (h : ∀ d ∈ ds, WordKind.isNumberChar d = true)
    (hr : ∀ d ∈ (withoutComments ((cutLines r).headD [])).head?,
      WordKind.isNumberChar d = false) :
    unplacedWords (c :: (ds ++ r)) =
      ⟨c.toUpper, String.ofList ds, 0, .address⟩ :: unplacedWords r := by
  have hplain := isPlain_word hc h
  have hdigits : ds.map Char.toUpper = ds :=
    map_eq_self fun d hd => toUpper_of_isNumberChar (h d hd)
  have hline := unplacedWords_inside r (List.cons_ne_nil c ds)
    fun d hd => not_isBreak_of_isPlain (hplain d hd)
  rw [List.cons_append] at hline
  rw [hline, withoutComments_append_plain _ hplain,
    Word.ofChars_append 0 (List.cons_ne_nil c ds)
      (WordKind.any?_number (isLetter_of_isAlpha hc) hn h hr),
    unplacedWords_eq, List.append_assoc, Word.ofFind?, List.map_cons, hdigits]
  rfl

namespace ToolChange

/-- A tool change is a letter in front of `6` or `06`. -/
theorem isSome_pattern (c : Char) (ds : List Char) :
    (pattern (c :: ds)).isSome =
      (decide (foldCase c = 'M') && (['6'].isPrefixOf ds || ['0', '6'].isPrefixOf ds)) := by
  by_cases hc : foldCase c = 'M'
  · match ds with
    | [] => simp [pattern]
    | d :: ds =>
      by_cases h6 : d = '6'
      · subst h6
        simp [pattern, hc, List.isPrefixOf]
      · by_cases h0 : d = '0'
        · subst h0
          cases ds with
          | nil => simp [pattern, List.isPrefixOf]
          | cons e ds =>
            by_cases he : e = '6'
            · subst he
              simp [pattern, hc, List.isPrefixOf]
            · simp [pattern_of_third ds he, List.isPrefixOf, Ne.symm he]
        · simp [pattern_of_second ds h6 h0, List.isPrefixOf, Ne.symm h6, Ne.symm h0]
  · simp [pattern_of_first ds hc, hc]

end ToolChange

theorem isNumberChar_of_digit {d : Char} (h : d.isDigit = true ∨ d = '.') :
    WordKind.isNumberChar d = true := by
  rcases h with h | rfl
  · simp [WordKind.isNumberChar, h]
  · rfl

theorem isNumberChar_of_blank {c : Char} (hc : isBlank c = true) :
    WordKind.isNumberChar c = false := by
  cases hn : WordKind.isNumberChar c with
  | false => rfl
  | true => exact absurd ((isPlain_of_isNumberChar hn).2.2.symm.trans hc) Bool.false_ne_true

theorem isNumberChar_of_letter {c : Char} (hc : c.isAlpha = true) :
    WordKind.isNumberChar c = false := by
  cases hn : WordKind.isNumberChar c with
  | false => rfl
  | true => exact absurd ((isAlpha_false_of_isNumberChar hn).symm.trans hc) Bool.false_ne_true

namespace LengthUnit

theorem code?_of_first {c : Char} (cs : List Char) (hc : foldCase c ≠ 'G') :
    code? (c :: cs) = none := by
  rw [code?, if_neg hc]

theorem ofDigits?_of_first {d : Char} (cs : List Char) (hd : d ≠ '2') :
    ofDigits? (d :: cs) = none := by
  unfold ofDigits?
  split
  · rename_i he
    exact absurd (List.cons.inj he).1 hd
  · rfl

/-- Digits and points that choose a unit are exactly `20` or `21`. -/
theorem ofDigits?_append {z r : List Char} (hz : ∀ d ∈ z, d.isDigit = true ∨ d = '.')
    (hr : ∀ c ∈ r.head?, WordKind.isNumberChar c = false) :
    ofDigits? (z ++ r) =
      if z = ['2', '0'] then some inch else if z = ['2', '1'] then some metric else none := by
  have hne {d : Char} (hd : WordKind.isNumberChar d = true) : ∀ c ∈ r.head?, c ≠ d :=
    fun c hc => (ne_of_class hd (hr c hc)).symm
  cases z with
  | nil =>
    cases r with
    | nil => rfl
    | cons c r => exact ofDigits?_of_first r (hne (by decide) c rfl)
  | cons d z =>
    by_cases hd : d = '2'
    · subst hd
      match z with
      | [] =>
        cases r with
        | nil => rfl
        | cons c r =>
          have h0 : c ≠ '0' := hne (by decide) c rfl
          have h1 : c ≠ '1' := hne (by decide) c rfl
          simp [ofDigits?, h0, h1]
      | [e] =>
        cases r with
        | nil => simp [ofDigits?]
        | cons c r =>
          have hc : c.isDigit = false := isDigit_false_of_isNumberChar_false (hr c rfl)
          have hp : c ≠ '.' := hne (by decide) c rfl
          simp [ofDigits?, hc, hp]
      | e :: g :: z =>
        have hg : g.isDigit = true ∨ g = '.' := hz g (by simp)
        simp [ofDigits?, hg]
    · rw [List.cons_append, ofDigits?_of_first _ hd]
      simp [hd]

/-- A word chooses a unit in the bare text as it does among the words. -/
theorem map_code?_word {c : Char} {ds r : List Char} (hc : c.isAlpha = true)
    (h : ∀ d ∈ ds, d.isDigit = true ∨ d = '.')
    (hr : ∀ d ∈ r.head?, WordKind.isNumberChar d = false) :
    (code? (c :: (ds ++ r))).map (·.1) =
      Word.unit? ⟨c.toUpper, String.ofList ds, 0, .address⟩ := by
  have hzero : ∀ d ∈ r.head?, (d == '0') = false := fun d hd =>
    beq_eq_false_iff_ne.mpr (ne_of_class (by decide) (hr d hd)).symm
  have hz : ∀ d ∈ ds.dropWhile (· == '0'), d.isDigit = true ∨ d = '.' := fun d hd =>
    h d ((List.dropWhile_sublist _).mem hd)
  have hcode (code : String) (hn : code.toList ≠ []) (hp : '.' ∉ code.toList)
      (h0 : code.toList ≠ ['0']) :
      (⟨c.toUpper, String.ofList ds, 0, .address⟩ : Word).is 'G' code =
        decide (c.toUpper = 'G' ∧ ds.dropWhile (· == '0') = code.toList) := by
    have he := @Code.ofArgument_eq_iff (String.ofList ds) code hn hp h0
    rw [String.toList_ofList] at he
    simp [Word.is, Word.code, he]
  rw [Word.unit?, hcode "20" (by decide) (by decide) (by decide),
    hcode "21" (by decide) (by decide) (by decide), code?, foldCase_of_isAlpha hc,
    dropWhile_append_of_head ds hzero, ofDigits?_append hz hr]
  have hin : "20".toList = ['2', '0'] := rfl
  have hmm : "21".toList = ['2', '1'] := rfl
  by_cases hg : c.toUpper = 'G'
  · simp only [hg, hin, hmm, true_and, if_true, decide_eq_true_eq]
    split
    · rfl
    · split <;> rfl
  · simp [hg]

end LengthUnit

namespace IsWordProgram
variable {cs : List Char}

theorem head? (h : IsWordProgram cs) : ∀ d ∈ cs.head?, WordKind.isNumberChar d = false := by
  cases h with
  | empty => simp
  | blank hc _ => exact fun d hd => Option.some.inj hd ▸ isNumberChar_of_blank hc
  | word hc _ _ _ => exact fun d hd => Option.some.inj hd ▸ isNumberChar_of_letter hc

/-- What is left of the first line does not go on with a number. -/
theorem head?_line (h : IsWordProgram cs) :
    ∀ d ∈ (withoutComments ((cutLines cs).headD [])).head?, WordKind.isNumberChar d = false := by
  induction h with
  | empty => simp [cutLines, withoutComments, dropClosed, dropRemark]
  | @blank c r hc _ ih =>
    by_cases hb : IsBreak c
    · have hcut := @cutLines_line [] (c :: r) (by simp)
        (fun d hd => Option.some.inj hd ▸ hb)
      rw [List.nil_append, if_neg (by simp)] at hcut
      rw [hcut]
      simp [withoutComments, dropClosed, dropRemark]
    · rw [cutLines_cons _ hb, List.headD_cons, withoutComments_cons_blank _ hc]
      exact ih
  | @word c ds r hc hn hds _ ih =>
    have hplain := isPlain_word hc fun d hd => isNumberChar_of_digit (hds d hd)
    have hcut := cutLines_inside r (List.cons_ne_nil c ds)
      fun d hd => not_isBreak_of_isPlain (hplain d hd)
    rw [List.cons_append] at hcut
    rw [hcut, List.headD_cons, withoutComments_append_plain _ hplain]
    exact fun d hd => Option.some.inj hd ▸ isNumberChar_of_letter hc

/-- The bare text and its words choose the same unit. -/
theorem first?_code? (h : IsWordProgram cs) :
    LengthUnit.code?.first? cs = (unplacedWords cs).findSome? Word.unit? := by
  induction h with
  | empty => rfl
  | @blank c r hc _ ih =>
    have hfold : foldCase c ≠ 'G' :=
      foldCase_ne_of_isLetter_false (isLetter_false_of_isBlank hc) (by decide)
    have hnone := LengthUnit.code?_of_first r hfold
    rw [unplacedWords_blank r hc, Pattern.first?_cons, hnone, ih]
    rfl
  | @word c ds r hc hn hds hr ih =>
    have hnumber : ∀ d ∈ ds, WordKind.isNumberChar d = true :=
      fun d hd => isNumberChar_of_digit (hds d hd)
    have hskip : ∀ d ∈ ds, ∀ cs, LengthUnit.code? (d :: cs) = none := fun d hd cs =>
      LengthUnit.code?_of_first cs (foldCase_ne_of_isLetter_false
        (isLetter_false_of_isNumberChar (hnumber d hd)) (by decide))
    rw [unplacedWords_word hc hn hnumber hr.head?_line, Pattern.first?_cons,
      LengthUnit.map_code?_word hc hds hr.head?, Pattern.first?_append r hskip, ih,
      List.findSome?_cons]
    cases Word.unit? _ <;> rfl

/-- The bare text holds as many tool changes as words that begin as one. -/
theorem places_pattern (h : IsWordProgram cs) :
    ToolChange.pattern.places cs = (unplacedWords cs).countP Word.beginsToolChange := by
  induction h with
  | empty => rfl
  | @blank c r hc _ ih =>
    have hfold : foldCase c ≠ 'M' :=
      foldCase_ne_of_isLetter_false (isLetter_false_of_isBlank hc) (by decide)
    have hnone := ToolChange.pattern_of_first r hfold
    rw [unplacedWords_blank r hc, Pattern.places, hnone, ih]
    exact Nat.zero_add _
  | @word c ds r hc hn hds hr ih =>
    have hnumber : ∀ d ∈ ds, WordKind.isNumberChar d = true :=
      fun d hd => isNumberChar_of_digit (hds d hd)
    have hskip : ∀ d ∈ ds, ∀ cs, ToolChange.pattern (d :: cs) = none := fun d hd cs =>
      ToolChange.pattern_of_first cs (foldCase_ne_of_isLetter_false
        (isLetter_false_of_isNumberChar (hnumber d hd)) (by decide))
    have hfront : ToolChange.pattern (c :: (ds ++ r)) = ToolChange.pattern (c :: ds) :=
      ToolChange.pattern_append (List.cons_ne_nil c ds) fun d hd =>
        ⟨(ne_of_class (by decide) (hr.head? d hd)).symm,
          (ne_of_class (by decide) (hr.head? d hd)).symm⟩
    have hbegins : (ToolChange.pattern (c :: ds)).isSome =
        Word.beginsToolChange ⟨c.toUpper, String.ofList ds, 0, .address⟩ := by
      rw [ToolChange.isSome_pattern, foldCase_of_isAlpha hc, Word.beginsToolChange,
        String.toList_ofList]
      simp
    rw [unplacedWords_word hc hn hnumber hr.head?_line, Pattern.places, hfront, hbegins,
      Pattern.places_append r hskip, ih, List.countP_cons, Nat.add_comm]

end IsWordProgram

/-- In a program that consists of words the scans of the bare text agree with the words. The unit is
that of the first G20 or G21, or inch without one, and the tool changes are the words that begin
with `M6` or `M06`. -/
theorem scans_eq_words {text : String} (h : IsWordProgram text.toList) :
    LengthUnit.ofText text = ((wordsOf text).findSome? Word.unit?).getD .inch ∧
      ToolChange.count text = (wordsOf text).countP Word.beginsToolChange := by
  have hunit : (wordsOf text).findSome? Word.unit? =
      ((wordsOf text).map Word.unplaced).findSome? Word.unit? := by
    rw [List.findSome?_map]
    rfl
  have hbegins : (wordsOf text).countP Word.beginsToolChange =
      ((wordsOf text).map Word.unplaced).countP Word.beginsToolChange := by
    rw [List.countP_map]
    rfl
  rw [hunit, hbegins, unplaced_wordsOf, ← h.first?_code?, ← h.places_pattern,
    ← ToolChange.count_eq_places]
  exact ⟨rfl, rfl⟩

/-- Words run together, on lines with different ends and with a point in a number. `M060` begins
as a tool change does and `G20.` chooses no unit, so the unit is that of `g0021`. -/
theorem scans_eq_words_run_together :
    IsWordProgram "n10 G20.g0021\r\n\nm060X1..5M6\tG20".toList ∧
      LengthUnit.ofText "n10 G20.g0021\r\n\nm060X1..5M6\tG20" = .metric ∧
      ToolChange.count "n10 G20.g0021\r\n\nm060X1..5M6\tG20" = 2 := by
  have hwords : IsWordProgram "n10 G20.g0021\r\n\nm060X1..5M6\tG20".toList :=
    @IsWordProgram.word 'n' ['1', '0'] _ (by decide) (by decide) (by simp) <|
    .blank (by decide) <|
    @IsWordProgram.word 'G' ['2', '0', '.'] _ (by decide) (by decide) (by simp) <|
    @IsWordProgram.word 'g' ['0', '0', '2', '1'] _ (by decide) (by decide) (by simp) <|
    .blank (by decide) <| .blank (by decide) <| .blank (by decide) <|
    @IsWordProgram.word 'm' ['0', '6', '0'] _ (by decide) (by decide) (by simp) <|
    @IsWordProgram.word 'X' ['1', '.', '.', '5'] _ (by decide) (by decide) (by simp) <|
    @IsWordProgram.word 'M' ['6'] _ (by decide) (by decide) (by simp) <|
    .blank (by decide) <|
    @IsWordProgram.word 'G' ['2', '0'] _ (by decide) (by decide) (by simp) .empty
  obtain ⟨hunit, hcount⟩ := scans_eq_words hwords
  exact ⟨hwords, hunit.trans (by decide +kernel), hcount.trans (by decide +kernel)⟩

end Gcode

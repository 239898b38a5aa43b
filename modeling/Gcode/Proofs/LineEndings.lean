import Gcode.Proofs.CodeSpellings
import Gcode.Proofs.WordPrograms

/-! Line endings say nothing but where lines end: a text with other ones is the same program. -/
namespace Gcode

inductive LineEnding where
  | feed | returnFeed | carriageReturn
deriving DecidableEq, Repr

def LineEnding.chars : LineEnding → List Char
  | feed => ['\n']
  | returnFeed => ['\r', '\n']
  | carriageReturn => ['\r']

/-- A text with one line ending in place of each of its own. A carriage return and a line feed
after it are one. -/
def withEndings (ending : LineEnding) : List Char → List Char
  | [] => []
  | '\r' :: '\n' :: cs => ending.chars ++ withEndings ending cs
  | c :: cs =>
    if c = '\n' ∨ c = '\r' then ending.chars ++ withEndings ending cs
    else c :: withEndings ending cs

namespace LineEnding

/-- Nothing joins a carriage return that ends a line. -/
theorem head?_withEndings (cs : List Char) :
    (withEndings .carriageReturn cs).head? ≠ some '\n' := by
  fun_cases withEndings .carriageReturn cs with
  | case1 => simp
  | case2 cs => simp [chars]
  | case3 c cs hr hb => simp [chars]
  | case4 c cs hr hb =>
    rw [List.head?_cons]
    exact fun he => hb (.inl (Option.some.inj he))

theorem cutLines_chars_append (ending : LineEnding) (cs : List Char) :
    cutLines (ending.chars ++ withEndings ending cs) =
      [] :: cutLines (withEndings ending cs) := by
  cases ending with
  | feed => exact cutLines_break (.inl rfl) fun e => absurd e (by decide)
  | returnFeed => rfl
  | carriageReturn => exact cutLines_break (.inr rfl) fun _ => head?_withEndings cs

/-- The lines stay, the blank ones and those at the end included. -/
theorem cutLines_withEndings (ending : LineEnding) (cs : List Char) :
    cutLines (withEndings ending cs) = cutLines cs := by
  fun_induction withEndings ending cs with
  | case1 => rfl
  | case2 cs ih => rw [cutLines_chars_append, ih, cutLines]
  | case3 c cs hr hb ih =>
    rw [cutLines_chars_append, ih, cutLines_break hb fun e => head?_ne_some fun ds => hr ds e]
  | case4 c cs hr hb ih => rw [cutLines_cons _ hb, cutLines_cons _ hb, ih]

end LineEnding

namespace LengthUnit

theorem ofDigits?_append_break {s r : List Char} (hr : ∀ c ∈ r.head?, IsBreak c) :
    ofDigits? (s ++ r) = ofDigits? s := by
  cases r with
  | nil => rw [List.append_nil]
  | cons b r =>
    have hb : b ≠ '2' ∧ b ≠ '0' ∧ b ≠ '1' ∧ b ≠ '.' ∧ b.isDigit = false := by
      rcases hr b rfl with rfl | rfl <;> decide
    obtain ⟨h2, h0, h1, hp, hd⟩ := hb
    cases s with
    | nil => exact ofDigits?_of_first r h2
    | cons c s =>
      by_cases hc : c = '2'
      · subst hc
        match s with
        | [] => simp [ofDigits?, h0, h1]
        | [d] => simp [ofDigits?, hp, hd]
        | d :: e :: s => rfl
      · rw [List.cons_append, ofDigits?_of_first _ hc, ofDigits?_of_first _ hc]

/-- No terminator takes part in the code of a unit: a code before one is whole. -/
theorem staysInLines : code?.StaysInLines where
  at_break c cs hc := by
    rcases hc with rfl | rfl
    · exact code?_of_first cs (by decide)
    · exact code?_of_first cs (by decide)
  before_break s r hs hr := by
    have hzero : ∀ c ∈ r.head?, (c == '0') = false := by
      intro c hc
      rcases hr c hc with rfl | rfl <;> decide
    cases s with
    | nil => exact absurd rfl hs
    | cons c s =>
      have hleading : leading (· == '0') (s ++ r) = leading (· == '0') s := by
        cases r with
        | nil => rw [List.append_nil]
        | cons b r => exact @leading_append_cons (· == '0') b (hzero b rfl) s r
      rw [List.cons_append, code?, code?, dropWhile_append_of_head s hzero,
        ofDigits?_append_break hr, hleading]

theorem ofText_eq_lines (text : String) :
    ofText text = (((cutLines text.toList).flatMap code?.hits).head?).getD inch := by
  rw [ofText, Pattern.first?_eq_head?_hits, staysInLines.hits_cutLines]

end LengthUnit

theorem ToolChange.count_eq_lines (text : String) :
    count text = ((cutLines text.toList).map pattern.places).sum := by
  rw [count_eq_places, places_cutLines]

/-- With other line endings a text has the same lines under the same numbers, the same outline and
symbols, the same machining time and tool changes, and the same unit. -/
theorem analysis_withEndings (ending : LineEnding) (text : String) :
    let text' := String.ofList (withEndings ending text.toList)
    Line.ofText text' = Line.ofText text ∧
      outline text' = outline text ∧
      DocumentSymbol.ofText text' = DocumentSymbol.ofText text ∧
      CycleTime.ofText text' = CycleTime.ofText text ∧
      ToolChange.count text' = ToolChange.count text ∧
      LengthUnit.ofText text' = LengthUnit.ofText text ∧
      ∀ reference i, (Document.mk text' reference).line? i =
        (Document.mk text reference).line? i := by
  intro text'
  have hcut : cutLines text'.toList = cutLines text.toList := by
    rw [String.toList_ofList, ending.cutLines_withEndings]
  have hlines : Line.ofText text' = Line.ofText text := by
    rw [Line.ofText, Line.all, hcut, Line.ofText, Line.all]
  have hblocks : Block.ofText text' = Block.ofText text := by
    rw [Block.ofText, hlines, Block.ofText]
  refine ⟨hlines, ?_, ?_, ?_, ?_, ?_, fun reference i => ?_⟩
  · rw [outline, hblocks, outline]
  · rw [DocumentSymbol.ofText, hblocks, DocumentSymbol.ofText]
  · rw [CycleTime.ofText, hblocks, CycleTime.ofText]
  · rw [ToolChange.count_eq_lines, hcut, ToolChange.count_eq_lines]
  · rw [LengthUnit.ofText_eq_lines, hcut, LengthUnit.ofText_eq_lines]
  · rw [Document.line?, hlines, Document.line?]

end Gcode

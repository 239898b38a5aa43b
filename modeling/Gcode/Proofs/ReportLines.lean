import Gcode.Figures
import Gcode.Proofs.LabelText
import Gcode.Proofs.OutlineLines
import Gcode.Report

/-! The report of the command line beside what an editor is told of the same program: a line for
each symbol, and a line for each figure. -/
namespace Gcode

namespace OnlySpaces

theorem not_isBreak {cs : List Char} (h : OnlySpaces cs) : ∀ c ∈ cs, ¬IsBreak c := by
  intro c hc hb
  have hblank : isBlank c = true := by
    rcases hb with rfl | rfl <;> decide
  obtain rfl : c = ' ' := h c hc hblank
  exact absurd hb (by decide)

theorem append_toList {s t : String} (hs : OnlySpaces s.toList) (ht : OnlySpaces t.toList) :
    OnlySpaces (s ++ t).toList := by
  rw [String.toList_append]
  exact hs.append ht

theorem spaces (n : Nat) : OnlySpaces (String.ofList (List.replicate n ' ')).toList := by
  intro c hc _
  rw [String.toList_ofList] at hc
  exact List.eq_of_mem_replicate hc

theorem repr (n : Nat) : OnlySpaces n.repr.toList := by
  have hsolid : IsSolid n.repr.toList := by
    intro c hc
    rw [Nat.toList_repr] at hc
    exact (isPlain_of_isDigit (Nat.isDigit_of_mem_toDigits (by decide) (by decide) hc)).2.2
  exact hsolid.onlySpaces

theorem twoDigits (n : Nat) : OnlySpaces (Clock.twoDigits n).toList := by
  rw [Clock.twoDigits]
  split
  · exact append_toList (by decide) (repr n)
  · exact repr n

theorem clock (seconds : Float) : OnlySpaces (Clock.render seconds).toList := by
  rw [Clock.render]
  split
  · decide
  · have hcolon : OnlySpaces ":".toList := by decide
    exact append_toList (append_toList (append_toList (append_toList (twoDigits _) hcolon)
      (twoDigits _)) hcolon) (twoDigits _)

end OnlySpaces

namespace Report

/-- Lines that are printed one below the other are the lines of what is printed. -/
theorem cutLines_unlines {ls : List String} (h : ∀ l ∈ ls, OnlySpaces l.toList) :
    cutLines (unlines ls).toList = ls.map String.toList := by
  induction ls with
  | nil => rfl
  | cons l ls ih =>
    have hprinted : (unlines (l :: ls)).toList = l.toList ++ '\n' :: (unlines ls).toList := by
      simp [unlines]
    rw [hprinted, cutLines_line (h l List.mem_cons_self).not_isBreak (by simp [IsBreak]),
      if_neg (by simp), List.map_cons, ← ih fun k hk => h k (List.mem_cons_of_mem l hk)]
    rfl

def symbolLine (s : DocumentSymbol) : String :=
  padLeft 6 (s.span.start.line + 1).repr ++ "  " ++ padRight 28 s.name ++ " " ++ s.detail

def linesOfFigures (figures : Figures) : List String :=
  ["Tool changes:      " ++ figures.toolChanges.repr,
    "Estimated runtime: " ++ figures.clock,
    "Units:             " ++ figures.units.name]

theorem onlySpaces_entryLine {text : String} {e : Entry} (h : e ∈ outline text) :
    OnlySpaces (entryLine e).toList := by
  obtain ⟨hlabel, htooltip⟩ := onlySpaces_of_mem_outline h
  have hnumber : OnlySpaces (padLeft 6 (e.line + 1).repr).toList :=
    .append_toList (.spaces _) (.repr _)
  have hpadded : OnlySpaces (padRight 28 e.label).toList := .append_toList hlabel (.spaces _)
  exact .append_toList (.append_toList (.append_toList (.append_toList hnumber (by decide))
    hpadded) (by decide)) htooltip

theorem onlySpaces_figureLines {text : String} {units : UnitPreference} :
    ∀ l ∈ figureLines text units, OnlySpaces l.toList := by
  have hunits (u : LengthUnit) : OnlySpaces u.name.toList := by
    cases u <;> decide
  rw [figureLines, List.forall_mem_cons, List.forall_mem_cons, List.forall_mem_singleton]
  exact ⟨.append_toList (by decide) (.repr _), .append_toList (by decide) (.clock _),
    .append_toList (by decide) (hunits _)⟩

theorem onlySpaces_lines (text : String) (request : Request) :
    ∀ l ∈ lines text request, OnlySpaces l.toList := by
  intro l hl
  rcases List.mem_append.mp hl with hl | hl
  · split at hl
    · rcases List.mem_append.mp hl with hl | hl
      · obtain ⟨e, he, rfl⟩ := List.mem_map.mp hl
        exact onlySpaces_entryLine he
      · obtain rfl := List.mem_singleton.mp hl
        decide
    · cases hl
  · exact onlySpaces_figureLines l hl

theorem map_entryLine (text : String) :
    (outline text).map entryLine = (DocumentSymbol.ofText text).map symbolLine := by
  rw [(Document.mk text none).symbols_eq_map, List.map_map]
  rfl

/-- The report tells of a program what an editor is told of it. Unless a flag leaves the outline
out, the lines of the output are one for each symbol, in their order, then an empty line and one
for each figure. No text breaks this, since the label of a symbol is a template of its meaning with
solid texts in the gaps, and has no white space but the spaces of the template. -/
theorem ofFile_as_in_editor (text : String) :
    (∀ request : Request, request.withOutline = true →
      let outcome := Outcome.ofFile request (.ok text)
      let report := (DocumentSymbol.ofText text).map symbolLine ++
        "" :: linesOfFigures (Figures.ofText text request.units)
      outcome = ⟨0, unlines report, ""⟩ ∧
        (cutLines outcome.output.toList).map String.ofList = report) ∧
    ∀ s ∈ DocumentSymbol.ofText text,
      (∃ meaning ∈ Meaning.all, s.detail = meaning.tooltip ∧
        s.kind = meaning.kind.symbolNumber ∧
        ∃ parts ∈ meaning.label.templates, Fills parts s.name) ∧
      ∀ c ∈ s.name.toList, isBlank c = true → c = ' ' := by
  refine ⟨fun request hrequest => ?_, fun s hs => ?_⟩
  · have hlines : lines text request = (DocumentSymbol.ofText text).map symbolLine ++
        "" :: linesOfFigures (Figures.ofText text request.units) := by
      rw [lines, if_pos hrequest, map_entryLine, List.append_assoc]
      rfl
    refine ⟨by rw [Outcome.ofFile, hlines], ?_⟩
    rw [← hlines, Outcome.ofFile, cutLines_unlines (onlySpaces_lines text request), List.map_map]
    simp
  · rw [(Document.mk text none).symbols_eq_map] at hs
    obtain ⟨e, he, rfl⟩ := List.mem_map.mp hs
    obtain ⟨meaning, hm, htooltip, hkind, hlabel⟩ := exists_meaning_of_mem_outline he
    exact ⟨⟨meaning, hm, htooltip, congrArg EntryKind.symbolNumber hkind, hlabel⟩,
      (onlySpaces_of_mem_outline he).1⟩

/-- An expression with white space of several kinds beside a work offset, and a spindle behind its
speed. -/
theorem ofFile_as_in_editor_spaced_expression :
    let text := "(first)\r\ng154 #[a\u2028b (c) +\t1]\rS900M03 M6"
    let request : Request := ⟨"a.nc", some .metric, true⟩
    request.withOutline = true ∧
    (cutLines (Outcome.ofFile request (.ok text)).output.toList).map String.ofList =
      ["     2  Work Offset (G154 #[AB+1])   Additional Work Coordinate System",
        "     3  Spindle On 900RPM CW         M03 Spindle On Clockwise",
        "     3  Tool Change                  M06 Tool Change"] ++
        "" :: linesOfFigures (Figures.ofText text (some .metric)) := by
  intro text request
  obtain ⟨hreport, -⟩ := ofFile_as_in_editor text
  have hsymbols : (DocumentSymbol.ofText text).map symbolLine =
      ["     2  Work Offset (G154 #[AB+1])   Additional Work Coordinate System",
        "     3  Spindle On 900RPM CW         M03 Spindle On Clockwise",
        "     3  Tool Change                  M06 Tool Change"] := by
    decide +kernel
  exact ⟨rfl, hsymbols ▸ (hreport request rfl).2⟩

end Report
end Gcode

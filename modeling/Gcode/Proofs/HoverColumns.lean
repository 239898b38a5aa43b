import Gcode.Proofs.Finds
import Gcode.Proofs.WordForm
import Gcode.Workspace

/-! The columns of a hover. They count characters, and are UTF-16 columns as long as every character
in front of the code is a single code unit. -/
namespace Gcode

inductive CodeForm : List Char → Prop
  | whole {c : Char} {ds : List Char} (hc : c.isAlpha) (hn : ds ≠ []) (h : ∀ d ∈ ds, d.isDigit) :
      CodeForm (c :: ds)
  | decimal {c : Char} {ds fs : List Char} (hc : c.isAlpha) (hn : ds ≠ [])
      (h : ∀ d ∈ ds, d.isDigit) (hf : fs ≠ []) (hfs : ∀ d ∈ fs, d.isDigit) :
      CodeForm (c :: (ds ++ '.' :: fs))

theorem codeForm_of_hoverCode? {cs : List Char} {x : Unit × Nat} (h : hoverCode? cs = some x) :
    CodeForm (cs.take x.2) := by
  cases cs with
  | nil => cases h
  | cons c cs =>
    rw [hoverCode?] at h
    split at h
    case h_2 => cases h
    case h_1 n hc hn =>
    obtain ⟨ds, rest, rfl, hlen, hne, hdigits⟩ := exists_of_leading hn
    rw [List.drop_left' hlen] at h
    have hwhole : CodeForm ((c :: (ds ++ rest)).take (n + 2)) := by
      rw [List.take_succ_cons, List.take_left' hlen]
      exact .whole hc hne hdigits
    split at h
    case h_2 =>
      cases h
      exact hwhole
    case h_1 es =>
    split at h
    case h_1 =>
      cases h
      exact hwhole
    case h_2 m hm =>
      cases h
      obtain ⟨fs, rest, rfl, hlen', hne', hdigits'⟩ := exists_of_leading hm
      have htext : c :: (ds ++ '.' :: (fs ++ rest)) = c :: (ds ++ '.' :: fs) ++ rest := by simp
      have hwidth : (c :: (ds ++ '.' :: fs)).length = n + m + 4 := by
        simp only [List.length_cons, List.length_append]
        omega
      rw [htext, List.take_left' hwidth]
      exact .decimal hc hne hdigits hne' hdigits'

def isPair (c : Char) : Bool := 0x10000 ≤ c.toNat

theorem utf16Length_eq (cs : List Char) : utf16Length cs = cs.length + cs.countP isPair := by
  induction cs with
  | nil => rfl
  | cons c cs ih =>
    rw [utf16Length, ih, List.length_cons, List.countP_cons, isPair]
    by_cases h : c.toNat < 0x10000
    · rw [if_pos h, if_neg (by simpa using h)]
      omega
    · rw [if_neg h, if_pos (by simpa using h)]
      omega

theorem isPair_false_of_isAlphanum {c : Char} (h : c.isAlphanum = true) : isPair c = false := by
  have hn := (toNat_of_isAlphanum h).2
  rw [isPair, decide_eq_false_iff_not]
  omega

namespace CodeForm
variable {t : List Char}

theorem isAlphanum_or_point (h : CodeForm t) : ∀ c ∈ t, c.isAlphanum = true ∨ c = '.' := by
  have letter {c : Char} (hc : c.isAlpha = true) : c.isAlphanum = true := by
    rw [Char.isAlphanum, hc, Bool.true_or]
  have digit {d : Char} (hd : d.isDigit = true) : d.isAlphanum = true := by
    rw [Char.isAlphanum, hd, Bool.or_true]
  intro x hx
  cases h with
  | whole hc _ h =>
    rcases List.mem_cons.mp hx with rfl | hx
    · exact .inl (letter hc)
    · exact .inl (digit (h x hx))
  | decimal hc _ h _ hfs =>
    rcases List.mem_cons.mp hx with rfl | hx
    · exact .inl (letter hc)
    rcases List.mem_append.mp hx with hx | hx
    · exact .inl (digit (h x hx))
    rcases List.mem_cons.mp hx with rfl | hx
    · exact .inr rfl
    · exact .inl (digit (hfs x hx))

/-- Codes are as long in UTF-16 as in characters. -/
theorem countP_isPair (h : CodeForm t) : t.countP isPair = 0 := by
  rw [List.countP_eq_zero]
  intro c hc
  rcases h.isAlphanum_or_point c hc with hc | rfl
  · rw [isPair_false_of_isAlphanum hc]
    exact Bool.false_ne_true
  · decide

end CodeForm

theorem exists_of_codeUnder? {line : List Char} {column : Nat} {f : Find Unit}
    (h : codeUnder? line column = some f) :
    ∃ before after, line = before ++ f.text ++ after ∧ f.start = before.length ∧
      CodeForm f.text ∧ f.start ≤ min column line.length ∧ min column line.length ≤ f.stop := by
  obtain ⟨before, rest, width, rfl, hstart, hp, ht⟩ :=
    Pattern.exists_of_mem_findsFrom (List.mem_of_find?_eq_some h)
  have htouch := List.find?_some h
  simp only [Bool.and_eq_true, decide_eq_true_eq] at htouch
  refine ⟨before, rest.drop width, ?_, ?_, ?_, htouch⟩
  · rw [ht, List.append_assoc, List.take_append_drop]
  · rw [hstart, Nat.zero_add]
  · rw [ht]
    exact codeForm_of_hoverCode? hp

def Workspace.help? {Address : Type} (workspace : Workspace Address) (document : Document)
    (code : String) : Option CodeHelp :=
  match document.reference with
  | some name => workspace.registry.lookupFrom name code
  | none => workspace.registry.lookup code

/-- Whether the answered columns, moved right by a number of columns, are the UTF-16 columns of a
code that is explained, and touch a column of the line. -/
def Hover.Shows (found : Hover) (help? : String → Option CodeHelp) (line : String)
    (moved column : Nat) : Prop :=
  ∃ code help before after, help? code = some help ∧ found.markdown = help.markdown ∧
    line.toList = before ++ code.toList ++ after ∧
    utf16Length before = found.span.start.character + moved ∧
    utf16Length (before ++ code.toList) = found.span.stop.character + moved ∧
    found.span.start.character + moved ≤ column ∧ column ≤ found.span.stop.character + moved

theorem Hover.shows_of_text {help? : String → Option CodeHelp} {help : CodeHelp} {line : String}
    {before after : List Char} {f : Find Unit} {index column : Nat}
    (htext : line.toList = before ++ f.text ++ after) (hstart : f.start = before.length)
    (hform : CodeForm f.text) (hhelp : help? (String.ofList f.text) = some help)
    (hl : f.start + before.countP isPair ≤ column) (hr : column ≤ f.stop + before.countP isPair) :
    Hover.Shows ⟨help.markdown, ⟨index, f.start⟩, ⟨index, f.stop⟩⟩ help? line
      (before.countP isPair) column := by
  refine ⟨String.ofList f.text, help, before, after, hhelp, rfl, ?_, ?_, ?_, hl, hr⟩
  · rw [String.toList_ofList, htext]
  · rw [utf16Length_eq, hstart]
  · rw [String.toList_ofList, utf16Length_eq, List.countP_append, hform.countP_isPair,
      List.length_append, Find.stop, hstart, Nat.add_zero]

theorem countP_take_of_touch {before text after : List Char} {column : Nat}
    (ht : text.countP isPair = 0)
    (hle : before.length ≤ min column (before ++ text ++ after).length)
    (hge : min column (before ++ text ++ after).length ≤ before.length + text.length) :
    ((before ++ text ++ after).take column).countP isPair = before.countP isPair := by
  rw [← List.length_append] at hge
  rw [List.take_eq_take_min, List.take_append_of_le_length hge, List.take_append,
    List.take_of_length_le hle, List.countP_append, Nat.add_eq_left, ← Nat.le_zero, ← ht]
  exact (List.take_sublist _ text).countP_le

namespace Workspace
variable {Address : Type} {workspace : Workspace Address} {document : Document} {place : Place}
  {found : Hover}

theorem hover?_eq (workspace : Workspace Address) (document : Document) (place : Place) :
    workspace.hover? document place = (document.line? place.line).bind fun line =>
      (codeUnder? line.toList place.character).bind fun f =>
        (workspace.help? document (String.ofList f.text)).map fun help =>
          ⟨help.markdown, ⟨place.line, f.start⟩, ⟨place.line, f.stop⟩⟩ := by
  obtain ⟨text, reference⟩ := document
  simp only [Option.map_eq_bind]
  cases reference <;> rfl

theorem exists_of_hover? (h : workspace.hover? document place = some found) :
    ∃ line f help, document.line? place.line = some line ∧
      codeUnder? line.toList place.character = some f ∧
      workspace.help? document (String.ofList f.text) = some help ∧
      found = ⟨help.markdown, ⟨place.line, f.start⟩, ⟨place.line, f.stop⟩⟩ := by
  rw [hover?_eq, Option.bind_eq_some_iff] at h
  obtain ⟨line, hline, h⟩ := h
  obtain ⟨f, hf, h⟩ := Option.bind_eq_some_iff.mp h
  obtain ⟨help, hhelp, rfl⟩ := Option.map_eq_some_iff.mp h
  exact ⟨line, f, help, hline, hf, hhelp, rfl⟩

/-- A hover counts characters. Its UTF-16 columns lie one to the right for each pair of code units
in front of the code, so without such pairs a hover shows the code under a UTF-16 column. -/
theorem hover?_shows (h : workspace.hover? document place = some found) :
    ∃ line, document.line? place.line = some line ∧ found.span.start.line = place.line ∧
      found.span.stop.line = place.line ∧
      let pairs := (line.toList.take found.span.start.character).countP isPair
      found.Shows (workspace.help? document) line pairs
          (utf16Length (line.toList.take place.character)) ∧
        (pairs = 0 → found.Shows (workspace.help? document) line 0
          (min place.character (utf16Length line.toList))) := by
  obtain ⟨line, f, help, hline, hf, hhelp, rfl⟩ := exists_of_hover? h
  obtain ⟨before, after, htext, hstart, hform, hle, hge⟩ := exists_of_codeUnder? hf
  refine ⟨line, hline, rfl, rfl, ?_⟩
  have hcode := hform.countP_isPair
  have hstop : f.stop = before.length + f.text.length := by rw [Find.stop, hstart]
  have hbefore : line.toList.take f.start = before := by
    rw [hstart, htext, List.append_assoc, List.take_left]
  simp only [hbefore]
  constructor
  · have hcolumn : utf16Length (line.toList.take place.character) =
        min place.character line.toList.length + before.countP isPair := by
      rw [htext] at hle hge ⊢
      rw [utf16Length_eq, List.length_take,
        countP_take_of_touch hcode (hstart ▸ hle) (hstop ▸ hge)]
    rw [hcolumn]
    exact Hover.shows_of_text htext hstart hform hhelp (Nat.add_le_add_right hle _)
      (Nat.add_le_add_right hge _)
  · intro hpairs
    rw [← hpairs]
    -- a column behind the line touches the code only if the line ends with it
    have hafter : after.countP isPair ≤ after.length := List.countP_le_length
    have hlength : line.toList.length = f.stop + after.length := by
      rw [htext, hstop, List.length_append, List.length_append]
    have hwidth : utf16Length line.toList = line.toList.length + after.countP isPair := by
      rw [utf16Length_eq, htext, List.countP_append, List.countP_append, hpairs, hcode]
      omega
    apply Hover.shows_of_text htext hstart hform hhelp <;> omega

theorem hover?_shows_two_lines :
    let workspace : Workspace String :=
      ⟨⟨[(Reference.builtInName, .builtIn)], some Reference.builtInName⟩, {}, []⟩
    let document : Document := ⟨"é G01\r(😀)m06", none⟩
    ∃ above below, workspace.hover? document ⟨0, 9⟩ = some above ∧
      workspace.hover? document ⟨1, 3⟩ = some below ∧
      above.span = ⟨⟨0, 2⟩, ⟨0, 5⟩⟩ ∧ below.span = ⟨⟨1, 3⟩, ⟨1, 6⟩⟩ ∧
      above.Shows (workspace.help? document) "é G01" 0 5 ∧
      below.Shows (workspace.help? document) "(😀)m06" 1 4 := by
  intro workspace document
  have ha : (workspace.hover? document ⟨0, 9⟩).map (·.span) = some ⟨⟨0, 2⟩, ⟨0, 5⟩⟩ := by
    decide +kernel
  have hb : (workspace.hover? document ⟨1, 3⟩).map (·.span) = some ⟨⟨1, 3⟩, ⟨1, 6⟩⟩ := by
    decide +kernel
  obtain ⟨above, hover_above, ha⟩ := Option.map_eq_some_iff.mp ha
  obtain ⟨below, hover_below, hb⟩ := Option.map_eq_some_iff.mp hb
  obtain ⟨line, hline, -, -, -, hshows_above⟩ := hover?_shows hover_above
  have htext : document.line? 0 = some "é G01" := by decide +kernel
  obtain rfl : line = "é G01" := Option.some.inj (hline.symm.trans htext)
  obtain ⟨line, hline, -, -, hshows_below, -⟩ := hover?_shows hover_below
  have htext : document.line? 1 = some "(😀)m06" := by decide +kernel
  obtain rfl : line = "(😀)m06" := Option.some.inj (hline.symm.trans htext)
  rw [ha] at hshows_above
  rw [hb] at hshows_below
  exact ⟨above, below, hover_above, hover_below, ha, hb, hshows_above rfl, hshows_below⟩

/-- UTF-16 columns would stand behind both code units of a pair, and one of them is answered. -/
theorem not_forall_hover?_shows : ¬∀ (workspace : Workspace String) (document : Document)
    (place : Place) (found : Hover), workspace.hover? document place = some found →
      ∃ line, document.line? place.line = some line ∧ found.span.start.line = place.line ∧
        found.span.stop.line = place.line ∧
        found.Shows (workspace.help? document) line 0
          (min place.character (utf16Length line.toList)) := by
  intro h
  let workspace : Workspace String :=
    ⟨⟨[(Reference.builtInName, .builtIn)], some Reference.builtInName⟩, {}, []⟩
  let document : Document := ⟨"😀G1", none⟩
  have hspan : (workspace.hover? document ⟨0, 2⟩).map (·.span) = some ⟨⟨0, 1⟩, ⟨0, 3⟩⟩ := by
    decide +kernel
  obtain ⟨found, hfound, hspan⟩ := Option.map_eq_some_iff.mp hspan
  obtain ⟨line, hline, -, -, code, help, before, after, -, -, htext, hstart, -⟩ :=
    h workspace document ⟨0, 2⟩ found hfound
  have hfirst : document.line? 0 = some "😀G1" := by decide +kernel
  obtain rfl : line = "😀G1" := Option.some.inj (hline.symm.trans hfirst)
  rw [hspan] at hstart
  cases before with
  | nil => exact absurd hstart (by decide)
  | cons c before =>
    obtain rfl : '😀' = c := (List.cons.inj htext).1
    -- the first character alone is as long as two columns
    exact absurd hstart (Nat.ne_of_gt (Nat.lt_add_right _ (by decide)))

end Workspace
end Gcode

import Gcode.Proofs.Capitals
import Gcode.Proofs.OutlineKinds
import Gcode.Proofs.WordGrammar

/-! The words that the tokenizer gives. Their letters are ASCII capitals, apart from the long s and
the Kelvin sign, which are read as letters but have no ASCII capital. -/
namespace Gcode

inductive CapitalText : WordKind → List Char → Prop
  | keyword {k : String} (hk : k ∈ keywords) : CapitalText .keyword k.toList
  | dollars : CapitalText .macroVar ['$', '$']
  | named {name : List Char} (hn : name ≠ [])
      (h : ∀ c ∈ name, c.isUpper ∨ c.isDigit ∨ c = '_') : CapitalText .macroVar ('$' :: name)
  | numbered {ds : List Char} (hn : ds ≠ []) (h : ∀ d ∈ ds, d.isDigit) :
      CapitalText .macroVar ('#' :: ds)
  | expression {e : List Char} (h : ']' ∉ e) : CapitalText .macroVar ('#' :: '[' :: (e ++ [']']))
  | address {c : Char} {ds : List Char} (hc : c.isUpper) (hn : ds ≠ [])
      (h : ∀ d ∈ ds, WordKind.isNumberChar d) : CapitalText .address (c :: ds)
  | repetition {ds : List Char} (hn : ds ≠ []) (h : ∀ d ∈ ds, d.isDigit) :
      CapitalText .repetition ('*' :: ds)

/-- The ASCII letter in place of the two letters beyond ASCII that words can hold. -/
def asciiLetter (c : Char) : Char :=
  if c = '\u017F' then 'S' else if c = '\u212A' then 'K' else c

theorem asciiLetter_toUpper (c : Char) : asciiLetter c.toUpper = foldCase c := by
  rw [← foldCase_toUpper, asciiLetter, foldCase, Char.toUpper_toUpper_eq_toUpper]

theorem map_asciiLetter_capitals (t : List Char) :
    (capitals t).map asciiLetter = t.map foldCase := by
  rw [capitals, List.map_map]
  exact List.map_congr_left fun c _ => asciiLetter_toUpper c

/-- A class without the two letters is kept. -/
theorem asciiLetter_of_class {p : Char → Bool} {c : Char} (h : p c = true)
    (hs : p '\u017F' = false) (hk : p '\u212A' = false) : asciiLetter c = c := by
  rw [asciiLetter, if_neg (ne_of_class h hs), if_neg (ne_of_class h hk)]

theorem asciiLetter_of_isUpper {c : Char} (h : c.isUpper = true) : asciiLetter c = c :=
  asciiLetter_of_class h (by decide) (by decide)

theorem asciiLetter_of_isDigit {c : Char} (h : c.isDigit = true) : asciiLetter c = c :=
  asciiLetter_of_class h (by decide) (by decide)

theorem foldCase_of_isLetter_false {c : Char} (h : isLetter c = false) : foldCase c = c := by
  have hs : c ≠ '\u017F' := by
    intro e
    subst e
    exact absurd h (by decide)
  have hk : c ≠ '\u212A' := by
    intro e
    subst e
    exact absurd h (by decide)
  rw [isLetter_eq_isAlpha hs hk] at h
  rw [foldCase, if_neg hs, if_neg hk, toUpper_of_isAlpha_false h]

theorem map_foldCase_of_isNumberChar {ds : List Char}
    (h : ∀ d ∈ ds, WordKind.isNumberChar d = true) : ds.map foldCase = ds :=
  map_eq_self fun d hd => foldCase_of_isLetter_false (isLetter_false_of_isNumberChar (h d hd))

theorem map_foldCase_of_isDigit {ds : List Char} (h : ∀ d ∈ ds, d.isDigit = true) :
    ds.map foldCase = ds :=
  map_foldCase_of_isNumberChar fun d hd => isNumberChar_of_digit (.inl (h d hd))

theorem foldCase_isNameChar {c : Char} (h : WordKind.isNameChar c = true) :
    (foldCase c).isUpper ∨ (foldCase c).isDigit ∨ foldCase c = '_' := by
  cases hl : isLetter c with
  | true => exact .inl hl
  | false =>
    rw [foldCase_of_isLetter_false hl]
    simpa [WordKind.isNameChar, hl] using Or.inr h

theorem bracket_notMem_foldCase {e : List Char} (h : ']' ∉ e) : ']' ∉ e.map foldCase := by
  intro hm
  obtain ⟨c, hc, he⟩ := List.mem_map.mp hm
  cases hl : isLetter c with
  | true =>
    rw [isLetter, he] at hl
    exact absurd hl (by decide)
  | false =>
    rw [foldCase_of_isLetter_false hl] at he
    exact h (he ▸ hc)

/-- With the two letters replaced, the text of a word in any case becomes one in capitals. -/
theorem WordText.capitalText {kind : WordKind} {t : List Char} (h : WordText kind t) :
    CapitalText kind (t.map foldCase) := by
  cases h with
  | keyword hk ht => exact ht ▸ .keyword hk
  | dollars => exact .dollars
  | @named name hn h =>
    have hname : ∀ c ∈ name.map foldCase, c.isUpper ∨ c.isDigit ∨ c = '_' :=
      List.forall_mem_map.mpr fun c hc => foldCase_isNameChar (h c hc)
    exact .named (mt List.map_eq_nil_iff.mp hn) hname
  | @numbered ds hn h =>
    rw [List.map_cons, map_foldCase_of_isDigit h]
    exact .numbered hn h
  | @expression e h =>
    rw [List.map_cons, List.map_cons, List.map_append]
    exact .expression (bracket_notMem_foldCase h)
  | @address c ds hc hn h =>
    rw [List.map_cons, map_foldCase_of_isNumberChar h]
    exact .address hc hn h
  | @repetition ds hn h =>
    rw [List.map_cons, map_foldCase_of_isDigit h]
    exact .repetition hn h

theorem CapitalText.map_asciiLetter {kind : WordKind} {t : List Char} (h : CapitalText kind t) :
    t.map asciiLetter = t ∨ ['#', '['] <+: t := by
  cases h with
  | keyword hk =>
    refine .inl (map_eq_self fun c hc => ?_)
    exact asciiLetter_of_isUpper (WordKind.isUpper_of_mem_keyword hk hc)
  | dollars => exact .inl rfl
  | @named name hn h =>
    refine .inl (map_eq_self (List.forall_mem_cons.mpr ⟨by decide, fun c hc => ?_⟩))
    rcases h c hc with hu | hd | he
    · exact asciiLetter_of_isUpper hu
    · exact asciiLetter_of_isDigit hd
    · exact he ▸ by decide
  | numbered hn h | repetition hn h =>
    exact .inl (map_eq_self
      (List.forall_mem_cons.mpr ⟨by decide, fun d hd => asciiLetter_of_isDigit (h d hd)⟩))
  | expression h => exact .inr (List.prefix_append ['#', '['] _)
  | address hc hn h =>
    exact .inl (map_eq_self (List.forall_mem_cons.mpr ⟨asciiLetter_of_isUpper hc,
      fun d hd => asciiLetter_of_class (h d hd) (by decide) (by decide)⟩))

/-- An expression is in capitals whatever letters it holds. -/
theorem WordText.capitalText_expression {kind : WordKind} {t : List Char} (h : WordText kind t)
    (hopens : ['#', '['] <+: capitals t) : CapitalText kind (capitals t) := by
  obtain ⟨e, he⟩ := hopens
  obtain ⟨c, s, rfl, hc, hs⟩ := List.map_eq_cons_iff.mp he.symm
  obtain ⟨d, s, rfl, hd, -⟩ := List.map_eq_cons_iff.mp hs
  obtain rfl : c = '#' := eq_of_toUpper_eq hc (by decide)
  obtain rfl : d = '[' := eq_of_toUpper_eq hd (by decide)
  cases h with
  | @keyword k _ hk ht =>
    have hu : foldCase '#' ∈ k.toList := by
      rw [← ht]
      exact List.mem_cons_self
    exact absurd (WordKind.isUpper_of_mem_keyword hk hu) (by decide)
  | numbered hn h => exact absurd (h '[' List.mem_cons_self) (by decide)
  | @expression e h =>
    have he : ']' ∉ capitals e := mt (mem_capitals (by decide)).mp h
    have htext : capitals ('#' :: '[' :: (e ++ [']'])) = '#' :: '[' :: (capitals e ++ [']']) := by
      simp [capitals]
    rw [htext]
    exact .expression he
  | address hc hn h => exact absurd hc (by decide)

namespace Word
variable {line : Nat} {cs : List Char} {w : Word}

/-- A word is a part of the text in capitals. -/
theorem exists_of_mem_ofChars (hw : w ∈ ofChars line cs) :
    ∃ t, WordText w.kind t ∧ t <:+: cs ∧ w.text.toList = capitals t := by
  obtain ⟨f, hf, hread⟩ := List.mem_filterMap.mp hw
  obtain ⟨before, rest, width, rfl, -, hp, ht⟩ := Pattern.exists_of_mem_findsFrom hf
  obtain ⟨t, hlongest, hlen⟩ := WordKind.isLongest_of_any? hp
  obtain ⟨c, s, hcs, rfl⟩ := exists_of_ofFind? hread
  have htext : t = c :: s := by
    rw [← hcs, ht, List.prefix_iff_eq_take.mp hlongest.front, hlen]
  refine ⟨t, hlongest.word, ?_, ?_⟩
  · exact hlongest.front.isInfix.trans (List.suffix_append before rest).isInfix
  · rw [text, String.toList_ofList, String.toList_ofList, htext]
    rfl

/-- With S and K in place of the long s and the Kelvin sign, the text of every word is in capitals.
As it stands it is in capitals if it holds none of the two letters or is an expression, and only
then. So the words of a text without the two letters are all in capitals. -/
theorem capitalText_of_mem_ofChars (hw : w ∈ ofChars line cs) :
    CapitalText w.kind (w.text.toList.map asciiLetter) ∧
    (CapitalText w.kind w.text.toList ↔
      w.text.toList.map asciiLetter = w.text.toList ∨ ['#', '['] <+: w.text.toList) ∧
    ('\u017F' ∉ cs → '\u212A' ∉ cs → CapitalText w.kind w.text.toList) := by
  obtain ⟨t, ht, hpart, htext⟩ := exists_of_mem_ofChars hw
  have hreplaced : CapitalText w.kind ((capitals t).map asciiLetter) := by
    rw [map_asciiLetter_capitals]
    exact ht.capitalText
  rw [htext]
  refine ⟨hreplaced, ⟨CapitalText.map_asciiLetter, fun h => ?_⟩, fun hs hk => ?_⟩
  · cases h with
    | inl hkept => rwa [hkept] at hreplaced
    | inr hopens => exact ht.capitalText_expression hopens
  · have hkept : t.map foldCase = capitals t := List.map_congr_left fun c hc => by
      have hs : c ≠ '\u017F' := fun e => hs (hpart.mem (e ▸ hc))
      have hk : c ≠ '\u212A' := fun e => hk (hpart.mem (e ▸ hc))
      rw [foldCase, if_neg hs, if_neg hk]
    rw [map_asciiLetter_capitals, hkept] at hreplaced
    exact hreplaced

/-- A number, a name and a keyword with letters beyond ASCII, an expression with one, and a word of
a text without them. -/
theorem capitalText_of_mem_ofChars_long_s :
    let number : Word := ⟨'\u017F', "5", 3, .address⟩
    let name : Word := ⟨'$', "A\u212A", 3, .macroVar⟩
    let keyword : Word := ⟨'A', "\u017FIN", 3, .keyword⟩
    let expression : Word := ⟨'#', "[\u017F)X]", 3, .macroVar⟩
    let words := ofChars 3 "\u017F5$a\u212A;a\u017Fin#[\u017F)x]".toList
    words = [number, name, keyword, expression] ∧
    (∀ w ∈ words, CapitalText w.kind (w.text.toList.map asciiLetter)) ∧
    ¬CapitalText .address number.text.toList ∧ ¬CapitalText .macroVar name.text.toList ∧
    ¬CapitalText .keyword keyword.text.toList ∧
    CapitalText .macroVar expression.text.toList ∧
    (⟨'X', "-2", 0, .address⟩ : Word) ∈ ofChars 0 "x-2".toList ∧
    CapitalText .address "X-2".toList := by
  intro number name keyword expression words
  have hwords : words = [number, name, keyword, expression] := by decide +kernel
  have hmem : number ∈ words ∧ name ∈ words ∧ keyword ∈ words ∧ expression ∈ words := by
    rw [hwords]
    simp
  obtain ⟨hnumber, hname, hkeyword, hexpression⟩ := hmem
  have hplain : (⟨'X', "-2", 0, .address⟩ : Word) ∈ ofChars 0 "x-2".toList := by decide +kernel
  refine ⟨hwords, fun w hw => (capitalText_of_mem_ofChars hw).1, ?_, ?_, ?_, ?_, hplain, ?_⟩
  · exact mt (capitalText_of_mem_ofChars hnumber).2.1.mp (by decide +kernel)
  · exact mt (capitalText_of_mem_ofChars hname).2.1.mp (by decide +kernel)
  · exact mt (capitalText_of_mem_ofChars hkeyword).2.1.mp (by decide +kernel)
  · exact (capitalText_of_mem_ofChars hexpression).2.1.mpr (.inr (by decide +kernel))
  · exact (capitalText_of_mem_ofChars hplain).2.2 (by decide) (by decide)

/-- The letter of a number may be no ASCII letter. -/
theorem not_forall_capitalText : ¬∀ (line : Nat) (cs : List Char), ∀ w ∈ ofChars line cs,
    CapitalText w.kind w.text.toList := by
  intro h
  have hw : (⟨'\u017F', "5", 0, .address⟩ : Word) ∈ ofChars 0 "\u017F5".toList := by decide +kernel
  have hform := h 0 _ _ hw
  cases hform with
  | address hc => exact absurd hc (by decide)

end Word
end Gcode

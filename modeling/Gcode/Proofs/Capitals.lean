import Gcode.Proofs.CodeSpellings
import Gcode.Proofs.NeutralEdit
import Gcode.Proofs.WordPrograms

/-! Small letters and capitals. The patterns of a program read letters without regard to case, and
nothing but a letter has another case. -/
namespace Gcode

theorem isBlank_toUpper (c : Char) : isBlank c.toUpper = isBlank c :=
  class_toUpper (fun _ h => (isPlain_of_isAlpha h).2.2) c

theorem isDigit_toUpper (c : Char) : c.toUpper.isDigit = c.isDigit :=
  class_toUpper (fun _ h => isDigit_false_of_isAlpha h) c

theorem isNumberChar_toUpper (c : Char) :
    WordKind.isNumberChar c.toUpper = WordKind.isNumberChar c :=
  class_toUpper (fun _ h => isNumberChar_of_letter h) c

theorem beq_toUpper {d : Char} (hd : d.isAlpha = false) (c : Char) :
    (c.toUpper == d) = (c == d) :=
  class_toUpper (p := (· == d)) (fun _ h => beq_eq_false_iff_ne.mpr (ne_of_class h hd)) c

theorem isNameChar_toUpper (c : Char) : WordKind.isNameChar c.toUpper = WordKind.isNameChar c := by
  rw [WordKind.isNameChar, isLetter_toUpper, isDigit_toUpper, beq_toUpper (by decide),
    WordKind.isNameChar]

def capitals (cs : List Char) : List Char := cs.map Char.toUpper

theorem toList_toUpper (text : String) : text.toUpper.toList = capitals text.toList :=
  String.toList_map

theorem length_capitals (cs : List Char) : (capitals cs).length = cs.length := List.length_map _

theorem capitals_capitals (cs : List Char) : capitals (capitals cs) = capitals cs := by
  rw [capitals, capitals, List.map_map]
  exact List.map_congr_left fun c _ => Char.toUpper_toUpper_eq_toUpper c

theorem mem_capitals {d : Char} (hd : d.isAlpha = false) {cs : List Char} :
    d ∈ capitals cs ↔ d ∈ cs := by
  rw [capitals, List.mem_map]
  constructor
  · rintro ⟨c, hc, he⟩
    exact (toUpper_eq_iff hd).mp he ▸ hc
  · exact fun h => ⟨d, h, toUpper_of_isAlpha_false hd⟩

theorem head?_capitals {d : Char} (hd : d.isAlpha = false) {cs : List Char} :
    (capitals cs).head? = some d ↔ cs.head? = some d := by
  cases cs with
  | nil => rfl
  | cons c cs => simp [capitals, toUpper_eq_iff hd]

theorem leading_capitals {p : Char → Bool} (h : ∀ c, p c.toUpper = p c) (cs : List Char) :
    leading p (capitals cs) = leading p cs := by
  rw [leading, capitals, List.takeWhile_map, List.length_map, leading]
  congr 2
  exact funext h

theorem dropWhile_capitals {p : Char → Bool} (h : ∀ c, p c.toUpper = p c) (cs : List Char) :
    (capitals cs).dropWhile p = capitals (cs.dropWhile p) :=
  dropWhile_map_of_class h cs

namespace Pattern
variable {α : Type} {p q : Pattern α}

def IgnoresCase (p : Pattern α) : Prop := ∀ cs, p (capitals cs) = p cs

theorem IgnoresCase.orElse (hp : p.IgnoresCase) (hq : q.IgnoresCase) :
    (p.orElse q).IgnoresCase := by
  intro cs
  rw [Pattern.orElse, hp, hq, Pattern.orElse]

theorem ignoresCase_afterFirst {inClass : Char → Bool} (h : ∀ c, inClass c.toUpper = inClass c)
    (sort : α) : (afterFirst sort inClass).IgnoresCase := by
  intro cs
  rw [afterFirst, leading_capitals h, afterFirst]

theorem IgnoresCase.findsFrom (h : p.IgnoresCase) (skip column : Nat) (cs : List Char) :
    p.findsFrom skip column (capitals cs) =
      (p.findsFrom skip column cs).map fun f => { f with text := capitals f.text } := by
  induction cs generalizing skip column with
  | nil => cases skip <;> rfl
  | cons c cs ih =>
    have hp := h (c :: cs)
    rw [capitals, List.map_cons] at hp ⊢
    cases skip with
    | succ skip => exact ih skip (column + 1)
    | zero =>
      rw [Pattern.findsFrom, Pattern.findsFrom, hp]
      cases p (c :: cs) with
      | none => exact ih 0 (column + 1)
      | some x =>
        have htake : (c.toUpper :: cs.map Char.toUpper).take x.2 =
            capitals ((c :: cs).take x.2) := by
          rw [capitals, List.map_take, List.map_cons]
        rw [List.map_cons, ← ih]
        simp only [htake]
        rfl

theorem IgnoresCase.first? (h : p.IgnoresCase) (cs : List Char) :
    p.first? (capitals cs) = p.first? cs :=
  first?_map h cs

end Pattern

namespace WordKind

theorem ignoresCase_keyword? : keyword?.IgnoresCase := by
  intro cs
  have hfold (n : Nat) : ((capitals cs).take n).map foldCase = (cs.take n).map foldCase := by
    rw [capitals, ← List.map_take, List.map_map]
    exact List.map_congr_left fun c _ => foldCase_toUpper c
  simp only [keyword?, hfold]

theorem macroVar?_dollar {cs : List Char} (h : cs.head? ≠ some '$') :
    macroVar? ('$' :: cs) = Pattern.afterFirst .macroVar isNameChar cs := by
  rw [macroVar?]
  rintro ds rfl
  exact h rfl

theorem macroVar?_hash {cs : List Char} (h : cs.head? ≠ some '[') :
    macroVar? ('#' :: cs) = Pattern.afterFirst .macroVar Char.isDigit cs := by
  rw [macroVar?]
  rintro ds rfl
  exact h rfl

theorem ignoresCase_macroVar? : macroVar?.IgnoresCase := by
  intro cs
  cases cs with
  | nil => rfl
  | cons c cs =>
    by_cases hd : c = '$'
    · subst hd
      show macroVar? ('$' :: capitals cs) = _
      by_cases h : cs.head? = some '$'
      · obtain ⟨ds, rfl⟩ := List.head?_eq_some_iff.mp h
        rfl
      · rw [macroVar?_dollar h, macroVar?_dollar (mt (head?_capitals (by decide)).mp h),
          Pattern.ignoresCase_afterFirst isNameChar_toUpper]
    · by_cases hh : c = '#'
      · subst hh
        show macroVar? ('#' :: capitals cs) = _
        by_cases h : cs.head? = some '['
        · obtain ⟨ds, rfl⟩ := List.head?_eq_some_iff.mp h
          have hclose : ']' ∈ capitals ds ↔ ']' ∈ ds := mem_capitals (by decide)
          have hwidth : leading (· != ']') (capitals ds) = leading (· != ']') ds :=
            leading_capitals (fun c => congrArg not (beq_toUpper (by decide) c)) ds
          show macroVar? ('#' :: '[' :: capitals ds) = _
          simp only [macroVar?, hclose, hwidth]
        · rw [macroVar?_hash h, macroVar?_hash (mt (head?_capitals (by decide)).mp h),
            Pattern.ignoresCase_afterFirst isDigit_toUpper]
      · rw [macroVar?_of_head cs hd hh]
        exact macroVar?_of_head _ (mt (toUpper_eq_iff (by decide)).mp hd)
          (mt (toUpper_eq_iff (by decide)).mp hh)

theorem ignoresCase_address? : address?.IgnoresCase := by
  intro cs
  cases cs with
  | nil => rfl
  | cons c cs =>
    show address? (c.toUpper :: capitals cs) = _
    rw [address?, isLetter_toUpper, Pattern.ignoresCase_afterFirst isNumberChar_toUpper, address?]

theorem repetition?_of_head {c : Char} (r : List Char) (hc : c ≠ '*') :
    repetition? (c :: r) = none := by
  unfold repetition?
  split <;> simp_all

theorem ignoresCase_repetition? : repetition?.IgnoresCase := by
  intro cs
  cases cs with
  | nil => rfl
  | cons c cs =>
    by_cases hc : c = '*'
    · subst hc
      exact Pattern.ignoresCase_afterFirst isDigit_toUpper _ cs
    · rw [repetition?_of_head cs hc]
      exact repetition?_of_head _ (mt (toUpper_eq_iff (by decide)).mp hc)

theorem ignoresCase_any? : any?.IgnoresCase :=
  ((ignoresCase_keyword?.orElse ignoresCase_macroVar?).orElse ignoresCase_address?).orElse
    ignoresCase_repetition?

end WordKind

theorem ToolChange.ignoresCase_pattern : pattern.IgnoresCase := by
  intro cs
  match cs with
  | [] => rfl
  | [c] => rfl
  | c :: d :: cs =>
    by_cases h6 : d = '6'
    · subst h6
      show pattern (c.toUpper :: '6' :: capitals cs) = _
      rw [pattern, foldCase_toUpper, pattern]
    · have h6' : d.toUpper ≠ '6' := mt (toUpper_eq_iff (by decide)).mp h6
      by_cases h0 : d = '0'
      · subst h0
        cases cs with
        | nil => rfl
        | cons e cs =>
          by_cases he : e = '6'
          · subst he
            show pattern (c.toUpper :: '0' :: '6' :: capitals cs) = _
            rw [pattern, foldCase_toUpper, pattern]
          · rw [pattern_of_third cs he]
            exact pattern_of_third _ (mt (toUpper_eq_iff (by decide)).mp he)
      · rw [pattern_of_second cs h6 h0]
        exact pattern_of_second _ h6' (mt (toUpper_eq_iff (by decide)).mp h0)

namespace LengthUnit

theorem ofDigits?_capitals (cs : List Char) : ofDigits? (capitals cs) = ofDigits? cs := by
  cases cs with
  | nil => rfl
  | cons c cs =>
    by_cases hc : c = '2'
    · subst hc
      match cs with
      | [] => rfl
      | [d] =>
        show ofDigits? ['2', d.toUpper] = _
        simp only [ofDigits?, toUpper_eq_iff (by decide : '0'.isAlpha = false),
          toUpper_eq_iff (by decide : '1'.isAlpha = false)]
      | d :: e :: cs =>
        show ofDigits? ('2' :: d.toUpper :: e.toUpper :: capitals cs) = _
        simp only [ofDigits?, isDigit_toUpper, beq_toUpper (by decide : '.'.isAlpha = false),
          toUpper_eq_iff (by decide : '0'.isAlpha = false),
          toUpper_eq_iff (by decide : '1'.isAlpha = false)]
    · rw [ofDigits?_of_first cs hc]
      exact ofDigits?_of_first _ (mt (toUpper_eq_iff (by decide)).mp hc)

theorem ignoresCase_code? : code?.IgnoresCase := by
  intro cs
  cases cs with
  | nil => rfl
  | cons c cs =>
    have hzero := beq_toUpper (by decide : '0'.isAlpha = false)
    show code? (c.toUpper :: capitals cs) = _
    rw [code?, foldCase_toUpper, dropWhile_capitals hzero, ofDigits?_capitals,
      leading_capitals hzero, code?]

end LengthUnit

theorem head_capitals {p : Char → Bool} (h : ∀ c, p c.toUpper = p c) {cs : List Char}
    (hcs : ∀ c ∈ cs.head?, p c = false) : ∀ c ∈ (capitals cs).head?, p c = false := by
  cases cs with
  | nil => simp [capitals]
  | cons c cs =>
    intro d hd
    rw [← Option.some.inj hd, h]
    exact hcs c rfl

theorem fractionWidth_capitals (cs : List Char) :
    fractionWidth (capitals cs) = fractionWidth cs := by
  cases cs with
  | nil => rfl
  | cons c cs =>
    by_cases hc : c = '.'
    · subst hc
      show fractionWidth ('.' :: capitals cs) = _
      rw [fractionWidth, leading_capitals isDigit_toUpper, fractionWidth]
    · rw [fractionWidth_of_ne cs hc]
      exact fractionWidth_of_ne _ (mt (toUpper_eq_iff (by decide)).mp hc)

theorem ignoresCase_hoverCode? : hoverCode?.IgnoresCase := by
  intro cs
  cases cs with
  | nil => rfl
  | cons c cs =>
    have hc := Char.isAlpha_toUpper_eq_isAlpha c
    show hoverCode? (c.toUpper :: capitals cs) = _
    cases ha : c.isAlpha with
    | false =>
      rw [hoverCode?_of_isAlpha_false _ ha, hoverCode?_of_isAlpha_false _ (hc.trans ha)]
    | true =>
      obtain ⟨ds, rest, rfl, hds, hrest⟩ := exists_digits cs
      have hrest' := head_capitals isDigit_toUpper hrest
      have hds' : capitals ds = ds := map_eq_self fun d hd =>
        toUpper_of_isAlpha_false (isAlpha_false_of_isDigit (hds d hd))
      have happend : capitals (ds ++ rest) = ds ++ capitals rest := by
        rw [capitals, List.map_append, ← capitals, hds', capitals]
      rw [happend]
      by_cases hn : ds = []
      · subst hn
        rw [List.nil_append, List.nil_append, hoverCode?_of_head hrest',
          hoverCode?_of_head hrest]
      · rw [hoverCode?_digits (hc.trans ha) hn hds hrest', hoverCode?_digits ha hn hds hrest,
          fractionWidth_capitals]

end Gcode

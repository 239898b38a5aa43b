import Gcode.Proofs.JoinedPrograms
import Gcode.Proofs.LineEndings

/-! A text in pieces: lines with the terminators that end them, and what stands behind the last
terminator. There is one way to cut a text like this, nothing of it is lost, and the lines of a
program are its pieces with the blank ones left out. -/
namespace Gcode

structure EndedLine where
  text : List Char
  ending : LineEnding
deriving DecidableEq, Repr

def EndedLine.chars (l : EndedLine) : List Char := l.text ++ l.ending.chars

/-- A text is cut at each of its terminators and nowhere else. A carriage return is a terminator
on its own only if no line feed follows it. -/
inductive CutInto : List Char → List EndedLine → List Char → Prop
  | last {rest : List Char} (hrest : ∀ c ∈ rest, ¬IsBreak c) : CutInto rest [] rest
  | line {l : EndedLine} {cs rest : List Char} {ls : List EndedLine}
      (hl : ∀ c ∈ l.text, ¬IsBreak c)
      (hwhole : l.ending = .carriageReturn → cs.head? ≠ some '\n') (h : CutInto cs ls rest) :
      CutInto (l.chars ++ cs) (l :: ls) rest

def pieces (ls : List EndedLine) (rest : List Char) : List (List Char) :=
  ls.map (·.text) ++ if rest = [] then [] else [rest]

theorem trimBlanks_eq_nil_iff {cs : List Char} : trimBlanks cs = [] ↔ cs.all isBlank = true := by
  simp only [trimBlanks, List.reverse_eq_nil_iff, List.dropWhile_eq_nil_iff, List.mem_reverse,
    List.all_eq_true]
  constructor
  · intro h c hc
    cases hb : isBlank c with
    | true => rfl
    | false => exact absurd (h c (mem_dropWhile_of_neg hb hc)) (by simp [hb])
  · exact fun h c hc => h c ((List.dropWhile_sublist _).mem hc)

namespace LineEnding

theorem isBreak_head? (ending : LineEnding) (cs : List Char) :
    ∀ c ∈ (ending.chars ++ cs).head?, IsBreak c := by
  cases ending <;> simp [chars, IsBreak]

theorem chars_append_ne_nil (ending : LineEnding) (cs : List Char) : ending.chars ++ cs ≠ [] := by
  cases ending <;> simp [chars]

theorem afterBreak_chars {ending : LineEnding} {cs : List Char}
    (h : ending = .carriageReturn → cs.head? ≠ some '\n') :
    afterBreak (ending.chars ++ cs) = cs := by
  cases ending with
  | feed => rfl
  | returnFeed => rfl
  | carriageReturn =>
    cases cs with
    | nil => rfl
    | cons c cs =>
      have hc : c ≠ '\n' := fun e => h rfl (congrArg some e)
      simp [chars, afterBreak, hc]

theorem eq_of_append {e e' : LineEnding} {cs cs' : List Char}
    (h : e = .carriageReturn → cs.head? ≠ some '\n')
    (h' : e' = .carriageReturn → cs'.head? ≠ some '\n')
    (he : e.chars ++ cs = e'.chars ++ cs') : e = e' ∧ cs = cs' := by
  have hcs : cs = cs' := by rw [← afterBreak_chars h, he, afterBreak_chars h']
  subst hcs
  have hchars : e.chars = e'.chars := List.append_cancel_right he
  refine ⟨?_, rfl⟩
  cases e <;> cases e' <;> simp_all [chars]

end LineEnding

namespace CutInto
variable {cs rest rest' : List Char} {ls ls' : List EndedLine}

/-- The pieces and their terminators are the whole text. -/
theorem eq_flatMap (h : CutInto cs ls rest) : cs = ls.flatMap EndedLine.chars ++ rest := by
  induction h with
  | last => rfl
  | line _ _ _ ih => rw [List.flatMap_cons, List.append_assoc, ← ih]

theorem cons {c : Char} (h : CutInto cs ls rest) (hc : ¬IsBreak c) :
    ∃ ls' rest', CutInto (c :: cs) ls' rest' := by
  cases h with
  | last hrest => exact ⟨[], c :: cs, .last (List.forall_mem_cons.mpr ⟨hc, hrest⟩)⟩
  | @line l cs rest ls hl hwhole h =>
    let l' : EndedLine := { l with text := c :: l.text }
    exact ⟨l' :: ls, rest, .line (l := l') (List.forall_mem_cons.mpr ⟨hc, hl⟩) hwhole h⟩

/-- Every text can be cut. -/
theorem exists_lines (cs : List Char) : ∃ ls rest, CutInto cs ls rest := by
  have empty (ending : LineEnding) {cs rest : List Char} {ls : List EndedLine}
      (hwhole : ending = .carriageReturn → cs.head? ≠ some '\n') (h : CutInto cs ls rest) :
      ∃ ls' rest', CutInto (ending.chars ++ cs) ls' rest' :=
    ⟨⟨[], ending⟩ :: ls, rest, .line (l := ⟨[], ending⟩) (by simp) hwhole h⟩
  fun_induction terminators cs with
  | case1 => exact ⟨[], [], .last (by simp)⟩
  | case2 cs ih =>
    obtain ⟨ls, rest, h⟩ := ih
    exact empty .returnFeed (by simp) h
  | case3 c cs hr hb ih =>
    obtain ⟨ls, rest, h⟩ := ih
    obtain rfl | rfl := hb
    · exact empty .feed (by simp) h
    · exact empty .carriageReturn (fun _ => head?_ne_some fun ds => hr ds rfl) h
  | case4 c cs hr hb ih =>
    obtain ⟨ls, rest, h⟩ := ih
    exact h.cons hb

theorem cutLines_eq (h : CutInto cs ls rest) : cutLines cs = pieces ls rest := by
  induction h with
  | @last rest hrest =>
    have hcut := @cutLines_line rest [] hrest (by simp)
    rw [List.append_nil] at hcut
    rw [hcut]
    by_cases he : rest = [] <;> simp [pieces, cutLines, afterBreak, he]
  | @line l cs rest ls hl hwhole h ih =>
    rw [EndedLine.chars, List.append_assoc, cutLines_line hl (l.ending.isBreak_head? cs),
      if_neg fun he => l.ending.chars_append_ne_nil cs he.2, LineEnding.afterBreak_chars hwhole, ih]
    rfl

/-- The first line of a text ends where its first terminator begins. -/
theorem front_inj {l l' after after' : List Char} (hl : ∀ c ∈ l, ¬IsBreak c)
    (hl' : ∀ c ∈ l', ¬IsBreak c) (ha : ∀ c ∈ after.head?, IsBreak c)
    (ha' : ∀ c ∈ after'.head?, IsBreak c) (h : l ++ after = l' ++ after') :
    l = l' ∧ after = after' :=
  append_inj_of_head (p := fun c => decide ¬IsBreak c) (by simpa using hl) (by simpa using hl')
    (by simpa using ha) (by simpa using ha') h

/-- Two ways to cut a text have the same first line with the same terminator, and so on. -/
theorem eq (h : CutInto cs ls rest) (h' : CutInto cs ls' rest') : ls' = ls ∧ rest' = rest := by
  induction h generalizing ls' rest' with
  | @last rest hrest =>
    rw [← List.append_nil rest] at h'
    generalize he : rest ++ [] = ds at h'
    cases h' with
    | last => exact ⟨rfl, by simpa using he.symm⟩
    | @line l cs _ ls hl hwhole h =>
      -- A terminator in a text that has none.
      rw [EndedLine.chars, List.append_assoc] at he
      obtain ⟨-, hbehind⟩ := front_inj hrest hl (by simp) (l.ending.isBreak_head? cs) he
      exact absurd hbehind.symm (l.ending.chars_append_ne_nil cs)
  | @line l cs rest ls hl hwhole _ ih =>
    generalize he : l.chars ++ cs = ds at h'
    rw [EndedLine.chars, List.append_assoc] at he
    cases h' with
    | last hrest =>
      rw [← List.append_nil rest'] at he
      obtain ⟨-, hbehind⟩ := front_inj hl hrest (l.ending.isBreak_head? cs) (by simp) he
      exact absurd hbehind (l.ending.chars_append_ne_nil cs)
    | @line l' cs' rest' ls' hl' hwhole' h' =>
      rw [EndedLine.chars, List.append_assoc] at he
      obtain ⟨htext, hbehind⟩ :=
        front_inj hl hl' (l.ending.isBreak_head? cs) (l'.ending.isBreak_head? cs') he
      obtain ⟨hending, rfl⟩ := LineEnding.eq_of_append hwhole hwhole' hbehind
      obtain ⟨rfl, rfl⟩ := ih h'
      have hl : l' = l := by
        cases l
        cases l'
        simp_all
      exact ⟨congrArg (· :: ls') hl, rfl⟩

end CutInto

namespace Line

theorem number_eq_zipIdx (index : Nat) (ls : List (List Char)) :
    number index ls = (ls.zipIdx index).map fun (l, i) => ⟨i, String.ofList l⟩ := by
  induction ls generalizing index with
  | nil => rfl
  | cons l ls ih => rw [number, ih, List.zipIdx_cons, List.map_cons]

theorem ofText_eq_zipIdx (text : String) :
    ofText text = ((cutLines text.toList).zipIdx.filter fun (l, _) => trimBlanks l ≠ []).map
      fun (l, i) => ⟨i, String.ofList l⟩ := by
  have hblank : (fun line : Line => !line.isBlank) ∘
      (fun (l, i) => ⟨i, String.ofList l⟩ : List Char × Nat → Line) =
        fun (l, _) => decide (trimBlanks l ≠ []) := by
    funext p
    rw [Bool.eq_iff_iff]
    simp [isBlank, trimBlanks_eq_nil_iff]
  rw [ofText, all, number_eq_zipIdx, List.filter_map, hblank]

theorem pairwise_ofText (text : String) : (ofText text).Pairwise (·.index < ·.index) := by
  rw [ofText_eq_filterMap (Nat.le_refl _), List.pairwise_filterMap]
  apply List.pairwise_lt_range.imp
  intro i j hij line hline line' hline'
  rw [index_of_at? hline, index_of_at? hline']
  exact hij

/-- A text is cut at its terminators in exactly one way, and pieces and terminators make up the
whole of it. Its lines are the pieces that are not blank after trimming, in their order. A piece,
and the line that it is, has the number of the terminators in front of it. -/
theorem ofText_pieces (text : String) :
    ∃ ls rest, CutInto text.toList ls rest ∧
      (∀ ls' rest', CutInto text.toList ls' rest' → ls' = ls ∧ rest' = rest) ∧
      text.toList = ls.flatMap EndedLine.chars ++ rest ∧
      (∀ i l, (pieces ls rest)[i]? = some l → ∃ before after,
        text.toList = before ++ l ++ after ∧ IsLine before l after ∧ terminators before = i) ∧
      ofText text = ((pieces ls rest).zipIdx.filter fun (l, _) => trimBlanks l ≠ []).map
        (fun (l, i) => ⟨i, String.ofList l⟩) ∧
      (∀ line ∈ ofText text, '\n' ∉ line.text.toList ∧ '\r' ∉ line.text.toList) ∧
      (ofText text).Pairwise (·.index < ·.index) := by
  obtain ⟨ls, rest, h⟩ := CutInto.exists_lines text.toList
  have hplace : ∀ i l, (pieces ls rest)[i]? = some l → ∃ before after,
      text.toList = before ++ l ++ after ∧ IsLine before l after ∧ terminators before = i := by
    intro i l hi
    rw [← h.cutLines_eq] at hi
    obtain ⟨before, after, he, hl, rfl⟩ := exists_isLine hi
    have hbreak : ∀ c ∈ before.getLast?, IsBreak c := fun c hc =>
      (hl.start c hc).imp_right And.left
    exact ⟨before, after, he, hl, (length_cutLines hbreak).symm⟩
  have hlines := ofText_eq_zipIdx text
  rw [h.cutLines_eq] at hlines
  refine ⟨ls, rest, h, fun ls' rest' h' => h.eq h', h.eq_flatMap, hplace, hlines, ?_,
    pairwise_ofText text⟩
  intro line hline
  rw [hlines] at hline
  obtain ⟨⟨l, i⟩, hl, rfl⟩ := List.mem_map.mp hline
  have hi := List.mem_zipIdx_iff_getElem?.mp (List.mem_filter.mp hl).1
  obtain ⟨_, _, -, hpiece, -⟩ := hplace i l hi
  rw [String.toList_ofList]
  exact ⟨fun hm => hpiece.inside _ hm (.inl rfl), fun hm => hpiece.inside _ hm (.inr rfl)⟩

end Line
end Gcode

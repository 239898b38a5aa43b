import Gcode.CycleTime
import Gcode.Outline
import Gcode.Proofs.CommentRemoval
import Gcode.Proofs.LineCutting

/-! Comments and spacing say nothing: a line may be given either without any change of what is
made of the program. -/
namespace Gcode

/-- Putting a comment, a remark or white space into a line, or taking white space out of it. The
comment may not stand in an open one, and the remark may not close one. -/
inductive NeutralEdit : List Char → List Char → Prop where
  | comment (a c b : List Char) (ha : '(' ∉ dropClosed false a) (hc : ')' ∉ c)
      (hb : ∀ d ∈ c, ¬IsBreak d) : NeutralEdit (a ++ b) (a ++ '(' :: (c ++ ')' :: b))
  | remark (l t : List Char) (ha : '(' ∉ dropClosed false l ∨ ')' ∉ t)
      (hb : ∀ d ∈ t, ¬IsBreak d) : NeutralEdit l (l ++ ';' :: t)
  | insert (a w b : List Char) (hw : w.all isBlank = true) (hb : ∀ d ∈ w, ¬IsBreak d) :
      NeutralEdit (a ++ b) (a ++ w ++ b)
  | delete (a w b : List Char) (hw : w.all isBlank = true) (hb : ∀ d ∈ w, ¬IsBreak d) :
      NeutralEdit (a ++ w ++ b) (a ++ b)

theorem notMem_feed {l : List Char} (h : ∀ c ∈ l, ¬IsBreak c) : '\n' ∉ l :=
  fun hm => h '\n' hm (.inl rfl)

/-- Within one line white space may as well go first. -/
theorem withoutComments_eq_filter {cs : List Char} (h : '\n' ∉ cs) :
    withoutComments cs =
      (dropClosed false (cs.filter (!isBlank ·))).takeWhile (· != ';') := by
  have hp : (fun c => !!isBlank c || c != ';') = (· != ';') := by
    funext c
    by_cases hc : c = ';'
    · subst hc
      rfl
    · simp [hc]
  rw [withoutComments_eq h, dropClosed_filter (by decide) (by decide), List.takeWhile_filter, hp]

theorem withoutComments_spaced {a w b : List Char} (hw : w.all isBlank = true)
    (h : '\n' ∉ a ++ w ++ b) : withoutComments (a ++ w ++ b) = withoutComments (a ++ b) := by
  have hf : w.filter (!isBlank ·) = [] := by
    simpa [List.filter_eq_nil_iff] using hw
  have h' : '\n' ∉ a ++ b := by
    simp only [List.mem_append, not_or] at h ⊢
    exact ⟨h.1.1, h.2⟩
  rw [withoutComments_eq_filter h, withoutComments_eq_filter h', List.filter_append,
    List.filter_append, hf, List.append_nil, List.filter_append]

namespace NeutralEdit
variable {l l' : List Char}

theorem inside (he : NeutralEdit l l') (hl : ∀ c ∈ l, ¬IsBreak c) : ∀ c ∈ l', ¬IsBreak c := by
  cases he with
  | comment a c b ha hc hb =>
    simp only [List.forall_mem_append, List.forall_mem_cons] at hl ⊢
    exact ⟨hl.1, by decide, hb, by decide, hl.2⟩
  | remark l t ha hb =>
    simp only [List.forall_mem_append, List.forall_mem_cons]
    exact ⟨hl, by decide, hb⟩
  | insert a w b hw hb =>
    simp only [List.forall_mem_append] at hl ⊢
    exact ⟨⟨hl.1, hb⟩, hl.2⟩
  | delete a w b hw hb =>
    simp only [List.forall_mem_append] at hl ⊢
    exact ⟨hl.1.1, hl.2⟩

theorem withoutComments_eq (he : NeutralEdit l l') (hl : ∀ c ∈ l, ¬IsBreak c) :
    withoutComments l' = withoutComments l := by
  have hn := notMem_feed hl
  have hn' := notMem_feed (he.inside hl)
  cases he with
  | comment a c b ha hc hb =>
    have hd : dropClosed false (a ++ '(' :: (c ++ ')' :: b)) = dropClosed false (a ++ b) := by
      rw [dropClosed_append_closed _ (by simp) ha, dropClosed_append_closed _ (by simp) ha,
        dropClosed_comment b hc]
    rw [withoutComments, hd, withoutComments]
  | remark l t ha hb =>
    -- Either no comment is open before the remark, or the remark cannot close it.
    rw [Gcode.withoutComments_eq hn, Gcode.withoutComments_eq hn']
    rcases ha with ha | ht
    · have hs : dropClosed false (';' :: t) = ';' :: dropClosed false t := by simp [dropClosed]
      rw [dropClosed_append_closed _ (by simp) ha, hs, takeWhile_append_cons_neg (by decide)]
    · rw [dropClosed_append_of_notMem (by simp) (by simpa using ht),
        takeWhile_append_cons_neg (by decide)]
  | insert a w b hw hb => exact withoutComments_spaced hw hn'
  | delete a w b hw hb => exact (withoutComments_spaced hw hn).symm

end NeutralEdit

def Entry.heading (e : Entry) : String × String × EntryKind × Nat :=
  (e.label, e.tooltip, e.kind, e.line)

namespace Block
variable {block block' : Block}

/-- Labels are made from words alone. -/
theorem render_congr (hw : block.words = block'.words) (rule : LabelRule) (position : Nat)
    (w : Word) : rule.render block position w = rule.render block' position w := by
  have hn (offset : Int) :
      block.neighbour? position offset = block'.neighbour? position offset := by
    rw [neighbour?, neighbour?, hw]
  cases rule with
  | fixed text => rfl
  | offset => rfl
  | indexedOffset => simp only [LabelRule.render, hn]
  | spindle direction => simp only [LabelRule.render, hn]

theorem headings_congr (hw : block.words = block'.words) (hi : block.index = block'.index) :
    block.entries.map Entry.heading = block'.entries.map Entry.heading := by
  have he (w : Word) (position : Nat) : (block.entryAt? position w).map Entry.heading =
      (block'.entryAt? position w).map Entry.heading := by
    cases hm : Meaning.ofWord? w with
    | none => simp [entryAt?, hm]
    | some meaning => simp [entryAt?, hm, Entry.heading, hi, render_congr hw]
  simp only [entries, List.map_filterMap, hw, he]

/-- A blank line has no words, so it does not matter that it makes no block. -/
theorem entries_of_line (line : Line) :
    (([line].filter (!·.isBlank)).map ofLine).flatMap entries = (ofLine line).entries := by
  cases hb : line.isBlank with
  | false => simp [hb]
  | true =>
    have hw : Word.ofChars line.index [] = [] := rfl
    rw [entries, ofLine, withoutComments_blank hb, hw]
    simp [hb]

end Block

/-- The lines of a text that are not blank, around one of its lines. -/
theorem Line.ofText_eq {before l after : List Char} (hs : StartsLine before (l ++ after))
    (hl : ∀ c ∈ l, ¬IsBreak c) (ha : ∀ c ∈ after.head?, IsBreak c) :
    Line.ofText (String.ofList (before ++ l ++ after)) =
      (number 0 (cutLines before)).filter (!·.isBlank) ++
        [Line.mk (cutLines before).length (String.ofList l)].filter (!·.isBlank) ++
        (number ((cutLines before).length + 1) (cutLines (afterBreak after))).filter
          (!·.isBlank) := by
  rw [ofText, all, String.toList_ofList, List.append_assoc, cutLines_append hs, number_append,
    cutLines_line hl ha, Nat.zero_add]
  split
  · rename_i he
    obtain ⟨rfl, rfl⟩ := he
    simp [number, isBlank, afterBreak, cutLines]
  · rw [number, ← List.singleton_append, List.filter_append, List.filter_append,
      List.append_assoc]

theorem CycleTime.run_congr {blocks blocks' : List Block}
    (h : blocks.map (·.words) = blocks'.map (·.words)) (t : CycleTime) :
    t.run blocks = t.run blocks' := by
  rw [run_eq_foldl, run_eq_foldl, h]

/-- A line that a neutral edit does not empty still starts where it started. -/
theorem NeutralEdit.start {before l l' after : List Char} (he : NeutralEdit l l')
    (hl : IsLine before l after)
    (hj : l' = [] → before.getLast? = some '\r' → after.head? ≠ some '\n') :
    StartsLine before (l' ++ after) := by
  intro c hc
  rcases hl.start c hc with rfl | ⟨rfl, -⟩
  · exact .inl rfl
  · refine .inr ⟨rfl, ?_⟩
    cases hl' : l' with
    | nil => exact hj hl' hc
    | cons d ds =>
      have hd := he.inside hl.inside d (hl' ▸ List.mem_cons_self)
      exact fun h => hd (.inl (Option.some.inj h))

/-- A neutral edit of a line changes no label, tooltip, kind or line number of an outline. Nor does
it change the machining time, unless only one of the two lines is blank. The one exception is an
emptied line between a carriage return and a line feed, which then are one terminator. -/
theorem NeutralEdit.analysis_eq {before l l' after : List Char} (hl : IsLine before l after)
    (he : NeutralEdit l l')
    (hj : l' = [] → before.getLast? = some '\r' → after.head? ≠ some '\n') :
    (outline (String.ofList (before ++ l' ++ after))).map Entry.heading =
        (outline (String.ofList (before ++ l ++ after))).map Entry.heading ∧
      (l.all isBlank = l'.all isBlank →
        CycleTime.ofText (String.ofList (before ++ l' ++ after)) =
          CycleTime.ofText (String.ofList (before ++ l ++ after))) := by
  have hcut := Line.ofText_eq hl.start hl.inside hl.stop
  have hcut' := Line.ofText_eq (he.start hl hj) (he.inside hl.inside) hl.stop
  have hw : (Block.ofLine ⟨(cutLines before).length, String.ofList l'⟩).words =
      (Block.ofLine ⟨(cutLines before).length, String.ofList l⟩).words := by
    simp only [Block.ofLine, String.toList_ofList, he.withoutComments_eq hl.inside]
  constructor
  · have hh := Block.headings_congr hw rfl
    simp only [outline, Block.ofText, hcut, hcut', List.map_append, List.flatMap_append,
      Block.entries_of_line]
    rw [hh]
  · intro hb
    have hr : (([Line.mk (cutLines before).length (String.ofList l')].filter
          (!·.isBlank)).map Block.ofLine).map (·.words) =
        (([Line.mk (cutLines before).length (String.ofList l)].filter
          (!·.isBlank)).map Block.ofLine).map (·.words) := by
      cases hb' : l.all isBlank <;> simp [Line.isBlank, hb', ← hb, hw]
    unfold CycleTime.ofText
    rw [CycleTime.run_congr]
    simp only [Block.ofText, hcut, hcut', List.map_append, hr]

theorem NeutralEdit.analysis_eq_code_in_comment :
    let before := ['G', '0', '\r', '\n']
    let l := ['M'] ++ ['3', ' ', 'S', '9']
    let l' := ['M'] ++ '(' :: (['G', '1', ';', '('] ++ ')' :: ['3', ' ', 'S', '9'])
    let after := ['\r', 'G', '1']
    (IsLine before l after ∧ NeutralEdit l l' ∧ l' ≠ [] ∧ l.all isBlank = l'.all isBlank) ∧
      (outline (String.ofList (before ++ l' ++ after))).map Entry.heading =
        (outline (String.ofList (before ++ l ++ after))).map Entry.heading ∧
      CycleTime.ofText (String.ofList (before ++ l' ++ after)) =
        CycleTime.ofText (String.ofList (before ++ l ++ after)) := by
  intro before l l' after
  have hl : IsLine before l after := ⟨by simp [before, StartsLine], by simp [l, IsBreak],
    by simp [after, IsBreak], by simp [l]⟩
  have he : NeutralEdit l l' := .comment _ _ _ (by decide) (by decide) (by simp [IsBreak])
  have hb : l.all isBlank = l'.all isBlank := by decide
  have h := he.analysis_eq hl (by simp [l'])
  exact ⟨⟨hl, he, by simp [l'], hb⟩, h.1, h.2 hb⟩

/-- Deleting the space of a line between a carriage return and a line feed joins the two, and all
lines below move up. -/
theorem NeutralEdit.exists_moved_line :
    ¬∀ before l l' after : List Char, IsLine before l after → NeutralEdit l l' →
      (outline (String.ofList (before ++ l' ++ after))).map Entry.heading =
          (outline (String.ofList (before ++ l ++ after))).map Entry.heading ∧
        (l.all isBlank = false → l'.all isBlank = false →
          CycleTime.ofText (String.ofList (before ++ l' ++ after)) =
            CycleTime.ofText (String.ofList (before ++ l ++ after))) := by
  intro h
  have hl : IsLine ['G', '0', '\r'] [' '] ['\n', 'M', '6'] := ⟨by simp [StartsLine],
    by simp [IsBreak], by simp [IsBreak], by simp⟩
  have he : NeutralEdit [' '] [] := .delete [] [' '] [] (by decide) (by simp [IsBreak])
  exact absurd (h _ _ _ _ hl he).1 (by decide +kernel)

end Gcode

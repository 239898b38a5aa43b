import Gcode.Proofs.WordGrammar
import Gcode.Proofs.WordPrograms

/-! The tokenizer reads a text as words with gaps between them. Each word is as long as it can be,
no word begins in a gap, and there is only one way to read a text like this. -/
namespace Gcode

structure Piece where
  gap : List Char
  kind : WordKind
  first : Char
  rest : List Char
deriving DecidableEq, Repr

namespace Piece

def text (p : Piece) : List Char := p.first :: p.rest

def chars (p : Piece) : List Char := p.gap ++ p.text

theorem ext_text {p q : Piece} (hgap : p.gap = q.gap) (hkind : p.kind = q.kind)
    (htext : p.text = q.text) : p = q := by
  cases p
  cases q
  obtain ⟨hfirst, hrest⟩ := List.cons.inj htext
  exact (mk.injEq ..).mpr ⟨hgap, hkind, hfirst, hrest⟩

def word (line : Nat) (p : Piece) : Word :=
  ⟨p.first.toUpper, String.ofList (p.rest.map Char.toUpper), line, p.kind⟩

end Piece

/-- No word begins within a gap, whatever part of the text behind the gap it would take. -/
def IsGap (gap behind : List Char) : Prop :=
  ∀ s, s <:+ gap → s ≠ [] → ∀ kind, ¬Opens kind (s ++ behind)

/-- The text is the pieces in their order and a last gap. The word of a piece is the longest that
can stand in its place, and no word of another kind can stand there. -/
inductive FallsInto : List Char → List Piece → List Char → Prop
  | last {gap : List Char} (hgap : IsGap gap []) : FallsInto gap [] gap
  | piece {p : Piece} {cs : List Char} {ps : List Piece} {last : List Char}
      (hgap : IsGap p.gap (p.text ++ cs)) (hword : IsLongest p.kind p.text (p.text ++ cs))
      (honly : ∀ kind, Opens kind (p.text ++ cs) → kind = p.kind) (h : FallsInto cs ps last) :
      FallsInto (p.gap ++ (p.text ++ cs)) (p :: ps) last

namespace IsGap
variable {c : Char} {gap gap' behind behind' : List Char}

theorem nil (behind : List Char) : IsGap [] behind := fun _ hs hn =>
  absurd (List.suffix_nil.mp hs) hn

theorem cons (h : IsGap gap behind) (hc : ∀ kind, ¬Opens kind (c :: (gap ++ behind))) :
    IsGap (c :: gap) behind := by
  intro s hs hn
  rcases List.suffix_cons_iff.mp hs with rfl | hs
  · exact hc
  · exact h s hs hn

theorem tail (h : IsGap (c :: gap) behind) : IsGap gap behind := fun s hs hn =>
  h s (hs.trans (List.suffix_cons c gap)) hn

theorem ofChars_eq (h : IsGap gap behind) (line : Nat) :
    Word.ofChars line (gap ++ behind) = Word.ofChars line behind := by
  induction gap with
  | nil => rfl
  | cons c gap ih =>
    have hnone : WordKind.any? (c :: (gap ++ behind)) = none :=
      WordKind.any?_eq_none_iff.mpr (h (c :: gap) (List.suffix_refl _) (List.cons_ne_nil c gap))
    rw [List.cons_append, Word.ofChars_cons line hnone, ih h.tail]

theorem not_opens (h : IsGap (gap ++ behind) []) {kind : WordKind} : ¬Opens kind behind :=
  fun hopens => by
    have hnone := h behind (List.suffix_append gap behind) hopens.ne_nil kind
    rw [List.append_nil] at hnone
    exact hnone hopens

/-- A gap does not reach over the beginning of a word. -/
theorem length_le (h : IsGap gap behind) (he : gap ++ behind = gap' ++ behind') {kind : WordKind}
    (hopens : Opens kind behind') : gap.length ≤ gap'.length := by
  by_contra hlt
  obtain ⟨s, rfl, rfl⟩ | ⟨s, rfl, rfl⟩ := List.append_eq_append_iff.mp he
  · rw [List.length_append] at hlt
    omega
  · refine h s (List.suffix_append gap' s) (fun hs => hlt ?_) kind hopens
    rw [hs, List.append_nil]

end IsGap

namespace FallsInto
variable {c : Char} {cs last last' : List Char} {ps ps' : List Piece}

theorem eq_flatMap (h : FallsInto cs ps last) : cs = ps.flatMap Piece.chars ++ last := by
  induction h with
  | last => rfl
  | @piece p cs ps last _ _ _ _ ih =>
    rw [List.flatMap_cons, Piece.chars, List.append_assoc, List.append_assoc, ← ih]

theorem cons (h : FallsInto cs ps last) (hc : ∀ kind, ¬Opens kind (c :: cs)) :
    ∃ ps' last', FallsInto (c :: cs) ps' last' := by
  cases h with
  | last hgap =>
    exact ⟨[], c :: cs, .last (hgap.cons (by simpa using hc))⟩
  | @piece p cs ps last hgap hword honly h =>
    let q : Piece := { p with gap := c :: p.gap }
    have hq : IsGap q.gap (q.text ++ cs) := hgap.cons hc
    exact ⟨q :: ps, last, .piece hq hword honly h⟩

theorem append {kind : WordKind} {t : List Char} (h : FallsInto cs ps last)
    (ht : IsLongest kind t (t ++ cs)) : ∃ ps' last', FallsInto (t ++ cs) ps' last' := by
  obtain ⟨c, d, r, rfl, -⟩ := ht.word.exists_kindOf
  let p : Piece := ⟨[], kind, c, d :: r⟩
  have hgap : IsGap p.gap (p.text ++ cs) := .nil _
  exact ⟨p :: ps, last, .piece hgap ht (fun _ hopens => hopens.kind_eq ht.opens) h⟩

/-- Every text falls into words and gaps. -/
theorem exists_pieces (cs : List Char) : ∃ ps last, FallsInto cs ps last := by
  induction hlen : cs.length using Nat.strong_induction_on generalizing cs with
  | _ n ih =>
    cases cs with
    | nil => exact ⟨[], [], .last (.nil [])⟩
    | cons c cs =>
      cases hany : WordKind.any? (c :: cs) with
      | none =>
        obtain ⟨ps, last, h⟩ := ih cs.length (by rw [← hlen]; exact Nat.lt_succ_self _) cs rfl
        exact h.cons (WordKind.any?_eq_none_iff.mp hany)
      | some x =>
        obtain ⟨t, ht, -⟩ := WordKind.isLongest_of_any? hany
        obtain ⟨r, he⟩ := ht.front
        rw [← he] at ht hlen ⊢
        have hpos : t ≠ [] := by
          obtain ⟨c, d, r, rfl, -⟩ := ht.word.exists_kindOf
          exact List.cons_ne_nil _ _
        have hlt : r.length < n := by
          rw [← hlen, List.length_append]
          exact Nat.lt_add_of_pos_left (List.length_pos_iff.mpr hpos)
        obtain ⟨ps, last, h⟩ := ih r.length hlt r rfl
        exact h.append ht

theorem ofChars_eq (h : FallsInto cs ps last) (line : Nat) :
    Word.ofChars line cs = ps.map (Piece.word line) := by
  induction h with
  | last hgap =>
    have hgap := hgap.ofChars_eq line
    rw [List.append_nil] at hgap
    rw [hgap]
    rfl
  | @piece p cs ps last hgap hword _ _ ih =>
    have hn : p.text ≠ [] := List.cons_ne_nil p.first p.rest
    rw [hgap.ofChars_eq, Word.ofChars_append line hn (WordKind.any?_of_isLongest hword), ih]
    rfl

/-- Two readings of a text have the same first gap and the same word behind it, and so on. -/
theorem eq (h : FallsInto cs ps last) (h' : FallsInto cs ps' last') : ps' = ps ∧ last' = last := by
  induction h generalizing ps' last' with
  | last hgap =>
    cases h' with
    | last => exact ⟨rfl, rfl⟩
    | piece _ hword => exact absurd hword.opens hgap.not_opens
  | @piece p cs ps last hgap hword honly _ ih =>
    generalize he : p.gap ++ (p.text ++ cs) = ds at h'
    cases h' with
    | last hgap' =>
      subst he
      exact absurd hword.opens hgap'.not_opens
    | @piece p' cs' ps' last' hgap' hword' _ h' =>
      have hlen : p.gap.length = p'.gap.length :=
        Nat.le_antisymm (hgap.length_le he hword'.opens) (hgap'.length_le he.symm hword.opens)
      obtain ⟨hgaps, hrest⟩ := List.append_inj he hlen
      rw [← hrest] at hword'
      have hkind : p'.kind = p.kind := honly p'.kind hword'.opens
      have htext : p'.text = p.text := (hkind ▸ hword').eq hword
      have hbehind : cs = cs' := List.append_cancel_left (htext ▸ hrest)
      obtain ⟨rfl, rfl⟩ := ih (hbehind ▸ h')
      exact ⟨congrArg (· :: ps') (Piece.ext_text hgaps.symm hkind htext), rfl⟩

end FallsInto

/-- Every text falls into words and gaps in one way, and the words are what the tokenizer reads. -/
theorem ofChars_words_and_gaps (line : Nat) (cs : List Char) :
    ∃ ps last, FallsInto cs ps last ∧ cs = ps.flatMap Piece.chars ++ last ∧
      Word.ofChars line cs = ps.map (Piece.word line) ∧
      ∀ ps' last', FallsInto cs ps' last' → ps' = ps ∧ last' = last := by
  obtain ⟨ps, last, h⟩ := FallsInto.exists_pieces cs
  exact ⟨ps, last, h, h.eq_flatMap, h.ofChars_eq line, fun _ _ => h.eq⟩

end Gcode

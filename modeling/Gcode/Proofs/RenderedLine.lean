import Gcode.Block
import Gcode.Proofs.WordForm

/-! Lines that write given words, in any case and with any layout around them. Reading such a line
gives the words back. -/
namespace Gcode

inductive Layout : List Char → Prop
  | empty : Layout []
  | blank {c : Char} {s : List Char} (hc : isBlank c) (hn : c ≠ '\n') (hr : c ≠ '\r')
      (hs : Layout s) : Layout (c :: s)
  | comment {c s : List Char} (hc : ∀ d ∈ c, d ≠ ')' ∧ d ≠ '\n' ∧ d ≠ '\r') (hs : Layout s) :
      Layout ('(' :: (c ++ ')' :: s))

def IsEnding (s : List Char) : Prop := s = [] ∨ ∃ t, s = ';' :: t ∧ '\n' ∉ t ∧ '\r' ∉ t

namespace Word

def chars (w : Word) : List Char := w.letter :: w.argument.toList

def IsWellFormed (w : Word) : Prop := WordForm w.kind w.chars

/-- Whether a word stays apart from the next one. A name would go on with letters behind it. -/
def StaysApart (v w : Word) : Prop :=
  IsNamed v.kind v.chars → w.kind ≠ .address ∧ w.kind ≠ .keyword

def IsSpelled (w : Word) (t : List Char) : Prop := t.map Char.toUpper = w.chars

end Word

/-- The lines that write words one after the other, with layout before, between and after them. -/
inductive Writes : List Word → List Char → Prop
  | layout {s : List Char} (hs : Layout s) : Writes [] s
  | word {w : Word} {ws : List Word} {s t r : List Char} (hs : Layout s) (ht : w.IsSpelled t)
      (hr : Writes ws r) : Writes (w :: ws) (s ++ (t ++ r))

theorem withoutComments_layout {s : List Char} (hs : Layout s) (r : List Char) :
    withoutComments (s ++ r) = withoutComments r := by
  induction hs with
  | empty => rfl
  | blank hc _ _ _ ih => rw [List.cons_append, withoutComments_cons_blank _ hc, ih]
  | @comment c s hc _ ih =>
    have hm : ')' ∉ c := fun h => (hc ')' h).1 rfl
    rw [List.cons_append, List.append_assoc, List.cons_append,
      withoutComments_comment (s ++ r) hm, ih]

theorem withoutComments_ending {s : List Char} (hs : IsEnding s) : withoutComments s = [] := by
  cases hs with
  | inl he =>
    subst he
    rfl
  | inr ht =>
    obtain ⟨t, rfl, ht, -⟩ := ht
    exact withoutComments_remark ht

/-- Without comments and white space a line holds the words, each in some case, and nothing
between them. -/
theorem withoutComments_writes {ws : List Word} {line : List Char} (h : Writes ws line)
    (hw : ∀ w ∈ ws, w.IsWellFormed) :
    ∃ texts, List.Forall₂ Word.IsSpelled ws texts ∧
      ∀ r, withoutComments (line ++ r) = texts.flatten ++ withoutComments r := by
  induction h with
  | layout hs => exact ⟨[], .nil, withoutComments_layout hs⟩
  | @word w ws s t r hs ht _ ih =>
    obtain ⟨texts, hspell, hstrip⟩ := ih fun v hv => hw v (List.mem_cons_of_mem w hv)
    have hplain : ∀ c ∈ t, IsPlain c := (hw w List.mem_cons_self).isPlain ht
    refine ⟨t :: texts, .cons ht hspell, fun q => ?_⟩
    rw [List.append_assoc, List.append_assoc, withoutComments_layout hs,
      withoutComments_append_plain _ hplain, hstrip, List.flatten_cons, List.append_assoc]

theorem isNumberChar_of_begins {kind : WordKind} {c : Char} (h : Begins kind c) :
    WordKind.isNumberChar c = false := by
  have hl : isLetter c = true → WordKind.isNumberChar c = false := by
    intro hl
    by_contra hn
    rw [isLetter_false_of_isNumberChar (Bool.not_eq_false _ ▸ hn)] at hl
    exact absurd hl (by decide)
  cases kind with
  | keyword | address => exact hl h
  | macroVar => cases h <;> subst c <;> decide
  | repetition => cases h; decide

theorem isNameChar_of_begins {kind : WordKind} {c : Char} (h : Begins kind c)
    (hk : kind ≠ .address ∧ kind ≠ .keyword) : WordKind.isNameChar c = false := by
  cases kind with
  | keyword => exact absurd rfl hk.2
  | address => exact absurd rfl hk.1
  | macroVar => cases h <;> subst c <;> decide
  | repetition => cases h; decide

/-- Words that stay apart are told apart when nothing stands between them. -/
theorem mayFollow_flatten {v : Word} {ws : List Word} {texts : List (List Char)}
    (hs : List.Forall₂ Word.IsSpelled ws texts) (hw : ∀ w ∈ ws, w.IsWellFormed)
    (ha : ∀ w ∈ ws.head?, v.StaysApart w) : MayFollow v.kind v.chars texts.flatten := by
  cases hs with
  | nil => intro c hc; simp at hc
  | @cons w t ws texts ht _ =>
    obtain ⟨c, r, rfl, hb⟩ := (hw w List.mem_cons_self).begins ht
    intro d hd
    have he : d = c := by simpa using hd.symm
    subst he
    exact ⟨isNumberChar_of_begins hb, fun hn => isNameChar_of_begins hb (ha w rfl hn)⟩

theorem ofFind?_isSpelled {w : Word} {t : List Char} (ht : w.IsSpelled t) (column : Nat) :
    Word.ofFind? w.line ⟨column, w.kind, t⟩ = some w := by
  rw [Word.IsSpelled, Word.chars] at ht
  simp [Word.ofFind?, ht]

/-- The tokenizer takes a row of words apart again. -/
theorem findsFrom_flatten {ws : List Word} {texts : List (List Char)} {index : Nat}
    (hs : List.Forall₂ Word.IsSpelled ws texts)
    (hw : ∀ w ∈ ws, w.IsWellFormed ∧ w.line = index) (ha : ws.IsChain Word.StaysApart)
    (column : Nat) :
    (WordKind.any?.findsFrom 0 column texts.flatten).filterMap (Word.ofFind? index) = ws := by
  induction hs generalizing column with
  | nil => rfl
  | @cons w t ws texts ht hs ih =>
    obtain ⟨hform, rfl⟩ := hw w List.mem_cons_self
    have hws : ∀ v ∈ ws, v.IsWellFormed ∧ v.line = w.line := fun v hv =>
      hw v (List.mem_cons_of_mem w hv)
    have hhead : ∀ v ∈ ws.head?, w.StaysApart v := (List.isChain_cons.mp ha).1
    have hfollow := mayFollow_flatten hs (fun v hv => (hws v hv).1) hhead
    have hn : t ≠ [] := by
      obtain ⟨c, r, rfl, -⟩ := hform.begins ht
      exact List.cons_ne_nil c r
    rw [List.flatten_cons, Pattern.findsFrom_append hn (hform.any?_append ht hfollow),
      List.filterMap_cons_some (ofFind?_isSpelled ht column), ih hws ha.of_cons]

/-- Reading a line undoes the writing of words. -/
theorem ofLine_writes {index : Nat} {ws : List Word} {line ending : List Char}
    (hw : ∀ w ∈ ws, w.IsWellFormed ∧ w.line = index) (ha : ws.IsChain Word.StaysApart)
    (hl : Writes ws line) (he : IsEnding ending) :
    Block.ofLine ⟨index, String.ofList (line ++ ending)⟩ =
      ⟨index, String.ofList (line ++ ending), ws⟩ := by
  obtain ⟨texts, hs, hstrip⟩ := withoutComments_writes hl fun w h => (hw w h).1
  have hwords := findsFrom_flatten hs hw ha 0
  simp only [Block.ofLine, String.toList_ofList, hstrip, withoutComments_ending he,
    List.append_nil, Word.ofChars, Pattern.finds, hwords]

/-- A name in front of a count and a keyword in front of an address, in mixed case. -/
theorem ofLine_writes_mixed_case :
    Block.ofLine ⟨7, "(a;b)#[#1+a] $n*3(x)goTOg-01; (G2"⟩ =
      ⟨7, "(a;b)#[#1+a] $n*3(x)goTOg-01; (G2",
        [⟨'#', "[#1+A]", 7, .macroVar⟩, ⟨'$', "N", 7, .macroVar⟩, ⟨'*', "3", 7, .repetition⟩,
          ⟨'G', "OTO", 7, .keyword⟩, ⟨'G', "-01", 7, .address⟩]⟩ := by
  have h₅ := Writes.word (w := ⟨'G', "-01", 7, .address⟩) .empty (t := "g-01".toList) rfl
    (.layout .empty)
  have h₄ := Writes.word (w := ⟨'G', "OTO", 7, .keyword⟩) (s := "(x)".toList)
    (.comment (c := "x".toList) (by simp) .empty) (t := "goTO".toList) rfl h₅
  have h₃ := Writes.word (w := ⟨'*', "3", 7, .repetition⟩) .empty (t := "*3".toList) rfl h₄
  have h₂ := Writes.word (w := ⟨'$', "N", 7, .macroVar⟩) (s := " ".toList)
    (.blank (by decide) (by decide) (by decide) .empty) (t := "$n".toList) rfl h₃
  have h₁ := Writes.word (w := ⟨'#', "[#1+A]", 7, .macroVar⟩) (s := "(a;b)".toList)
    (.comment (c := "a;b".toList) (by simp) .empty) (t := "#[#1+a]".toList) rfl h₂
  refine ofLine_writes ?_ ?_ h₁ (.inr ⟨" (G2".toList, rfl, by decide, by decide⟩)
  · simp only [List.forall_mem_cons, List.not_mem_nil, false_imp_iff, implies_true, and_true]
    refine ⟨?_, ?_, ?_, ?_, ?_⟩
    · exact .expression (e := "#1+A".toList) (by simp [isBlank, Char.isLower])
    · exact @WordForm.named "N".toList (by decide) (by simp [Char.isUpper])
    · exact @WordForm.repetition "3".toList (by decide) (by simp)
    · exact .keyword (k := "GOTO") (by decide)
    · exact @WordForm.address 'G' "-01".toList (by decide) (by decide)
        (by simp [WordKind.isNumberChar])
  · simp [List.isChain_cons_cons, Word.StaysApart, IsNamed, Word.chars]

end Gcode

import Gcode.Proofs.CanonicalCode
import Gcode.Proofs.LetterCase

/-! The forms in which words are written, and the pattern that finds a word again in front of any
text that cannot continue it. -/
namespace Gcode

inductive WordForm : WordKind → List Char → Prop
  | keyword {k : String} (hk : k ∈ keywords) : WordForm .keyword k.toList
  | dollars : WordForm .macroVar ['$', '$']
  | named {name : List Char} (hn : name ≠ [])
      (h : ∀ c ∈ name, c.isUpper ∨ c.isDigit ∨ c = '_') : WordForm .macroVar ('$' :: name)
  | numbered {ds : List Char} (hn : ds ≠ []) (h : ∀ d ∈ ds, d.isDigit) :
      WordForm .macroVar ('#' :: ds)
  | expression {e : List Char}
      (h : ∀ c ∈ e, c ≠ ']' ∧ c ≠ ';' ∧ c ≠ '(' ∧ c ≠ ')' ∧ ¬isBlank c ∧ ¬c.isLower) :
      WordForm .macroVar ('#' :: '[' :: (e ++ [']']))
  | address {c : Char} {ds : List Char} (hc : c.isUpper) (hn : ds ≠ [])
      (h : ∀ d ∈ ds, WordKind.isNumberChar d) : WordForm .address (c :: ds)
  | repetition {ds : List Char} (hn : ds ≠ []) (h : ∀ d ∈ ds, d.isDigit) :
      WordForm .repetition ('*' :: ds)

def IsNamed (kind : WordKind) (t : List Char) : Prop :=
  kind = .macroVar ∧ t.head? = some '$' ∧ t ≠ ['$', '$']

def Begins : WordKind → Char → Prop
  | .keyword, c | .address, c => isLetter c
  | .macroVar, c => c = '$' ∨ c = '#'
  | .repetition, c => c = '*'

/-- What may stand behind a word: nothing that a number could go on with, and behind a name
nothing that a name could go on with. -/
def MayFollow (kind : WordKind) (t r : List Char) : Prop :=
  ∀ c ∈ r.head?, WordKind.isNumberChar c = false ∧
    (IsNamed kind t → WordKind.isNameChar c = false)

theorem leading_append {p : Char → Bool} {ds r : List Char} (h : ∀ d ∈ ds, p d = true)
    (hr : ∀ c ∈ r.head?, p c = false) : leading p (ds ++ r) = ds.length := by
  rw [leading, takeWhile_append_of_head h hr]

theorem leading_append_of_class {p : Char → Bool} {ds : List Char} (r : List Char)
    (h : ∀ d ∈ ds, p d = true) : leading p (ds ++ r) = ds.length + leading p r := by
  rw [leading, List.takeWhile_append_of_pos h, List.length_append, leading]

theorem exists_of_leading {p : Char → Bool} {cs : List Char} {n : Nat} (h : leading p cs = n + 1) :
    ∃ ds rest, cs = ds ++ rest ∧ ds.length = n + 1 ∧ ds ≠ [] ∧ ∀ d ∈ ds, p d = true := by
  refine ⟨cs.takeWhile p, cs.dropWhile p, List.takeWhile_append_dropWhile.symm, h,
    List.ne_nil_of_length_eq_add_one h, fun d hd => ?_⟩
  exact List.all_eq_true.mp List.all_takeWhile d hd

theorem afterFirst_append {sort : WordKind} {p : Char → Bool} {ds r : List Char} (hn : ds ≠ [])
    (h : ∀ d ∈ ds, p d = true) (hr : ∀ c ∈ r.head?, p c = false) :
    Pattern.afterFirst sort p (ds ++ r) = some (sort, ds.length + 1) := by
  rw [Pattern.afterFirst, leading_append h hr]
  cases ds with
  | nil => exact absurd rfl hn
  | cons d ds => rfl

namespace WordKind

theorem isUpper_of_mem_keyword {k : String} (hk : k ∈ keywords) {u : Char} (hu : u ∈ k.toList) :
    u.isUpper = true := by
  have h : (keywords.all fun k => k.toList.all Char.isUpper) = true := by decide +kernel
  exact List.all_eq_true.mp (List.all_eq_true.mp h k hk) u hu

theorem two_le_length_keyword {k : String} (hk : k ∈ keywords) : 2 ≤ k.toList.length := by
  have h : (keywords.all fun k => decide (2 ≤ k.toList.length)) = true := by decide +kernel
  exact of_decide_eq_true (List.all_eq_true.mp h k hk)

theorem keywords_prefix_free : ∀ k ∈ keywords, ∀ l ∈ keywords,
    k.toList.isPrefixOf l.toList = true → k = l := by
  decide +kernel

/-- A keyword is taken where it stands, and no longer one in its place. -/
theorem keyword?_append {k : String} {s : List Char} (r : List Char) (hk : k ∈ keywords)
    (hs : s.map foldCase = k.toList) : keyword? (s ++ r) = some (.keyword, s.length) := by
  have hlen : k.toList.length = s.length := by rw [← hs, List.length_map]
  have htake (l : String) : ((s ++ r).take l.toList.length).map foldCase =
      ((s ++ r).map foldCase).take l.toList.length := List.map_take
  have hmatch : (((s ++ r).take k.toList.length).map foldCase == k.toList) = true := by
    rw [hlen, List.take_left, hs]
    exact beq_self_eq_true _
  cases hf : keywords.find? fun l => ((s ++ r).take l.toList.length).map foldCase == l.toList with
  | none => exact absurd hmatch (by simpa using List.find?_eq_none.mp hf k hk)
  | some l =>
    have hl := List.mem_of_find?_eq_some hf
    have hm : ((s ++ r).map foldCase).take l.toList.length = l.toList := by
      rw [← htake]
      simpa using List.find?_some hf
    have hp : l.toList <+: k.toList ++ r.map foldCase := by
      rw [← hm, List.map_append, hs]
      exact List.take_prefix _ _
    -- Both keywords begin one text, so one of them begins the other.
    have he : k = l := by
      rcases List.prefix_or_prefix_of_prefix (List.prefix_append k.toList (r.map foldCase)) hp
        with h | h
      · exact keywords_prefix_free k hk l hl (List.isPrefixOf_iff_prefix.mpr h)
      · exact (keywords_prefix_free l hl k hk (List.isPrefixOf_iff_prefix.mpr h)).symm
    rw [keyword?, hf, ← he, Option.map_some, hlen]

theorem letters_of_keyword? {cs : List Char} {x : WordKind × Nat} (h : keyword? cs = some x) :
    ∃ a b r, cs = a :: b :: r ∧ isLetter a = true ∧ isLetter b = true := by
  obtain ⟨k, hf, -⟩ := Option.map_eq_some_iff.mp h
  have hk := List.mem_of_find?_eq_some hf
  have hm := List.find?_some hf
  rw [beq_iff_eq] at hm
  have hletter : ∀ c ∈ cs.take k.toList.length, isLetter c = true := fun c hc =>
    isUpper_of_mem_keyword hk (hm ▸ List.mem_map_of_mem hc)
  have hlen : 2 ≤ (cs.take k.toList.length).length := by
    rw [← List.length_map (f := foldCase), hm]
    exact two_le_length_keyword hk
  match cs with
  | [] => simp at hlen
  | [c] =>
    have h := List.length_take_le' k.toList.length [c]
    simp only [List.length_singleton] at h
    omega
  | a :: b :: r =>
    obtain ⟨n, hn⟩ : ∃ n, k.toList.length = n + 2 :=
      ⟨k.toList.length - 2, by have := two_le_length_keyword hk; omega⟩
    rw [hn] at hletter
    exact ⟨a, b, r, rfl, hletter a (by simp), hletter b (by simp)⟩

theorem keyword?_of_head {c : Char} (r : List Char) (hc : isLetter c = false) :
    keyword? (c :: r) = none := by
  rw [Option.eq_none_iff_forall_not_mem]
  intro x hx
  obtain ⟨a, b, r', he, ha, -⟩ := letters_of_keyword? hx
  cases he
  rw [hc] at ha
  exact absurd ha (by decide)

theorem keyword?_of_second {c d : Char} (r : List Char) (hd : isLetter d = false) :
    keyword? (c :: d :: r) = none := by
  rw [Option.eq_none_iff_forall_not_mem]
  intro x hx
  obtain ⟨a, b, r', he, -, hb⟩ := letters_of_keyword? hx
  cases he
  rw [hd] at hb
  exact absurd hb (by decide)

theorem any?_of_keyword? {cs : List Char} {x : WordKind × Nat} (h : keyword? cs = some x) :
    any? cs = some x := by
  simp [any?, Pattern.orElse, h]

theorem any?_of_macroVar? {cs : List Char} {x : WordKind × Nat} (hk : keyword? cs = none)
    (h : macroVar? cs = some x) : any? cs = some x := by
  simp [any?, Pattern.orElse, hk, h]

theorem any?_of_address? {cs : List Char} {x : WordKind × Nat} (hk : keyword? cs = none)
    (hm : macroVar? cs = none) (h : address? cs = some x) : any? cs = some x := by
  simp [any?, Pattern.orElse, hk, hm, h]

theorem isLetter_dollar : isLetter '$' = false := by decide

theorem isLetter_hash : isLetter '#' = false := by decide

theorem any?_dollars (r : List Char) : any? ('$' :: '$' :: r) = some (.macroVar, 2) :=
  any?_of_macroVar? (keyword?_of_head ('$' :: r) isLetter_dollar) rfl

theorem any?_name {s r : List Char} (hn : s ≠ []) (h : ∀ d ∈ s, isNameChar d = true)
    (hr : ∀ c ∈ r.head?, isNameChar c = false) :
    any? ('$' :: (s ++ r)) = some (.macroVar, s.length + 1) := by
  apply any?_of_macroVar? (keyword?_of_head (s ++ r) isLetter_dollar)
  rw [← afterFirst_append hn h hr]
  cases s with
  | nil => exact absurd rfl hn
  | cons d s =>
    have hd : d ≠ '$' := ne_of_class (h d List.mem_cons_self) (by decide)
    rw [List.cons_append, macroVar?]
    intro cs he
    exact hd (List.cons.inj he).1

theorem any?_digits {ds r : List Char} (hn : ds ≠ []) (h : ∀ d ∈ ds, d.isDigit = true)
    (hr : ∀ c ∈ r.head?, c.isDigit = false) :
    any? ('#' :: (ds ++ r)) = some (.macroVar, ds.length + 1) := by
  apply any?_of_macroVar? (keyword?_of_head (ds ++ r) isLetter_hash)
  rw [← afterFirst_append hn h hr]
  cases ds with
  | nil => exact absurd rfl hn
  | cons d ds =>
    have hd : d ≠ '[' := ne_of_class (h d List.mem_cons_self) (by decide)
    rw [List.cons_append, macroVar?]
    intro cs he
    exact hd (List.cons.inj he).1

theorem any?_expression {e : List Char} (r : List Char) (h : ']' ∉ e) :
    any? ('#' :: '[' :: (e ++ ']' :: r)) = some (.macroVar, e.length + 3) := by
  apply any?_of_macroVar? (keyword?_of_head ('[' :: (e ++ ']' :: r)) isLetter_hash)
  have hl : leading (· != ']') (e ++ ']' :: r) = e.length :=
    leading_append (fun d hd => bne_iff_ne.mpr fun he => h (he ▸ hd)) (by simp)
  simp [macroVar?, hl]

theorem address?_of_head {c : Char} (r : List Char) (hc : isLetter c = false) :
    address? (c :: r) = none := by
  simp [address?, hc]

theorem macroVar?_of_head {c : Char} (r : List Char) (hd : c ≠ '$') (hn : c ≠ '#') :
    macroVar? (c :: r) = none := by
  unfold macroVar?
  split <;> simp_all

theorem any?_number {c : Char} {ds r : List Char} (hc : isLetter c = true) (hn : ds ≠ [])
    (h : ∀ d ∈ ds, isNumberChar d = true) (hr : ∀ d ∈ r.head?, isNumberChar d = false) :
    any? (c :: (ds ++ r)) = some (.address, ds.length + 1) := by
  have hk : keyword? (c :: (ds ++ r)) = none := by
    cases ds with
    | nil => exact absurd rfl hn
    | cons d ds =>
      exact keyword?_of_second (ds ++ r)
        (isLetter_false_of_isNumberChar (h d List.mem_cons_self))
  have hd : c ≠ '$' := ne_of_class hc (by decide)
  have hh : c ≠ '#' := ne_of_class hc (by decide)
  apply any?_of_address? hk (macroVar?_of_head (ds ++ r) hd hh)
  rw [address?, if_pos hc, afterFirst_append hn h hr]

theorem any?_count {ds r : List Char} (hn : ds ≠ []) (h : ∀ d ∈ ds, d.isDigit = true)
    (hr : ∀ c ∈ r.head?, c.isDigit = false) :
    any? ('*' :: (ds ++ r)) = some (.repetition, ds.length + 1) := by
  have hs : isLetter '*' = false := by decide
  have hk := keyword?_of_head (ds ++ r) hs
  have hm := macroVar?_of_head (c := '*') (ds ++ r) (by decide) (by decide)
  have ha := address?_of_head (ds ++ r) hs
  simp only [any?, Pattern.orElse, hk, hm, ha, Option.none_or, repetition?,
    afterFirst_append hn h hr]

end WordKind

namespace WordForm
variable {kind : WordKind} {t s : List Char}

theorem begins (hf : WordForm kind t) (hs : s.map Char.toUpper = t) :
    ∃ c r, s = c :: r ∧ Begins kind c := by
  cases hf with
  | @keyword k hk =>
    cases s with
    | nil =>
      have hlen := WordKind.two_le_length_keyword hk
      rw [← hs] at hlen
      exact absurd hlen (by decide)
    | cons c r =>
      have hm : c.toUpper ∈ k.toList := hs ▸ List.mem_cons_self
      exact ⟨c, r, rfl, isLetter_of_isUpper (WordKind.isUpper_of_mem_keyword hk hm)⟩
  | dollars | named =>
    obtain ⟨c, r, rfl, hc, -⟩ := List.map_eq_cons_iff.mp hs
    exact ⟨c, r, rfl, Or.inl (eq_of_toUpper_eq hc (by decide))⟩
  | numbered | expression =>
    obtain ⟨c, r, rfl, hc, -⟩ := List.map_eq_cons_iff.mp hs
    exact ⟨c, r, rfl, Or.inr (eq_of_toUpper_eq hc (by decide))⟩
  | address ha =>
    obtain ⟨c, r, rfl, hc, -⟩ := List.map_eq_cons_iff.mp hs
    exact ⟨c, r, rfl, isLetter_of_isUpper (hc ▸ ha)⟩
  | repetition =>
    obtain ⟨c, r, rfl, hc, -⟩ := List.map_eq_cons_iff.mp hs
    exact ⟨c, r, rfl, eq_of_toUpper_eq hc (by decide)⟩

/-- The pattern finds a word, in either case, and takes all of it and no more. -/
theorem any?_append (hf : WordForm kind t) (hs : s.map Char.toUpper = t) {r : List Char}
    (hr : MayFollow kind t r) : WordKind.any? (s ++ r) = some (kind, s.length) := by
  have hnumber : ∀ c ∈ r.head?, WordKind.isNumberChar c = false := fun c hc => (hr c hc).1
  have hdigit : ∀ c ∈ r.head?, c.isDigit = false := fun c hc =>
    isDigit_false_of_isNumberChar_false (hnumber c hc)
  cases hf with
  | @keyword k hk =>
    have hfold : s.map foldCase = k.toList := by
      rw [← hs]
      apply List.map_congr_left
      intro c hc
      exact foldCase_of_isUpper (WordKind.isUpper_of_mem_keyword hk (hs ▸ List.mem_map_of_mem hc))
    exact WordKind.any?_of_keyword? (WordKind.keyword?_append r hk hfold)
  | dollars =>
    have he : s = ['$', '$'] := eq_of_map_toUpper_eq hs (by simp)
    subst he
    exact WordKind.any?_dollars r
  | named hn h =>
    obtain ⟨c, s, rfl, hc, rfl⟩ := List.map_eq_cons_iff.mp hs
    have hd : c = '$' := eq_of_toUpper_eq hc (by decide)
    subst hd
    have hne : s ≠ [] := fun e => hn (by rw [e, List.map_nil])
    have hname : ∀ d ∈ s, WordKind.isNameChar d = true := fun d hm =>
      isNameChar_of_toUpper (h d.toUpper (List.mem_map_of_mem hm))
    -- A name holds no `$`, so the word is not taken for `$$`.
    have hnamed : IsNamed .macroVar ('$' :: s.map Char.toUpper) := by
      refine ⟨rfl, rfl, fun e => ?_⟩
      have hu := h '$' (by simp [(List.cons.inj e).2])
      exact absurd hu (by decide)
    exact WordKind.any?_name hne hname fun d hm => (hr d hm).2 hnamed
  | @numbered ds hn h =>
    have he : s = '#' :: ds := eq_of_map_toUpper_eq hs <| List.forall_mem_cons.mpr
      ⟨by decide, fun u hu => isUpper_false_of_isAlpha_false (isAlpha_false_of_isDigit (h u hu))⟩
    subst he
    exact WordKind.any?_digits hn h hdigit
  | @expression e h =>
    obtain ⟨c, s, rfl, hc, hs⟩ := List.map_eq_cons_iff.mp hs
    obtain ⟨d, s, rfl, hd, hs⟩ := List.map_eq_cons_iff.mp hs
    obtain ⟨e', f, rfl, rfl, hf⟩ := List.map_eq_append_iff.mp hs
    have hc : c = '#' := eq_of_toUpper_eq hc (by decide)
    have hd : d = '[' := eq_of_toUpper_eq hd (by decide)
    have hf : f = [']'] := eq_of_map_toUpper_eq hf (by simp)
    subst hc hd hf
    have he : ']' ∉ e' := fun hm => (h _ (List.mem_map_of_mem hm)).1 (by decide)
    have hany := WordKind.any?_expression r he
    simpa using hany
  | @address u ds hu hn h =>
    obtain ⟨c, s, rfl, hc, hs⟩ := List.map_eq_cons_iff.mp hs
    have he : s = ds := eq_of_map_toUpper_eq hs fun d hd =>
      isUpper_false_of_isAlpha_false (isAlpha_false_of_isNumberChar (h d hd))
    subst he
    exact WordKind.any?_number (isLetter_of_isUpper (hc ▸ hu)) hn h hnumber
  | @repetition ds hn h =>
    have he : s = '*' :: ds := eq_of_map_toUpper_eq hs <| List.forall_mem_cons.mpr
      ⟨by decide, fun u hu => isUpper_false_of_isAlpha_false (isAlpha_false_of_isDigit (h u hu))⟩
    subst he
    exact WordKind.any?_count hn h hdigit

/-- Removal of comments leaves all of a word in capitals. -/
theorem isPlain_capitals (hf : WordForm kind t) : ∀ u ∈ t, IsPlain u := by
  cases hf with
  | keyword hk => exact fun u hu => isPlain_of_isUpper (WordKind.isUpper_of_mem_keyword hk hu)
  | dollars =>
    simp only [List.forall_mem_cons]
    exact ⟨by decide, by decide, by simp⟩
  | named hn h =>
    refine List.forall_mem_cons.mpr ⟨by decide, fun u hu => ?_⟩
    cases h u hu with
    | inl hc => exact isPlain_of_isUpper hc
    | inr hd =>
      cases hd with
      | inl hd => exact isPlain_of_isDigit hd
      | inr he => exact he ▸ by decide
  | numbered hn h | repetition hn h =>
    exact List.forall_mem_cons.mpr ⟨by decide, fun u hu => isPlain_of_isDigit (h u hu)⟩
  | expression h =>
    simp only [List.forall_mem_cons, List.forall_mem_append]
    refine ⟨by decide, by decide, fun u hu => ?_, by decide, by simp⟩
    exact ⟨(h u hu).2.2.1, (h u hu).2.1, by simpa using (h u hu).2.2.2.2.1⟩
  | address hc hn h =>
    exact List.forall_mem_cons.mpr
      ⟨isPlain_of_isUpper hc, fun u hu => isPlain_of_isNumberChar (h u hu)⟩

theorem isPlain (hf : WordForm kind t) (hs : s.map Char.toUpper = t) : ∀ c ∈ s, IsPlain c :=
  fun _ hc => isPlain_of_toUpper (hf.isPlain_capitals _ (hs ▸ List.mem_map_of_mem hc))

end WordForm
end Gcode

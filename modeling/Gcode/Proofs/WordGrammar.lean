import Gcode.Proofs.WordForm

/-! The texts that words may have, in any case, and how the tokenizer's pattern reads them. It takes
the longest word at the front of a text, and two kinds of words never begin at one place. -/
namespace Gcode

inductive WordText : WordKind → List Char → Prop
  | keyword {k : String} {t : List Char} (hk : k ∈ keywords) (ht : t.map foldCase = k.toList) :
      WordText .keyword t
  | dollars : WordText .macroVar ['$', '$']
  | named {name : List Char} (hn : name ≠ []) (h : ∀ c ∈ name, WordKind.isNameChar c) :
      WordText .macroVar ('$' :: name)
  | numbered {ds : List Char} (hn : ds ≠ []) (h : ∀ d ∈ ds, d.isDigit) :
      WordText .macroVar ('#' :: ds)
  | expression {e : List Char} (h : ']' ∉ e) : WordText .macroVar ('#' :: '[' :: (e ++ [']']))
  | address {c : Char} {ds : List Char} (hc : isLetter c) (hn : ds ≠ [])
      (h : ∀ d ∈ ds, WordKind.isNumberChar d) : WordText .address (c :: ds)
  | repetition {ds : List Char} (hn : ds ≠ []) (h : ∀ d ∈ ds, d.isDigit) :
      WordText .repetition ('*' :: ds)

def kindOf (c d : Char) : WordKind :=
  if c = '*' then .repetition
  else if c = '$' ∨ c = '#' then .macroVar
  else if isLetter d then .keyword
  else .address

def Opens (kind : WordKind) (cs : List Char) : Prop := ∃ t, WordText kind t ∧ t <+: cs

structure IsLongest (kind : WordKind) (t cs : List Char) : Prop where
  word : WordText kind t
  front : t <+: cs
  length_le : ∀ u, WordText kind u → u <+: cs → u.length ≤ t.length

theorem WordText.exists_kindOf {kind : WordKind} {t : List Char} (h : WordText kind t) :
    ∃ c d r, t = c :: d :: r ∧ kind = kindOf c d := by
  cases h with
  | @keyword k _ hk ht =>
    have hlen : 2 ≤ t.length := by
      rw [← List.length_map (f := foldCase), ht]
      exact WordKind.two_le_length_keyword hk
    match t with
    | c :: d :: r =>
      have hletter : ∀ x ∈ c :: d :: r, isLetter x = true := fun x hx =>
        WordKind.isUpper_of_mem_keyword hk (ht ▸ List.mem_map_of_mem hx)
      have hc : isLetter c = true := hletter c (by simp)
      have hd : isLetter d = true := hletter d (by simp)
      have hstar : c ≠ '*' := ne_of_class hc (by decide)
      have hdollar : c ≠ '$' := ne_of_class hc (by decide)
      have hhash : c ≠ '#' := ne_of_class hc (by decide)
      exact ⟨c, d, r, rfl, by simp [kindOf, hstar, hdollar, hhash, hd]⟩
  | dollars => exact ⟨'$', '$', [], rfl, rfl⟩
  | @named name hn h =>
    obtain ⟨d, r, rfl⟩ := List.exists_cons_of_ne_nil hn
    exact ⟨'$', d, r, rfl, rfl⟩
  | @numbered ds hn h =>
    obtain ⟨d, r, rfl⟩ := List.exists_cons_of_ne_nil hn
    exact ⟨'#', d, r, rfl, rfl⟩
  | @expression e h => exact ⟨'#', '[', e ++ [']'], rfl, rfl⟩
  | @address c ds hc hn h =>
    obtain ⟨d, r, rfl⟩ := List.exists_cons_of_ne_nil hn
    have hd : isLetter d = false := isLetter_false_of_isNumberChar (h d List.mem_cons_self)
    have hstar : c ≠ '*' := ne_of_class hc (by decide)
    have hdollar : c ≠ '$' := ne_of_class hc (by decide)
    have hhash : c ≠ '#' := ne_of_class hc (by decide)
    exact ⟨c, d, r, rfl, by simp [kindOf, hstar, hdollar, hhash, hd]⟩
  | @repetition ds hn h =>
    obtain ⟨d, r, rfl⟩ := List.exists_cons_of_ne_nil hn
    exact ⟨'*', d, r, rfl, rfl⟩

theorem Opens.kind_eq {kind kind' : WordKind} {cs : List Char} (h : Opens kind cs)
    (h' : Opens kind' cs) : kind = kind' := by
  obtain ⟨t, ht, hfront⟩ := h
  obtain ⟨u, hu, hfront'⟩ := h'
  obtain ⟨c, d, r, rfl, rfl⟩ := ht.exists_kindOf
  obtain ⟨c', d', r', rfl, rfl⟩ := hu.exists_kindOf
  obtain ⟨rest, rfl⟩ := hfront
  obtain ⟨rest', he⟩ := hfront'
  simp only [List.cons_append, List.cons.injEq] at he
  rw [he.1, he.2.1]

theorem Opens.ne_nil {kind : WordKind} {cs : List Char} (h : Opens kind cs) : cs ≠ [] := by
  obtain ⟨t, ht, rest, rfl⟩ := h
  obtain ⟨c, d, r, rfl, -⟩ := ht.exists_kindOf
  exact List.cons_ne_nil _ _

namespace IsLongest
variable {kind : WordKind} {t u cs : List Char}

theorem opens (h : IsLongest kind t cs) : Opens kind cs := ⟨t, h.word, h.front⟩

theorem eq (h : IsLongest kind t cs) (h' : IsLongest kind u cs) : t = u :=
  eq_of_isPrefix h.front h'.front (h'.length_le t h.word h.front)
    (h.length_le u h'.word h'.front)

end IsLongest

structure Reads (p : Pattern WordKind) (kind : WordKind) : Prop where
  sound : ∀ cs x, p cs = some x →
    x.1 = kind ∧ ∃ t r, cs = t ++ r ∧ t.length = x.2 ∧ WordText kind t
  complete : ∀ t r, WordText kind t → ∃ n, p (t ++ r) = some (kind, n) ∧ t.length ≤ n

namespace Reads
variable {p : Pattern WordKind} {kind : WordKind} {cs : List Char}

theorem eq_none_iff (h : Reads p kind) : p cs = none ↔ ¬Opens kind cs := by
  constructor
  · rintro hnone ⟨t, ht, r, rfl⟩
    obtain ⟨n, hn, -⟩ := h.complete t r ht
    rw [hnone] at hn
    cases hn
  · intro hopens
    cases hp : p cs with
    | none => rfl
    | some x =>
      obtain ⟨-, t, r, rfl, -, ht⟩ := h.sound cs x hp
      exact absurd ⟨t, ht, List.prefix_append t r⟩ hopens

theorem exists_isLongest (h : Reads p kind) {x : WordKind × Nat} (hp : p cs = some x) :
    ∃ t, IsLongest kind t cs ∧ x = (kind, t.length) := by
  obtain ⟨hkind, t, r, rfl, hlen, ht⟩ := h.sound cs x hp
  refine ⟨t, ⟨ht, List.prefix_append t r, fun u hu hfront => ?_⟩, Prod.ext hkind hlen.symm⟩
  obtain ⟨r', he⟩ := hfront
  obtain ⟨n, hn, hle⟩ := h.complete u r' hu
  rw [he, hp] at hn
  rw [hlen, Option.some.inj hn]
  exact hle

end Reads

namespace WordKind

theorem afterFirst_sound {sort : WordKind} {p : Char → Bool} {cs : List Char} {x : WordKind × Nat}
    (h : Pattern.afterFirst sort p cs = some x) :
    x.1 = sort ∧ ∃ ds r, cs = ds ++ r ∧ x.2 = ds.length + 1 ∧ ds ≠ [] ∧ ∀ d ∈ ds, p d = true := by
  rw [Pattern.afterFirst] at h
  split at h
  · cases h
  · next n hn =>
    obtain ⟨ds, r, he, hlen, hne, hds⟩ := exists_of_leading hn
    cases h
    exact ⟨rfl, ds, r, he, congrArg (· + 1) hlen.symm, hne, hds⟩

theorem afterFirst_complete (sort : WordKind) {p : Char → Bool} {ds : List Char} (r : List Char)
    (hn : ds ≠ []) (h : ∀ d ∈ ds, p d = true) :
    ∃ n, Pattern.afterFirst sort p (ds ++ r) = some (sort, n) ∧ ds.length + 1 ≤ n := by
  have hlen : leading p (ds ++ r) = ds.length + leading p r := leading_append_of_class r h
  obtain ⟨d, ds, rfl⟩ := List.exists_cons_of_ne_nil hn
  refine ⟨(d :: ds).length + leading p r + 1, ?_, by omega⟩
  rw [Pattern.afterFirst, hlen, List.length_cons, Nat.add_right_comm]

theorem leading_of_notMem {e : List Char} (r : List Char) (h : ']' ∉ e) :
    leading (· != ']') (e ++ ']' :: r) = e.length :=
  leading_append (fun d hd => bne_iff_ne.mpr fun he => h (he ▸ hd)) (by simp)

theorem reads_keyword? : Reads keyword? .keyword where
  sound cs x h := by
    obtain ⟨k, hf, rfl⟩ := Option.map_eq_some_iff.mp h
    have hm := List.find?_some hf
    rw [beq_iff_eq] at hm
    have hlen := congrArg List.length hm
    rw [List.length_map] at hlen
    exact ⟨rfl, _, _, (List.take_append_drop _ cs).symm, hlen,
      .keyword (List.mem_of_find?_eq_some hf) hm⟩
  complete t r h := by
    cases h with
    | keyword hk ht => exact ⟨t.length, keyword?_append r hk ht, Nat.le_refl _⟩

theorem reads_macroVar? : Reads macroVar? .macroVar where
  sound cs x h := by
    unfold macroVar? at h
    split at h
    · next r =>
      cases h
      exact ⟨rfl, ['$', '$'], r, rfl, rfl, .dollars⟩
    · next cs _ =>
      obtain ⟨hkind, ds, r, rfl, hlen, hn, hds⟩ := afterFirst_sound h
      exact ⟨hkind, '$' :: ds, r, rfl, hlen.symm, .named hn hds⟩
    · next cs =>
      split at h
      · next hm =>
        obtain ⟨e, r, rfl, he⟩ := List.eq_append_cons_of_mem hm
        rw [leading_of_notMem r he] at h
        cases h
        refine ⟨rfl, '#' :: '[' :: (e ++ [']']), r, by simp, by simp, .expression he⟩
      · cases h
    · next cs _ =>
      obtain ⟨hkind, ds, r, rfl, hlen, hn, hds⟩ := afterFirst_sound h
      exact ⟨hkind, '#' :: ds, r, rfl, hlen.symm, .numbered hn hds⟩
    · cases h
  complete t r h := by
    cases h with
    | dollars => exact ⟨2, rfl, Nat.le_refl 2⟩
    | @named name hn h =>
      obtain ⟨d, name, rfl⟩ := List.exists_cons_of_ne_nil hn
      have hd : d ≠ '$' := ne_of_class (h d List.mem_cons_self) (by decide)
      obtain ⟨n, hafter, hle⟩ := afterFirst_complete .macroVar r hn h
      refine ⟨n, ?_, hle⟩
      rw [← hafter, List.cons_append, List.cons_append, macroVar?]
      exact fun cs he => hd (List.cons.inj he).1
    | @numbered ds hn h =>
      obtain ⟨d, ds, rfl⟩ := List.exists_cons_of_ne_nil hn
      have hd : d ≠ '[' := ne_of_class (h d List.mem_cons_self) (by decide)
      obtain ⟨n, hafter, hle⟩ := afterFirst_complete .macroVar r hn h
      refine ⟨n, ?_, hle⟩
      rw [← hafter, List.cons_append, List.cons_append, macroVar?]
      exact fun cs he => hd (List.cons.inj he).1
    | @expression e h =>
      refine ⟨e.length + 3, ?_, by simp⟩
      have hm : ']' ∈ e ++ ']' :: r := by simp
      simp [macroVar?, leading_of_notMem r h]

theorem reads_address? : Reads address? .address where
  sound cs x h := by
    cases cs with
    | nil => cases h
    | cons c cs =>
      rw [address?] at h
      split at h
      · next hc =>
        obtain ⟨hkind, ds, r, rfl, hlen, hn, hds⟩ := afterFirst_sound h
        exact ⟨hkind, c :: ds, r, rfl, hlen.symm, .address hc hn hds⟩
      · cases h
  complete t r h := by
    cases h with
    | @address c ds hc hn h =>
      rw [List.cons_append, address?, if_pos hc]
      exact afterFirst_complete _ r hn h

theorem reads_repetition? : Reads repetition? .repetition where
  sound cs x h := by
    unfold repetition? at h
    split at h
    · next cs =>
      obtain ⟨hkind, ds, r, rfl, hlen, hn, hds⟩ := afterFirst_sound h
      exact ⟨hkind, '*' :: ds, r, rfl, hlen.symm, .repetition hn hds⟩
    · cases h
  complete t r h := by
    cases h with
    | repetition hn h => exact afterFirst_complete _ r hn h

def pattern : WordKind → Pattern WordKind
  | keyword => keyword?
  | macroVar => macroVar?
  | address => address?
  | repetition => repetition?

theorem reads_pattern (kind : WordKind) : Reads kind.pattern kind := by
  cases kind with
  | keyword => exact reads_keyword?
  | macroVar => exact reads_macroVar?
  | address => exact reads_address?
  | repetition => exact reads_repetition?

section
variable {cs : List Char}

theorem any?_eq_none_iff : any? cs = none ↔ ∀ kind, ¬Opens kind cs := by
  simp only [← (reads_pattern _).eq_none_iff]
  constructor
  · intro h kind
    simp only [any?, Pattern.orElse, Option.or_eq_none_iff] at h
    cases kind with
    | keyword => exact h.1.1.1
    | macroVar => exact h.1.1.2
    | address => exact h.1.2
    | repetition => exact h.2
  · intro h
    simp only [any?, Pattern.orElse, Option.or_eq_none_iff]
    exact ⟨⟨⟨h .keyword, h .macroVar⟩, h .address⟩, h .repetition⟩

theorem isLongest_of_any? {x : WordKind × Nat} (h : any? cs = some x) :
    ∃ t, IsLongest x.1 t cs ∧ t.length = x.2 := by
  obtain ⟨kind, hkind⟩ : ∃ kind : WordKind, kind.pattern cs = some x := by
    simp only [any?, Pattern.orElse, Option.or_eq_some_iff] at h
    rcases h with ((h | ⟨-, h⟩) | ⟨-, h⟩) | ⟨-, h⟩
    · exact ⟨.keyword, h⟩
    · exact ⟨.macroVar, h⟩
    · exact ⟨.address, h⟩
    · exact ⟨.repetition, h⟩
  obtain ⟨t, ht, rfl⟩ := (reads_pattern kind).exists_isLongest hkind
  exact ⟨t, ht, rfl⟩

/-- Of all words that could stand at the front of a text, the tokenizer takes the longest one. -/
theorem any?_of_isLongest {kind : WordKind} {t : List Char} (h : IsLongest kind t cs) :
    any? cs = some (kind, t.length) := by
  cases hany : any? cs with
  | none => exact absurd h.opens (any?_eq_none_iff.mp hany kind)
  | some x =>
    obtain ⟨u, hu, hlen⟩ := isLongest_of_any? hany
    obtain rfl : x.1 = kind := hu.opens.kind_eq h.opens
    rw [hu.eq h] at hlen
    rw [hlen]

end

end WordKind
end Gcode

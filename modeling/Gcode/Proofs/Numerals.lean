import Gcode.Decimal
import Gcode.Proofs.CanonicalName

/-! Decimal numerals. A natural number is read from its numeral, with any number of zeros and
perhaps a plus sign in front, and from nothing else. -/
namespace Gcode

def numeral (zeros n : Nat) : List Char := List.replicate zeros '0' ++ Nat.toDigits 10 n

theorem isDigit_numeral {zeros n : Nat} {d : Char} (h : d ∈ numeral zeros n) :
    d.isDigit = true := by
  rcases List.mem_append.mp h with h | h
  · rw [List.eq_of_mem_replicate h]
    decide
  · exact Nat.isDigit_of_mem_toDigits (by decide) (by decide) h

theorem natOfDigits_eq (ds : List Char) : natOfDigits ds = Nat.ofDigitChars 10 ds 0 := rfl

theorem natOfDigits_zeros (zeros : Nat) (ds : List Char) :
    natOfDigits (List.replicate zeros '0' ++ ds) = natOfDigits ds := by
  rw [natOfDigits_eq, Nat.ofDigitChars_append, Nat.ofDigitChars_replicate_zero, Nat.mul_zero,
    natOfDigits_eq]

theorem natOfDigits_numeral (zeros n : Nat) : natOfDigits (numeral zeros n) = n := by
  rw [numeral, natOfDigits_zeros, natOfDigits_eq, Nat.ofDigitChars_ten_toDigits]

theorem exists_digitChar {d : Char} (h : d.isDigit = true) : ∃ n < 10, d = n.digitChar := by
  obtain ⟨hl, hr⟩ := Char.isDigit_iff_toNat.mp h
  have hl : 48 ≤ d.toNat := hl
  have hr : d.toNat ≤ 57 := hr
  have hn : d.toNat - 48 < 10 := by omega
  refine ⟨d.toNat - 48, hn, Char.toNat_inj.mp ?_⟩
  rw [Nat.toNat_digitChar_of_lt_ten hn]
  omega

/-- Digits behind a number go on with its numeral. -/
theorem toDigits_append {ds : List Char} (h : ∀ d ∈ ds, d.isDigit = true) {n : Nat} (hn : 0 < n) :
    Nat.toDigits 10 n ++ ds = Nat.toDigits 10 (Nat.ofDigitChars 10 ds n) := by
  induction ds generalizing n with
  | nil => rw [List.append_nil, Nat.ofDigitChars_nil]
  | cons d ds ih =>
    obtain ⟨k, hk, rfl⟩ := exists_digitChar (h d List.mem_cons_self)
    have hdigit : Nat.toDigits 10 n ++ [k.digitChar] = Nat.toDigits 10 (10 * n + k) := by
      rw [← Nat.toDigits_of_lt_base hk, Nat.toDigits_append_toDigits (by decide) hn hk]
    rw [Nat.ofDigitChars_cons_digitChar_of_lt_ten hk, List.append_cons, hdigit,
      ih (fun d hd => h d (List.mem_cons_of_mem _ hd)) (by omega)]

theorem toDigits_natOfDigits {ds : List Char} (hn : ds ≠ []) (h : ∀ d ∈ ds, d.isDigit = true)
    (hz : ds.head? ≠ some '0') : Nat.toDigits 10 (natOfDigits ds) = ds := by
  obtain ⟨d, ds, rfl⟩ := List.exists_cons_of_ne_nil hn
  obtain ⟨k, hk, rfl⟩ := exists_digitChar (h d List.mem_cons_self)
  have hpos : 0 < k := Nat.pos_of_ne_zero fun e => hz (by rw [e]; rfl)
  rw [natOfDigits_eq, Nat.ofDigitChars_cons_digitChar_of_lt_ten hk, Nat.mul_zero, Nat.zero_add,
    ← toDigits_append (fun d hd => h d (List.mem_cons_of_mem _ hd)) hpos,
    Nat.toDigits_of_lt_base hk, List.singleton_append]

/-- The numeral of a number other than zero begins with another digit than zero. -/
theorem dropWhile_toDigits {n : Nat} (hn : 0 < n) :
    (Nat.toDigits 10 n).dropWhile (· == '0') = Nat.toDigits 10 n := by
  have hvalue : natOfDigits ((Nat.toDigits 10 n).dropWhile (· == '0')) = n := by
    rw [← natOfDigits_zeros (leading (· == '0') (Nat.toDigits 10 n)), ← eq_zeros_append,
      natOfDigits_eq, Nat.ofDigitChars_ten_toDigits]
  have hne : (Nat.toDigits 10 n).dropWhile (· == '0') ≠ [] := by
    intro he
    rw [he] at hvalue
    exact absurd hvalue.symm hn.ne'
  have hdigits : ∀ d ∈ (Nat.toDigits 10 n).dropWhile (· == '0'), d.isDigit = true := fun d hd =>
    Nat.isDigit_of_mem_toDigits (by decide) (by decide) ((List.dropWhile_sublist _).mem hd)
  have hhead : ((Nat.toDigits 10 n).dropWhile (· == '0')).head? ≠ some '0' := by
    intro he
    have h := List.head?_dropWhile_not (· == '0') (Nat.toDigits 10 n)
    rw [he] at h
    exact absurd h (by decide)
  rw [← toDigits_natOfDigits hne hdigits hhead, hvalue]

/-- The canonical form of a number is its numeral without zeros in front. -/
theorem canonicalArgument_numeral (zeros n : Nat) :
    canonicalArgument (numeral zeros n) = numeral 0 n := by
  have hpoint : '.' ∉ numeral zeros n := fun h => absurd (isDigit_numeral h) (by decide)
  have hzeros : ∀ c ∈ List.replicate zeros '0', (c == '0') = true := fun c hc =>
    beq_iff_eq.mpr (List.eq_of_mem_replicate hc)
  rw [← List.append_nil (numeral zeros n), canonicalArgument_append hpoint (by simp),
    List.append_nil, dropZeros, numeral, List.dropWhile_append_of_pos hzeros]
  cases Nat.eq_zero_or_pos n with
  | inl hn =>
    rw [hn]
    decide
  | inr hn =>
    rw [dropWhile_toDigits hn]
    split
    · next he => exact absurd he Nat.toDigits_ne_nil
    · rfl

theorem exists_numeral {ds : List Char} (hn : ds ≠ []) (h : ∀ d ∈ ds, d.isDigit = true) :
    ∃ zeros, ds = numeral zeros (natOfDigits ds) := by
  induction ds with
  | nil => exact absurd rfl hn
  | cons d ds ih =>
    by_cases hd : d = '0'
    · subst hd
      by_cases hds : ds = []
      · subst hds
        exact ⟨0, by decide⟩
      · obtain ⟨zeros, hzeros⟩ := ih hds fun d hd => h d (List.mem_cons_of_mem _ hd)
        exact ⟨zeros + 1, congrArg ('0' :: ·) hzeros⟩
    · have hhead : (d :: ds).head? ≠ some '0' := fun e => hd (Option.some.inj e)
      exact ⟨0, (toDigits_natOfDigits hn h hhead).symm⟩

theorem eq_numeral_iff {ds : List Char} {n : Nat} :
    (∃ zeros, ds = numeral zeros n) ↔
      ds ≠ [] ∧ (∀ d ∈ ds, d.isDigit = true) ∧ natOfDigits ds = n := by
  constructor
  · rintro ⟨zeros, rfl⟩
    refine ⟨?_, fun d => isDigit_numeral, natOfDigits_numeral zeros n⟩
    exact List.append_ne_nil_of_right_ne_nil _ Nat.toDigits_ne_nil
  · rintro ⟨hn, h, rfl⟩
    exact exists_numeral hn h

def withoutPlus : List Char → List Char
  | '+' :: cs => cs
  | cs => cs

theorem withoutPlus_eq_iff {cs ds : List Char} (h : ds.head? ≠ some '+') :
    withoutPlus cs = ds ↔ cs = ds ∨ cs = '+' :: ds := by
  unfold withoutPlus
  split
  · next cs =>
    have hne : '+' :: cs ≠ ds := fun e => h (by rw [← e]; rfl)
    simp [hne]
  · next hplus =>
    have hne : cs ≠ '+' :: ds := hplus ds
    simp [hne]

theorem head?_numeral (zeros n : Nat) : (numeral zeros n).head? ≠ some '+' := fun h =>
  absurd (isDigit_numeral (List.mem_of_mem_head? h)) (by decide)

theorem readNat32?_eq (cs : List Char) : readNat32? cs =
    if withoutPlus cs ≠ [] ∧ (withoutPlus cs).all Char.isDigit ∧
        natOfDigits (withoutPlus cs) < 0x100000000 then
      some (natOfDigits (withoutPlus cs))
    else none := rfl

/-- A natural number below the limit is read from its numeral. -/
theorem readNat32?_eq_some_iff {cs : List Char} {n : Nat} :
    readNat32? cs = some n ↔
      n < 0x100000000 ∧ ∃ zeros, cs = numeral zeros n ∨ cs = '+' :: numeral zeros n := by
  simp only [← withoutPlus_eq_iff (head?_numeral _ n), eq_numeral_iff, ← List.all_eq_true]
  rw [readNat32?_eq]
  constructor
  · intro h
    split at h
    · next hc =>
      cases h
      exact ⟨hc.2.2, hc.1, hc.2.1, rfl⟩
    · cases h
  · rintro ⟨hlt, hn, h, rfl⟩
    rw [if_pos ⟨hn, h, hlt⟩]

end Gcode

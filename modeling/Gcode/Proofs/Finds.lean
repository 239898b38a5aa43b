import Gcode.Scan
import Mathlib.Data.List.Basic

/-! What the finds of a pattern have to do with the text that is searched. -/
namespace Gcode.Pattern
variable {α : Type}

theorem findsFrom_add (p : Pattern α) (skip column k : Nat) (cs : List Char) :
    p.findsFrom skip (column + k) cs =
      (p.findsFrom skip column cs).map fun f => { f with start := f.start + k } := by
  induction cs generalizing skip column with
  | nil => cases skip <;> rfl
  | cons c cs ih =>
    have hcolumn : column + k + 1 = column + 1 + k := Nat.add_right_comm column k 1
    cases skip with
    | succ skip => rw [findsFrom, findsFrom, hcolumn, ih]
    | zero =>
      rw [findsFrom, findsFrom, hcolumn]
      cases p (c :: cs) with
      | none => exact ih 0 (column + 1)
      | some x => rw [List.map_cons, ← ih]

/-- Where no find reaches over the seam, two texts are searched apart. -/
theorem findsFrom_joined {p : Pattern α} {a b : List Char}
    (hw : ∀ cs x, p cs = some x → x.2 ≤ cs.length)
    (h : ∀ s, s <:+ a → s ≠ [] → p (s ++ b) = p s) (skip column : Nat) (hs : skip ≤ a.length) :
    p.findsFrom skip column (a ++ b) =
      p.findsFrom skip column a ++ p.findsFrom 0 (column + a.length) b := by
  induction a generalizing skip column with
  | nil =>
    obtain rfl : skip = 0 := Nat.le_zero.mp hs
    rfl
  | cons c a ih =>
    have hlen : column + 1 + a.length = column + (c :: a).length := by
      rw [List.length_cons]
      omega
    have htail : ∀ s, s <:+ a → s ≠ [] → p (s ++ b) = p s := fun s hsuffix =>
      h s (hsuffix.trans (List.suffix_cons c a))
    cases skip with
    | succ skip =>
      rw [List.cons_append, findsFrom, findsFrom, ih htail _ _ (Nat.le_of_succ_le_succ hs), hlen]
    | zero =>
      have hp := h (c :: a) (List.suffix_refl _) (List.cons_ne_nil c a)
      rw [List.cons_append] at hp ⊢
      rw [findsFrom, findsFrom, hp]
      cases hf : p (c :: a) with
      | none => simp only [ih htail _ _ (Nat.zero_le _), hlen]
      | some x =>
        have hx := hw _ _ hf
        have hrest : x.2 - 1 ≤ a.length := by
          rw [List.length_cons] at hx
          omega
        have htake : (c :: (a ++ b)).take x.2 = (c :: a).take x.2 := by
          rw [← List.cons_append, List.take_append_of_le_length hx]
        simp only [htake, ih htail _ _ hrest, hlen, List.cons_append]

/-- A find stands where the pattern matched. -/
theorem exists_of_mem_findsFrom {p : Pattern α} {skip column : Nat} {cs : List Char} {f : Find α}
    (h : f ∈ p.findsFrom skip column cs) :
    ∃ before rest width, cs = before ++ rest ∧ f.start = column + before.length ∧
      p rest = some (f.sort, width) ∧ f.text = rest.take width := by
  induction cs generalizing skip column with
  | nil => cases skip <;> exact absurd h List.not_mem_nil
  | cons c cs ih =>
    have behind {skip : Nat} (h : f ∈ p.findsFrom skip (column + 1) cs) :
        ∃ before rest width, c :: cs = before ++ rest ∧ f.start = column + before.length ∧
          p rest = some (f.sort, width) ∧ f.text = rest.take width := by
      obtain ⟨before, rest, width, rfl, hstart, hp, ht⟩ := ih h
      refine ⟨c :: before, rest, width, rfl, ?_, hp, ht⟩
      rw [hstart, List.length_cons]
      omega
    cases skip with
    | succ skip => exact behind h
    | zero =>
      rw [findsFrom] at h
      cases hp : p (c :: cs) with
      | none =>
        rw [hp] at h
        exact behind h
      | some x =>
        rw [hp] at h
        rcases List.mem_cons.mp h with rfl | h
        · exact ⟨[], c :: cs, x.2, rfl, rfl, hp, rfl⟩
        · exact behind h

theorem le_start_of_mem_findsFrom {p : Pattern α} {skip column : Nat} {cs : List Char}
    {f : Find α} (h : f ∈ p.findsFrom skip column cs) : column ≤ f.start := by
  obtain ⟨before, rest, width, -, hstart, -⟩ := exists_of_mem_findsFrom h
  rw [hstart]
  exact Nat.le_add_right column before.length

theorem pairwise_start (p : Pattern α) (skip column : Nat) (cs : List Char) :
    (p.findsFrom skip column cs).Pairwise (·.start < ·.start) := by
  induction cs generalizing skip column with
  | nil => cases skip <;> exact .nil
  | cons c cs ih =>
    cases skip with
    | succ skip => exact ih skip (column + 1)
    | zero =>
      rw [findsFrom]
      cases p (c :: cs) with
      | none => exact ih 0 (column + 1)
      | some x =>
        exact .cons (fun f hf => le_start_of_mem_findsFrom hf) (ih (x.2 - 1) (column + 1))

theorem add_skip_le_start {p : Pattern α} {skip column : Nat} {cs : List Char} {f : Find α}
    (h : f ∈ p.findsFrom skip column cs) : column + skip ≤ f.start := by
  rw [findsFrom_skip] at h
  exact le_start_of_mem_findsFrom h

/-- Finds do not overlap. -/
theorem pairwise_stop (p : Pattern α) (skip column : Nat) (cs : List Char) :
    (p.findsFrom skip column cs).Pairwise (·.stop ≤ ·.start) := by
  induction cs generalizing skip column with
  | nil => cases skip <;> exact .nil
  | cons c cs ih =>
    cases skip with
    | succ skip => exact ih skip (column + 1)
    | zero =>
      rw [findsFrom]
      cases p (c :: cs) with
      | none => exact ih 0 (column + 1)
      | some x =>
        refine .cons (fun f hf => ?_) (ih (x.2 - 1) (column + 1))
        have hstart := add_skip_le_start hf
        have hwidth : ((c :: cs).take x.2).length ≤ x.2 := List.length_take_le x.2 (c :: cs)
        show column + ((c :: cs).take x.2).length ≤ f.start
        omega

/-- At how many places of a text a pattern matches, whether the matches overlap or not. -/
def places (p : Pattern α) : List Char → Nat
  | [] => 0
  | c :: cs => (if (p (c :: cs)).isSome then 1 else 0) + places p cs

theorem places_eq_countP (p : Pattern α) (cs : List Char) :
    p.places cs = (List.range cs.length).countP fun i => (p (cs.drop i)).isSome := by
  induction cs with
  | nil => rfl
  | cons c cs ih =>
    rw [places, ih, List.length_cons, List.range_succ_eq_map, List.countP_cons, List.countP_map,
      List.drop_zero, Nat.add_comm]
    rfl

theorem places_append {p : Pattern α} {s : List Char} (r : List Char)
    (h : ∀ c ∈ s, ∀ cs, p (c :: cs) = none) : p.places (s ++ r) = p.places r := by
  induction s with
  | nil => rfl
  | cons c s ih =>
    rw [List.cons_append, places, h c List.mem_cons_self,
      ih fun d hd => h d (List.mem_cons_of_mem c hd)]
    exact Nat.zero_add _

theorem places_drop {p : Pattern α} {cs : List Char} {n : Nat}
    (h : ∀ i < n, p (cs.drop i) = none) : p.places cs = p.places (cs.drop n) := by
  induction n generalizing cs with
  | zero => rfl
  | succ n ih =>
    cases cs with
    | nil => rfl
    | cons c cs =>
      have hc : p (c :: cs) = none := h 0 (Nat.zero_lt_succ n)
      rw [places, hc, List.drop_succ_cons]
      simp only [Option.isSome_none, Bool.false_eq_true, if_false, Nat.zero_add]
      exact ih fun i hi => h (i + 1) (Nat.succ_lt_succ hi)

/-- If no match begins inside of another one, a pattern is found wherever it matches. -/
theorem length_findsFrom {p : Pattern α}
    (h : ∀ cs x, p cs = some x → ∀ i, 0 < i → i < x.2 → p (cs.drop i) = none)
    (skip column : Nat) (cs : List Char) :
    (p.findsFrom skip column cs).length = p.places (cs.drop skip) := by
  induction cs generalizing skip column with
  | nil => cases skip <;> rfl
  | cons c cs ih =>
    cases skip with
    | succ skip => exact ih skip (column + 1)
    | zero =>
      rw [findsFrom, List.drop_zero, places]
      cases hp : p (c :: cs) with
      | none => simpa using ih 0 (column + 1)
      | some x =>
        have hinside : ∀ i < x.2 - 1, p (cs.drop i) = none := fun i hi =>
          h _ _ hp (i + 1) (Nat.zero_lt_succ i) (by omega)
        simp only [List.length_cons, ih, Option.isSome_some, if_true]
        rw [places_drop hinside, Nat.add_comm]

theorem first?_cons (p : Pattern α) (c : Char) (cs : List Char) :
    p.first? (c :: cs) = ((p (c :: cs)).map (·.1)).or (p.first? cs) := by
  rw [first?]
  cases p (c :: cs) <;> rfl

/-- A pattern that reads a character and its image alike is first found in both texts alike. -/
theorem first?_map {p : Pattern α} {f : Char → Char} (h : ∀ cs, p (cs.map f) = p cs)
    (cs : List Char) : p.first? (cs.map f) = p.first? cs := by
  induction cs with
  | nil => rfl
  | cons c cs ih =>
    have hfront := h (c :: cs)
    rw [List.map_cons] at hfront
    rw [List.map_cons, first?_cons, hfront, ih, first?_cons]

theorem first?_append {p : Pattern α} {s : List Char} (r : List Char)
    (h : ∀ c ∈ s, ∀ cs, p (c :: cs) = none) : p.first? (s ++ r) = p.first? r := by
  induction s with
  | nil => rfl
  | cons c s ih =>
    rw [List.cons_append, first?, h c List.mem_cons_self]
    exact ih fun d hd => h d (List.mem_cons_of_mem c hd)

/-- If what follows a text decides nothing within it, the text is searched first. -/
theorem first?_seam {p : Pattern α} {r : List Char}
    (h : ∀ s ≠ [], (p (s ++ r)).map (·.1) = (p s).map (·.1)) (cs : List Char) :
    p.first? (cs ++ r) = (p.first? cs).or (p.first? r) := by
  induction cs with
  | nil => rfl
  | cons c cs ih =>
    have hc := h (c :: cs) (List.cons_ne_nil c cs)
    rw [List.cons_append] at hc ⊢
    rw [first?_cons, first?_cons, hc, ih, Option.or_assoc]

def IsFirst (Stands : α → List Char → Prop) (a : α) (cs : List Char) : Prop :=
  ∃ i, Stands a (cs.drop i) ∧ ∀ j < i, ∀ b, ¬Stands b (cs.drop j)

structure Recognizes (p : Pattern α) (Stands : α → List Char → Prop) : Prop where
  stands_iff : ∀ a cs, (p cs).map (·.1) = some a ↔ Stands a cs
  not_nil : ∀ a, ¬Stands a []

namespace Recognizes
variable {p : Pattern α} {Stands : α → List Char → Prop}

theorem map_eq_none_iff (h : p.Recognizes Stands) {cs : List Char} :
    (p cs).map (·.1) = none ↔ ∀ a, ¬Stands a cs := by
  rw [Option.eq_none_iff_forall_ne_some]
  exact forall_congr' fun a => not_congr (h.stands_iff a cs)

theorem first?_eq_some_iff (h : p.Recognizes Stands) {a : α} {cs : List Char} :
    p.first? cs = some a ↔ IsFirst Stands a cs := by
  induction cs with
  | nil => simp [first?, IsFirst, h.not_nil]
  | cons c cs ih =>
    rw [first?_cons]
    cases hp : (p (c :: cs)).map (·.1) with
    | some b =>
      have hb : Stands b (c :: cs) := (h.stands_iff b _).mp hp
      constructor
      · rintro ⟨⟩
        exact ⟨0, hb, fun j hj => absurd hj (Nat.not_lt_zero j)⟩
      · rintro ⟨i, ha, hbefore⟩
        cases i with
        | zero => rw [← (h.stands_iff a _).mpr ha, List.drop_zero, hp, Option.some_or]
        | succ i => exact absurd hb (hbefore 0 (Nat.zero_lt_succ i) b)
    | none =>
      have hnone : ∀ b, ¬Stands b (c :: cs) := h.map_eq_none_iff.mp hp
      rw [Option.none_or, ih]
      constructor
      · rintro ⟨i, ha, hbefore⟩
        refine ⟨i + 1, ha, fun j hj => ?_⟩
        cases j with
        | zero => exact hnone
        | succ j => exact hbefore j (Nat.lt_of_succ_lt_succ hj)
      · rintro ⟨i, ha, hbefore⟩
        cases i with
        | zero => exact absurd ha (hnone a)
        | succ i => exact ⟨i, ha, fun j hj => hbefore (j + 1) (Nat.succ_lt_succ hj)⟩

theorem first?_eq_none_iff (h : p.Recognizes Stands) {cs : List Char} :
    p.first? cs = none ↔ ∀ a i, ¬Stands a (cs.drop i) := by
  induction cs with
  | nil => simp [first?, h.not_nil]
  | cons c cs ih =>
    rw [first?_cons, Option.or_eq_none_iff, h.map_eq_none_iff, ih]
    constructor
    · rintro ⟨hc, hcs⟩ a i
      cases i with
      | zero => exact hc a
      | succ i => exact hcs a i
    · exact fun hall => ⟨fun a => hall a 0, fun a i => hall a (i + 1)⟩

end Recognizes
end Gcode.Pattern

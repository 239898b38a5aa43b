import Gcode.Character

/-! Searching a text for a pattern: the leftmost finds that do not overlap. -/
namespace Gcode

/-- A pattern says what stands at the front of a text and how many characters it takes there,
at least one. -/
abbrev Pattern (α : Type) := List Char → Option (α × Nat)

structure Find (α : Type) where
  start : Nat
  sort : α
  text : List Char
deriving DecidableEq, Repr

namespace Find
variable {α : Type}

def stop (f : Find α) : Nat := f.start + f.text.length

end Find

namespace Pattern
variable {α : Type}

/-- The finds in a text whose first character stands in the given column. The first `skip`
characters belong to an earlier find. -/
def findsFrom (p : Pattern α) : (skip column : Nat) → List Char → List (Find α)
  | _, _, [] => []
  | skip + 1, column, _ :: cs => findsFrom p skip (column + 1) cs
  | 0, column, c :: cs =>
    match p (c :: cs) with
    | some (sort, width) =>
      ⟨column, sort, (c :: cs).take width⟩ :: findsFrom p (width - 1) (column + 1) cs
    | none => findsFrom p 0 (column + 1) cs

def finds (p : Pattern α) (cs : List Char) : List (Find α) := p.findsFrom 0 0 cs

/-- Skipping characters is searching the text after them. -/
theorem findsFrom_skip (p : Pattern α) (skip column : Nat) (cs : List Char) :
    p.findsFrom skip column cs = p.findsFrom 0 (column + skip) (cs.drop skip) := by
  induction skip generalizing column cs with
  | zero => simp
  | succ skip ih =>
    cases cs with
    | nil => simp [findsFrom]
    | cons c cs => simp [findsFrom, ih, Nat.add_right_comm, Nat.add_assoc]

/-- A pattern that takes exactly the front part of a text finds it, and goes on behind it. -/
theorem findsFrom_append {p : Pattern α} {sort : α} {t r : List Char} (hn : t ≠ [])
    (h : p (t ++ r) = some (sort, t.length)) (column : Nat) :
    p.findsFrom 0 column (t ++ r) =
      ⟨column, sort, t⟩ :: p.findsFrom 0 (column + t.length) r := by
  cases t with
  | nil => exact absurd rfl hn
  | cons c t =>
    simp only [List.cons_append, List.length_cons] at h
    have htake : (c :: (t ++ r)).take (t.length + 1) = c :: t := by simp
    rw [List.cons_append, findsFrom, h]
    simp only [htake, Nat.add_sub_cancel, List.length_cons]
    rw [findsFrom_skip, List.drop_left, Nat.add_right_comm, Nat.add_assoc]

def first? (p : Pattern α) : List Char → Option α
  | [] => none
  | c :: cs =>
    match p (c :: cs) with
    | some (sort, _) => some sort
    | none => first? p cs

def orElse (p q : Pattern α) : Pattern α := fun cs => (p cs).or (q cs)

def afterFirst (sort : α) (inClass : Char → Bool) : Pattern α := fun cs =>
  match leading inClass cs with
  | 0 => none
  | n + 1 => some (sort, n + 2)

end Pattern
end Gcode

import Gcode.Comment

/-! How removal of comments acts on joined texts. What stands in front of a text matters to it only
by a `(` or a `;` that is still open. -/
namespace Gcode

def IsPlain (c : Char) : Prop := c ≠ '(' ∧ c ≠ ';' ∧ isBlank c = false

instance : DecidablePred IsPlain := fun c =>
  inferInstanceAs (Decidable (c ≠ '(' ∧ c ≠ ';' ∧ isBlank c = false))

theorem ne_of_class {p : Char → Bool} {c d : Char} (hc : p c = true) (hd : p d = false) :
    c ≠ d :=
  ne_of_apply_ne p (by rw [hc, hd]; decide)

theorem mem_dropClosed {c : Char} {inside : Bool} {cs : List Char}
    (h : c ∈ dropClosed inside cs) : c ∈ cs := by
  induction cs generalizing inside with
  | nil => simp [dropClosed] at h
  | cons d cs ih =>
    cases inside with
    | true => exact List.mem_cons_of_mem d (ih h)
    | false =>
      simp only [dropClosed] at h
      split at h
      · exact List.mem_cons_of_mem d (ih h)
      · cases List.mem_cons.mp h with
        | inl he => exact he ▸ List.mem_cons_self
        | inr h => exact List.mem_cons_of_mem d (ih h)

/-- A comment that the rest of a text closes is still closed after one more character. -/
theorem closes_tail {c : Char} {cs : List Char} (h : ')' ∈ c :: cs) :
    (c != ')') = true → ')' ∈ cs := by
  intro hne
  cases List.mem_cons.mp h with
  | inl he => exact absurd he.symm (bne_iff_ne.mp hne)
  | inr hm => exact hm

/-- A text that leaves no comment open is finished before the next one starts. -/
theorem dropClosed_append_closed {inside : Bool} {a : List Char} (b : List Char)
    (hi : inside = true → ')' ∈ a) (ha : '(' ∉ dropClosed inside a) :
    dropClosed inside (a ++ b) = dropClosed inside a ++ dropClosed false b := by
  induction a generalizing inside with
  | nil =>
    cases inside with
    | true => simp at hi
    | false => rfl
  | cons c a ih =>
    cases inside with
    | true => exact ih (closes_tail (hi rfl)) ha
    | false =>
      by_cases hp : c = '('
      · subst hp
        by_cases hm : ')' ∈ a
        · simp only [dropClosed, hm, and_self, if_true, List.cons_append, List.mem_append,
            true_or] at ha ⊢
          exact ih (fun _ => hm) ha
        · simp [dropClosed, hm] at ha
      · simp only [dropClosed, hp, false_and, if_false, List.cons_append, List.mem_cons,
          not_or] at ha ⊢
        rw [ih (by simp) ha.2]

/-- A text without `)` closes nothing that stands open in front of it. -/
theorem dropClosed_append_of_notMem {inside : Bool} {a b : List Char}
    (hi : inside = true → ')' ∈ a) (hb : ')' ∉ b) :
    dropClosed inside (a ++ b) = dropClosed inside a ++ b := by
  induction a generalizing inside with
  | nil =>
    cases inside with
    | true => simp at hi
    | false =>
      clear hi
      induction b with
      | nil => rfl
      | cons c b ih =>
        have hm : ')' ∉ b := fun h => hb (List.mem_cons_of_mem c h)
        have h := ih hm
        simp only [List.nil_append] at h
        simp [dropClosed, hm, h]
  | cons c a ih =>
    cases inside with
    | true => exact ih (closes_tail (hi rfl))
    | false =>
      by_cases hp : c = '(' ∧ ')' ∈ a
      · have hp' : c = '(' ∧ ')' ∈ a ++ b := ⟨hp.1, List.mem_append_left b hp.2⟩
        simp only [dropClosed, hp, hp', and_self, if_true, List.cons_append]
        exact ih (fun _ => hp.2)
      · have hp' : ¬(c = '(' ∧ ')' ∈ a ++ b) := by simpa [hb] using hp
        simp only [dropClosed, hp, hp', if_false, List.cons_append]
        rw [ih (by simp)]

theorem dropClosed_comment {c : List Char} (b : List Char) (hc : ')' ∉ c) :
    dropClosed false ('(' :: (c ++ ')' :: b)) = dropClosed false b := by
  have hi (cs : List Char) (h : ')' ∉ cs) :
      dropClosed true (cs ++ ')' :: b) = dropClosed false b := by
    induction cs with
    | nil => rfl
    | cons d cs ih =>
      have hd : (d != ')') = true := bne_iff_ne.mpr fun e => h (e ▸ List.mem_cons_self)
      rw [List.cons_append, dropClosed, hd]
      exact ih fun m => h (List.mem_cons_of_mem d m)
  simpa [dropClosed] using hi c hc

/-- Characters that are no parentheses may go before or after the comments do. -/
theorem dropClosed_filter {p : Char → Bool} (ho : p '(' = true) (hc : p ')' = true)
    (inside : Bool) (cs : List Char) :
    dropClosed inside (cs.filter p) = (dropClosed inside cs).filter p := by
  induction cs generalizing inside with
  | nil => rfl
  | cons c cs ih =>
    have hm : ')' ∈ cs.filter p ↔ ')' ∈ cs := by simp [hc]
    cases inside with
    | true =>
      by_cases hp : p c = true
      · simp [hp, dropClosed, ih]
      · have hne : (c != ')') = true := bne_iff_ne.mpr fun e => hp (e ▸ hc)
        rw [List.filter_cons_of_neg hp, ih, dropClosed, hne]
    | false =>
      by_cases hp : p c = true
      · simp only [List.filter_cons_of_pos hp, dropClosed, hm]
        split
        · exact ih true
        · simp [hp, ih]
      · have hne : c ≠ '(' := fun e => hp (e ▸ ho)
        simp [hp, dropClosed, ih, hne]

theorem takeWhile_append_cons_neg {α : Type} {p : α → Bool} {x : α} (hx : p x = false)
    (l r : List α) : (l ++ x :: r).takeWhile p = l.takeWhile p := by
  induction l with
  | nil => simp [hx]
  | cons c l ih => simp only [List.cons_append, List.takeWhile_cons, ih]

/-- Within one line the remark starts at the first `;`. -/
theorem dropRemark_eq_takeWhile {cs : List Char} (h : '\n' ∉ cs) :
    dropRemark cs = cs.takeWhile (· != ';') := by
  induction cs with
  | nil => rfl
  | cons c cs ih =>
    have ht : '\n' ∉ cs := fun m => h (List.mem_cons_of_mem c m)
    by_cases hc : c = ';'
    · simp [dropRemark, hc, ht]
    · simp [dropRemark, hc, ih ht]

theorem withoutComments_eq {cs : List Char} (h : '\n' ∉ cs) :
    withoutComments cs =
      ((dropClosed false cs).takeWhile (· != ';')).filter (!isBlank ·) := by
  rw [withoutComments, dropRemark_eq_takeWhile fun m => h (mem_dropClosed m)]

/-- A character that opens no comment stays, unless it is white space. -/
theorem withoutComments_cons {c : Char} (cs : List Char) (hp : c ≠ '(') (hs : c ≠ ';') :
    withoutComments (c :: cs) = [c].filter (!isBlank ·) ++ withoutComments cs := by
  simp only [withoutComments, dropClosed, hp, false_and, if_false, dropRemark, hs,
    ← List.filter_append, List.singleton_append]

/-- Text that holds neither white space nor the beginning of a comment stays. -/
theorem withoutComments_append_plain {t : List Char} (cs : List Char)
    (h : ∀ c ∈ t, IsPlain c) :
    withoutComments (t ++ cs) = t ++ withoutComments cs := by
  induction t with
  | nil => rfl
  | cons c t ih =>
    obtain ⟨hp, hs, hb⟩ := h c List.mem_cons_self
    rw [List.cons_append, withoutComments_cons _ hp hs,
      ih fun d hd => h d (List.mem_cons_of_mem c hd)]
    simp [hb]

theorem withoutComments_comment {c : List Char} (cs : List Char) (hc : ')' ∉ c) :
    withoutComments ('(' :: (c ++ ')' :: cs)) = withoutComments cs := by
  rw [withoutComments, dropClosed_comment cs hc, ← withoutComments]

theorem withoutComments_remark {t : List Char} (ht : '\n' ∉ t) :
    withoutComments (';' :: t) = [] := by
  have h : '\n' ∉ dropClosed false t := fun m => ht (mem_dropClosed m)
  simp [withoutComments, dropClosed, dropRemark, h]

theorem withoutComments_cons_blank {c : Char} (cs : List Char) (hc : isBlank c = true) :
    withoutComments (c :: cs) = withoutComments cs := by
  rw [withoutComments_cons cs (ne_of_class hc (by decide)) (ne_of_class hc (by decide))]
  simp [hc]

theorem withoutComments_blank {cs : List Char} (h : cs.all isBlank = true) :
    withoutComments cs = [] := by
  induction cs with
  | nil => rfl
  | cons c cs ih =>
    simp only [List.all_cons, Bool.and_eq_true] at h
    rw [withoutComments_cons_blank cs h.1, ih h.2]

end Gcode

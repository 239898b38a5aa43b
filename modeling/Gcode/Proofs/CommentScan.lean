import Gcode.Proofs.LabelText

/-! Comments and white space removed in a single scan. Three passes over a line leave exactly what
one scan from left to right copies, and a second removal finds nothing more. -/
namespace Gcode

def afterComment (cs : List Char) : List Char := (cs.dropWhile (· != ')')).tail

theorem afterComment_suffix (cs : List Char) : afterComment cs <:+ cs :=
  (List.tail_suffix _).trans (List.dropWhile_suffix _)

/-- What a scan of a line copies. It skips closed comments and white space, and stops at a `;`. -/
def scanLine : List Char → List Char
  | [] => []
  | c :: cs =>
    if c = '(' ∧ ')' ∈ cs then scanLine (afterComment cs)
    else if c = ';' then []
    else if isBlank c then scanLine cs
    else c :: scanLine cs
termination_by cs => cs.length
decreasing_by
  · exact Nat.lt_succ_of_le (afterComment_suffix cs).length_le
  · exact Nat.lt_succ_self cs.length
  · exact Nat.lt_succ_self cs.length

theorem dropClosed_inside (cs : List Char) :
    dropClosed true cs = dropClosed false (afterComment cs) := by
  induction cs with
  | nil => rfl
  | cons c cs ih =>
    by_cases hc : c = ')'
    · subst hc
      rfl
    · have hne : (c != ')') = true := bne_iff_ne.mpr hc
      rw [dropClosed, hne, ih, afterComment, afterComment, List.dropWhile_cons, if_pos hne]

theorem withoutComments_closed {cs : List Char} (h : ')' ∈ cs) :
    withoutComments ('(' :: cs) = withoutComments (afterComment cs) := by
  have hclosed : dropClosed false ('(' :: cs) = dropClosed true cs := by simp [dropClosed, h]
  rw [withoutComments, hclosed, dropClosed_inside, ← withoutComments]

/-- A `(` that nothing closes is kept like any other character. -/
theorem withoutComments_kept {c : Char} {cs : List Char} (hopen : ¬(c = '(' ∧ ')' ∈ cs))
    (hs : c ≠ ';') (hb : isBlank c = false) :
    withoutComments (c :: cs) = c :: withoutComments cs := by
  simp [withoutComments, dropClosed, dropRemark, hopen, hs, hb]

theorem withoutComments_eq_scanLine {cs : List Char} (h : '\n' ∉ cs) :
    withoutComments cs = scanLine cs := by
  induction cs using scanLine.induct with
  | case1 =>
    rw [scanLine]
    rfl
  | case2 c cs hc ih =>
    have hrest : '\n' ∉ afterComment cs := fun hm =>
      h (List.mem_cons_of_mem c ((afterComment_suffix cs).mem hm))
    rw [scanLine, if_pos hc, ← ih hrest, hc.1, withoutComments_closed hc.2]
  | case3 cs hc =>
    rw [scanLine, if_neg hc, if_pos rfl,
      withoutComments_remark fun hm => h (List.mem_cons_of_mem _ hm)]
  | case4 c cs hc hs hb ih =>
    rw [scanLine, if_neg hc, if_neg hs, if_pos hb, withoutComments_cons_blank cs hb,
      ih fun hm => h (List.mem_cons_of_mem c hm)]
  | case5 c cs hc hs hb ih =>
    rw [scanLine, if_neg hc, if_neg hs, if_neg hb,
      withoutComments_kept hc hs (Bool.not_eq_true _ ▸ hb),
      ih fun hm => h (List.mem_cons_of_mem c hm)]

structure IsBare (cs : List Char) : Prop where
  solid : IsSolid cs
  no_remark : ';' ∉ cs
  no_comment : cs.Pairwise fun c d => ¬(c = '(' ∧ d = ')')

theorem no_comment_dropClosed (inside : Bool) (cs : List Char) :
    (dropClosed inside cs).Pairwise fun c d => ¬(c = '(' ∧ d = ')') := by
  induction cs generalizing inside with
  | nil => exact .nil
  | cons c cs ih =>
    cases inside with
    | true => exact ih (c != ')')
    | false =>
      rw [dropClosed]
      split
      · exact ih true
      · next hc => exact .cons (fun d hd he => hc ⟨he.1, he.2 ▸ mem_dropClosed hd⟩) (ih false)

theorem isBare_withoutComments {cs : List Char} (h : '\n' ∉ cs) : IsBare (withoutComments cs) where
  solid := isSolid_withoutComments cs
  no_remark hm := by
    rw [withoutComments_eq h] at hm
    have hne := List.all_eq_true.mp List.all_takeWhile _ (List.mem_of_mem_filter hm)
    exact absurd hne (by decide)
  no_comment := by
    rw [withoutComments_eq h]
    exact ((no_comment_dropClosed false cs).sublist (List.takeWhile_sublist _)).filter _

namespace IsBare
variable {cs : List Char}

theorem dropClosed_eq (h : cs.Pairwise fun c d => ¬(c = '(' ∧ d = ')')) :
    dropClosed false cs = cs := by
  induction cs with
  | nil => rfl
  | cons c cs ih =>
    obtain ⟨hc, hcs⟩ := List.pairwise_cons.mp h
    rw [dropClosed, if_neg fun he => hc ')' he.2 ⟨he.1, rfl⟩, ih hcs]

theorem withoutComments_eq (h : IsBare cs) : withoutComments cs = cs := by
  have hfeed : '\n' ∉ cs := fun hm => absurd (h.solid '\n' hm) (by decide)
  have hremark : ∀ c ∈ cs, (c != ';') = true := fun c hc =>
    bne_iff_ne.mpr fun e => h.no_remark (e ▸ hc)
  have hsolid : ∀ c ∈ cs, (!isBlank c) = true := fun c hc => by rw [h.solid c hc]; rfl
  rw [Gcode.withoutComments_eq hfeed, dropClosed_eq h.no_comment,
    List.takeWhile_eq_self_iff.mpr hremark, List.filter_eq_self.mpr hsolid]

end IsBare

/-- Removal of comments and white space from a line is one scan. What it leaves is bare, and bare
text stays as it is. -/
theorem withoutComments_scan {cs : List Char} (h : '\n' ∉ cs) :
    withoutComments cs = scanLine cs ∧ IsBare (withoutComments cs) ∧
      withoutComments (withoutComments cs) = withoutComments cs :=
  ⟨withoutComments_eq_scanLine h, isBare_withoutComments h,
    (isBare_withoutComments h).withoutComments_eq⟩

/-- A `;` in a comment, a `(` in a comment, a `)` that closes nothing and a `(` that stays open. -/
theorem withoutComments_scan_open_comment :
    let line := "g0)(a;b(c) X1(y;M6(z".toList
    '\n' ∉ line ∧ withoutComments line = scanLine line ∧ IsBare (scanLine line) ∧
      scanLine line = "g0)X1(y".toList ∧
      withoutComments "g0)X1(y".toList = "g0)X1(y".toList := by
  intro line
  have hfeed : '\n' ∉ line := by decide +kernel
  have hresult : withoutComments line = "g0)X1(y".toList := by decide +kernel
  obtain ⟨hscan, hbare, hagain⟩ := withoutComments_scan hfeed
  rw [hresult] at hagain
  exact ⟨hfeed, hscan, hscan ▸ hbare, hscan ▸ hresult, hagain⟩

end Gcode

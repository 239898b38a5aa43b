import Gcode.Proofs.ModelineLines
import Gcode.Reference.Registry

/-! Where modelines are looked for. The first five lines and the last five count, each of them once
and from the top, and nothing between them does. -/
namespace Gcode

def dropReturn (l : List Char) : List Char :=
  if l.getLast? = some '\r' then l.dropLast else l

/-- The lines of a text between its line feeds, each without a carriage return at its end. Behind
a feed at the very end there is none. -/
def feedLines (cs : List Char) : List (List Char) :=
  let lines := cs.splitOn '\n'
  (if lines.getLast? = some [] then lines.dropLast else lines).map dropReturn

theorem dropReturn_cons {c : Char} {l : List Char} (h : c = '\r' → l ≠ []) :
    dropReturn (c :: l) = c :: dropReturn l := by
  cases l with
  | nil =>
    have hc : c ≠ '\r' := fun e => h e rfl
    simp [dropReturn, hc]
  | cons d l =>
    rw [dropReturn, dropReturn, List.getLast?_cons_cons, List.dropLast_cons_cons]
    split <;> rfl

theorem feedLines_line {l : List Char} (cs : List Char) (hl : '\n' ∉ l) :
    feedLines (l ++ '\n' :: cs) = dropReturn l :: feedLines cs := by
  obtain ⟨p, ps, hps⟩ := List.exists_cons_of_ne_nil (List.splitOn_ne_nil '\n' cs)
  simp only [feedLines, List.splitOn_append_cons_self_of_not_mem hl, hps, List.getLast?_cons_cons,
    List.dropLast_cons_cons]
  split <;> rfl

theorem feedLines_last {l : List Char} (hl : '\n' ∉ l) :
    feedLines l = if l = [] then [] else [dropReturn l] := by
  simp only [feedLines, List.splitOn_eq_singleton hl]
  by_cases he : l = [] <;> simp [he]

namespace Modeline

theorem cutAtFeeds_cons {c : Char} {cs : List Char} (hc : c ≠ '\n')
    (hr : c = '\r' → cs.head? ≠ some '\n') :
    cutAtFeeds (c :: cs) = (c :: (cutAtFeeds cs).headD []) :: (cutAtFeeds cs).tail := by
  rw [cutAtFeeds.eq_4 c cs hc fun ds e he => hr e (he ▸ rfl)]
  cases cutAtFeeds cs <;> rfl

theorem cutAtFeeds_line {l : List Char} (cs : List Char) (hl : '\n' ∉ l) :
    cutAtFeeds (l ++ '\n' :: cs) = dropReturn l :: cutAtFeeds cs := by
  induction l with
  | nil => rfl
  | cons c l ih =>
    rw [List.mem_cons, not_or] at hl
    obtain ⟨hc, hl⟩ := hl
    by_cases hr : c = '\r' ∧ l = []
    · obtain ⟨rfl, rfl⟩ := hr
      rfl
    · have hfeed : c = '\r' → (l ++ '\n' :: cs).head? ≠ some '\n' := by
        intro e he
        cases l with
        | nil => exact hr ⟨e, rfl⟩
        | cons d l => exact hl (Option.some.inj he ▸ List.mem_cons_self)
      rw [List.cons_append, cutAtFeeds_cons (Ne.symm hc) hfeed, ih hl,
        dropReturn_cons fun e he => hr ⟨e, he⟩]
      rfl

theorem cutAtFeeds_last {l : List Char} (hl : '\n' ∉ l) :
    cutAtFeeds l = if l = [] then [] else [l] := by
  induction l with
  | nil => rfl
  | cons c l ih =>
    rw [List.mem_cons, not_or] at hl
    obtain ⟨hc, hl⟩ := hl
    have hfeed : c = '\r' → l.head? ≠ some '\n' := fun _ he => hl (List.mem_of_mem_head? he)
    rw [cutAtFeeds_cons (Ne.symm hc) hfeed, ih hl]
    by_cases he : l = [] <;> simp [he]

/-- A modeline with a name at the front of a text: the keyword, an equals sign with any white
space around it, and the name, which ends where no character of a name follows. -/
def Gives (name : String) (cs : List Char) : Prop :=
  ∃ s t r, cs = keyword ++ (s ++ '=' :: (t ++ (name.toList ++ r))) ∧
    (∀ c ∈ s, isBlank c = true) ∧ (∀ c ∈ t, isBlank c = true) ∧ name ≠ "" ∧
    (∀ c ∈ name.toList, isNameChar c = true) ∧ ∀ c ∈ r.head?, isNameChar c = false

theorem isBlank_false_of_isNameChar {c : Char} (h : isNameChar c = true) : isBlank c = false := by
  simp only [isNameChar, Bool.or_eq_true, beq_iff_eq] at h
  obtain (h | rfl) | rfl := h
  · exact (isPlain_of_isAlphanum h).2.2
  · rfl
  · rfl

theorem gives_of_modeline? {cs : List Char} {x : String × Nat} (h : modeline? cs = some x) :
    Gives x.1 cs := by
  unfold modeline? at h
  split at h
  · rename_i hkeyword
    obtain ⟨s, u, hu, hs, huhead⟩ := exists_span isBlank (cs.drop keyword.length)
    have hcs := List.take_append_drop keyword.length cs
    rw [hkeyword, hu] at hcs
    rw [hu, dropWhile_append_of_class hs huhead] at h
    split at h
    · rename_i v
      obtain ⟨t, w, rfl, ht, hw⟩ := exists_span isBlank v
      obtain ⟨name, r, rfl, hname, hr⟩ := exists_span isNameChar w
      simp only [dropWhile_append_of_class ht hw, leading_append hname hr] at h
      split at h
      · cases h
      · rename_i n hn
        have hlen : name.length = n + 1 := hn
        rw [← hlen, List.take_left] at h
        cases h
        have hne : String.ofList name ≠ "" := by
          rw [Ne, ← String.toList_eq_nil_iff, String.toList_ofList]
          exact List.ne_nil_of_length_eq_add_one hlen
        refine ⟨s, t, r, ?_, hs, ht, hne, ?_, hr⟩
        · rw [← hcs, String.toList_ofList]
        · rwa [String.toList_ofList]
    · cases h
  · cases h

theorem modeline?_of_gives {name : String} {cs : List Char} (h : Gives name cs) :
    ∃ width, modeline? cs = some (name, width) := by
  obtain ⟨s, t, r, rfl, hs, ht, hne, hname, hr⟩ := h
  obtain ⟨c, n, hn⟩ := List.exists_cons_of_ne_nil (mt String.toList_eq_nil_iff.mp hne)
  have hequals : ∀ d ∈ ('=' :: (t ++ (name.toList ++ r))).head?, isBlank d = false :=
    fun d hd => Option.some.inj hd ▸ rfl
  have hhead : ∀ d ∈ (name.toList ++ r).head?, isBlank d = false := by
    intro d hd
    rw [hn] at hd hname
    exact Option.some.inj hd ▸ isBlank_false_of_isNameChar (hname c List.mem_cons_self)
  have hlen : name.toList.length = n.length + 1 := by rw [hn, List.length_cons]
  rw [modeline?, List.take_left, if_pos rfl, List.drop_left, dropWhile_append_of_class hs hequals]
  simp only [dropWhile_append_of_class ht hhead, leading_append hname hr, hlen]
  rw [← hlen, List.take_left, String.ofList_toList]
  exact ⟨_, rfl⟩

theorem recognizes_modeline? : modeline?.Recognizes Gives where
  stands_iff name cs := by
    constructor
    · intro h
      obtain ⟨x, hx, rfl⟩ := Option.map_eq_some_iff.mp h
      exact gives_of_modeline? hx
    · intro h
      obtain ⟨width, hwidth⟩ := modeline?_of_gives h
      rw [hwidth]
      rfl
  not_nil name := by
    rintro ⟨s, t, r, h, -⟩
    have hkeyword : keyword ≠ [] := by decide
    exact hkeyword (List.append_eq_nil_iff.mp h.symm).1

/-- A carriage return behind a modeline says nothing. -/
theorem gives_append_return {name : String} {cs : List Char} :
    Gives name (cs ++ ['\r']) ↔ Gives name cs := by
  constructor
  · rintro ⟨s, t, r, he, hs, ht, hne, hname, hr⟩
    cases r using List.reverseRecOn with
    | nil =>
      -- The carriage return would be the last character of the name.
      obtain hnil | ⟨n, c, hn⟩ := List.eq_nil_or_concat' name.toList
      · exact absurd (String.toList_eq_nil_iff.mp hnil) hne
      · have he' : cs ++ ['\r'] = keyword ++ (s ++ '=' :: (t ++ n)) ++ [c] := by
          simpa [hn] using he
        obtain ⟨-, hc⟩ := List.append_inj' he' rfl
        have hmem : c ∈ name.toList := by simp [hn]
        exact absurd ((List.cons.inj hc).1 ▸ hname c hmem) (by decide)
    | append_singleton r c =>
      have he' : cs ++ ['\r'] = keyword ++ (s ++ '=' :: (t ++ (name.toList ++ r))) ++ [c] := by
        simpa using he
      obtain ⟨rfl, -⟩ := List.append_inj' he' rfl
      refine ⟨s, t, r, rfl, hs, ht, hne, hname, fun d hd => hr d ?_⟩
      exact List.mem_head?_append_of_mem_head? hd
  · rintro ⟨s, t, r, rfl, hs, ht, hne, hname, hr⟩
    refine ⟨s, t, r ++ ['\r'], by simp, hs, ht, hne, hname, ?_⟩
    cases r with
    | nil => simp [isNameChar]
    | cons d r => exact hr

theorem first?_dropReturn (l : List Char) :
    modeline?.first? (dropReturn l) = modeline?.first? l := by
  rw [dropReturn]
  split
  · rename_i hlast
    have hfront (s : List Char) (_ : s ≠ []) :
        (modeline? (s ++ ['\r'])).map (·.1) = (modeline? s).map (·.1) := by
      apply Option.ext
      intro name
      rw [recognizes_modeline?.stands_iff, recognizes_modeline?.stands_iff, gives_append_return]
    have hreturn : modeline?.first? ['\r'] = none := by decide
    obtain ⟨t, rfl⟩ := List.getLast?_eq_some_iff.mp hlast
    rw [List.dropLast_concat, Pattern.first?_seam hfront, hreturn, Option.or_none]
  · rfl

theorem map_first?_feedLines (cs : List Char) :
    (feedLines cs).map modeline?.first? = (cutAtFeeds cs).map modeline?.first? := by
  by_cases h : '\n' ∈ cs
  · obtain ⟨l, rest, he, hl⟩ := List.eq_append_cons_of_mem h
    have hlt : rest.length < cs.length := by
      rw [he, List.length_append, List.length_cons]
      omega
    rw [he, feedLines_line rest hl, cutAtFeeds_line rest hl, List.map_cons, List.map_cons,
      map_first?_feedLines rest]
  · -- A last line that no feed ends is cut with its carriage return, which says nothing.
    rw [feedLines_last h, cutAtFeeds_last h]
    split
    · rfl
    · rw [List.map_singleton, List.map_singleton, first?_dropReturn]
termination_by cs.length

theorem names_eq_feedLines (text : String) :
    names text = (window (feedLines text.toList)).filterMap modeline?.first? :=
  filterMap_window_congr (map_first?_feedLines text.toList).symm

end Modeline

namespace Registry
variable (registry : Registry)

/-- A line near an end of a text names a loaded reference, in the first modeline that it has. -/
def NamedAt (text : String) (i : Nat) (name : String) : Prop :=
  ∃ line, (feedLines text.toList)[i]? = some line ∧
    (i < 5 ∨ (feedLines text.toList).length ≤ i + 5) ∧
    Pattern.IsFirst Modeline.Gives name line ∧ registry.contains name = true

theorem chosenBy_eq_findSome? (text : String) :
    registry.chosenBy text = (Modeline.numberedWindow (feedLines text.toList)).findSome?
      fun p => (Modeline.modeline?.first? p.1).filter registry.contains := by
  have hfind (ps : List (List Char × Nat)) :
      ((ps.map Prod.fst).filterMap Modeline.modeline?.first?).find? registry.contains =
        ps.findSome? fun p => (Modeline.modeline?.first? p.1).filter registry.contains := by
    induction ps with
    | nil => rfl
    | cons p ps ih =>
      rw [List.map_cons, List.filterMap_cons, List.findSome?_cons, ← ih]
      cases Modeline.modeline?.first? p.1 with
      | none => rfl
      | some name =>
        rw [List.find?_cons, Option.filter_some]
        cases registry.contains name <;> rfl
  rw [chosenBy, Modeline.names_eq_feedLines, ← Modeline.map_fst_numberedWindow, hfind]

theorem namedAt_iff {text name : String} {i : Nat} :
    registry.NamedAt text i name ↔
      ∃ line, (line, i) ∈ Modeline.numberedWindow (feedLines text.toList) ∧
        (Modeline.modeline?.first? line).filter registry.contains = some name := by
  simp only [NamedAt, Modeline.mem_numberedWindow, Option.filter_eq_some_iff,
    Modeline.recognizes_modeline?.first?_eq_some_iff, and_assoc]

theorem chosenBy_eq_some_iff {text name : String} :
    registry.chosenBy text = some name ↔
      ∃ i, registry.NamedAt text i name ∧ ∀ j < i, ∀ name', ¬registry.NamedAt text j name' := by
  rw [chosenBy_eq_findSome?,
    Modeline.findSome?_eq_some_iff_of_pairwise (Modeline.pairwise_numberedWindow _)]
  simp only [namedAt_iff]
  constructor
  · rintro ⟨⟨line, i⟩, hmem, hname, hbefore⟩
    refine ⟨i, ⟨line, hmem, hname⟩, ?_⟩
    rintro j hj name' ⟨line', hmem', hname'⟩
    rw [hbefore _ hmem' hj] at hname'
    cases hname'
  · rintro ⟨i, ⟨line, hmem, hname⟩, hbefore⟩
    refine ⟨(line, i), hmem, hname, fun p hp hlt => ?_⟩
    exact Option.eq_none_iff_forall_ne_some.mpr fun name' h => hbefore p.2 hlt name' ⟨p.1, hp, h⟩

theorem chosenBy_eq_none_iff {text : String} :
    registry.chosenBy text = none ↔ ∀ i name, ¬registry.NamedAt text i name := by
  rw [chosenBy_eq_findSome?, List.findSome?_eq_none_iff]
  simp only [namedAt_iff]
  constructor
  · rintro hnone i name ⟨line, hmem, hname⟩
    rw [hnone _ hmem] at hname
    cases hname
  · intro h p hp
    exact Option.eq_none_iff_forall_ne_some.mpr fun name hname => h p.2 name ⟨p.1, hp, hname⟩

/-- The reference of a text is the loaded one that is named first, in the first five lines of the
text or the last five. A text of at most ten lines is searched as a whole and from the top. Lines
below the first five and above the last five may be anything. -/
theorem chosenBy_first_named :
    (∀ text name, registry.chosenBy text = some name ↔
      ∃ i, registry.NamedAt text i name ∧ ∀ j < i, ∀ name', ¬registry.NamedAt text j name') ∧
    (∀ text, registry.chosenBy text = none ↔ ∀ i name, ¬registry.NamedAt text i name) ∧
    (∀ text : String, (feedLines text.toList).length ≤ 10 → registry.chosenBy text =
      ((feedLines text.toList).filterMap Modeline.modeline?.first?).find? registry.contains) ∧
    ∀ text text' : String, ∀ top middle middle' bottom,
      5 ≤ top.length → 5 ≤ bottom.length →
      feedLines text.toList = top ++ middle ++ bottom →
      feedLines text'.toList = top ++ middle' ++ bottom →
      registry.chosenBy text = registry.chosenBy text' := by
  refine ⟨fun _ _ => registry.chosenBy_eq_some_iff, fun _ => registry.chosenBy_eq_none_iff,
    fun text h => ?_, fun text text' top middle middle' bottom ht hb h h' => ?_⟩
  · rw [chosenBy, Modeline.names_eq_feedLines, Modeline.window_of_length_le h]
  · rw [chosenBy, chosenBy, Modeline.names_eq_feedLines, Modeline.names_eq_feedLines, h, h',
      Modeline.window_middle middle ht hb, Modeline.window_middle middle' ht hb]

/-- The unknown name in the fourth line is passed over, the line between the first five and the last
five does not count, and of the two names in the last line the first one is taken. -/
theorem chosenBy_first_named_changed_middle :
    let registry := (add {} ⟨"mill", none, none, []⟩).add ⟨"lathe", none, none, []⟩
    let top := "1\r\n2\n\n(gcode_reference=turn)\n5\r\n"
    let bottom := "8\n9\n\n11\ngcode_reference =lathe gcode_reference=mill\r"
    registry.chosenBy (top ++ ";gcode_reference=mill\n" ++ bottom) = some "lathe" ∧
      registry.chosenBy (top ++ bottom) = some "lathe" := by
  intro registry top bottom
  have hchosen : registry.chosenBy (top ++ bottom) = some "lathe" := by decide +kernel
  have hmiddle := registry.chosenBy_first_named.2.2.2
    (top ++ ";gcode_reference=mill\n" ++ bottom) (top ++ bottom) (feedLines top.toList)
    [";gcode_reference=mill".toList] [] (feedLines bottom.toList)
    (by decide +kernel) (by decide +kernel) (by decide +kernel) (by decide +kernel)
  exact ⟨hmiddle.trans hchosen, hchosen⟩

end Registry
end Gcode

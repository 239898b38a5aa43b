import Gcode.Proofs.HoverColumns
import Gcode.Proofs.NumberedLines
import Gcode.Proofs.WordForm
import Mathlib.Data.List.Induction

/-! Every code that a reference explains can be hovered, in each of its spellings and wherever it
stands in a line. -/
namespace Gcode

structure EndsCode (code rest : List Char) : Prop where
  digit : ∀ c ∈ rest.head?, c.isDigit = false
  fraction : '.' ∉ code → ∀ ds, rest = '.' :: ds → ∀ d ∈ ds.head?, d.isDigit = false

def fractionWidth : List Char → Nat
  | '.' :: ds => if leading Char.isDigit ds = 0 then 0 else leading Char.isDigit ds + 1
  | _ => 0

theorem leading_of_head {p : Char → Bool} {cs : List Char} (h : ∀ c ∈ cs.head?, p c = false) :
    leading p cs = 0 :=
  @leading_append p [] cs (by simp) h

theorem leading_append_cons {p : Char → Bool} {c : Char} (hc : p c = false) (s r : List Char) :
    leading p (s ++ c :: r) = leading p s := by
  rw [leading, leading, takeWhile_append_cons_neg hc]

theorem dropWhile_map_of_class {p : Char → Bool} {f : Char → Char} (h : ∀ c, p (f c) = p c)
    (cs : List Char) : (cs.map f).dropWhile p = (cs.dropWhile p).map f := by
  rw [List.dropWhile_map]
  congr 2
  exact funext h

theorem isDigit_false_of_isAlpha {c : Char} (hc : c.isAlpha = true) : c.isDigit = false := by
  by_contra h
  rw [isAlpha_false_of_isDigit (Bool.not_eq_false _ ▸ h)] at hc
  exact Bool.false_ne_true hc

theorem fractionWidth_of_ne {c : Char} (cs : List Char) (hc : c ≠ '.') :
    fractionWidth (c :: cs) = 0 := by
  unfold fractionWidth
  split
  · rename_i he
    exact absurd (List.cons.inj he).1 hc
  · rfl

theorem fractionWidth_append_letter {c : Char} (s r : List Char) (hc : c.isAlpha = true) :
    fractionWidth (s ++ c :: r) = fractionWidth s := by
  cases s with
  | nil => exact fractionWidth_of_ne r (ne_of_class hc (by decide))
  | cons d s =>
    by_cases hd : d = '.'
    · subst hd
      rw [List.cons_append, fractionWidth, fractionWidth,
        leading_append_cons (isDigit_false_of_isAlpha hc)]
    · rw [List.cons_append, fractionWidth_of_ne _ hd, fractionWidth_of_ne _ hd]

theorem hoverCode?_of_head {c : Char} {cs : List Char} (h : ∀ d ∈ cs.head?, d.isDigit = false) :
    hoverCode? (c :: cs) = none := by
  rw [hoverCode?, leading_of_head h]
  cases c.isAlpha <;> rfl

theorem hoverCode?_of_isAlpha_false {c : Char} (cs : List Char) (hc : c.isAlpha = false) :
    hoverCode? (c :: cs) = none := by
  rw [hoverCode?, hc]

theorem hoverCode?_digits {c : Char} {ds r : List Char} (hc : c.isAlpha = true) (hn : ds ≠ [])
    (h : ∀ d ∈ ds, d.isDigit = true) (hr : ∀ d ∈ r.head?, d.isDigit = false) :
    hoverCode? (c :: (ds ++ r)) = some ((), ds.length + 1 + fractionWidth r) := by
  obtain ⟨n, hlen⟩ := Nat.exists_eq_add_one.mpr (List.length_pos_of_ne_nil hn)
  rw [hoverCode?, hc, leading_append h hr, hlen]
  simp only
  rw [List.drop_left' hlen]
  split
  · rename_i es
    rw [fractionWidth]
    split
    · rw [if_pos ‹_›]
    · rename_i m hm
      rw [hm, if_neg (Nat.succ_ne_zero m)]
      congr 2
      omega
  · rename_i hp
    cases r with
    | nil => rfl
    | cons e r => rw [fractionWidth_of_ne r fun he => hp r (by rw [he])]

/-- Digits at the front of a text, and what stands behind them. -/
theorem exists_digits (cs : List Char) : ∃ ds rest, cs = ds ++ rest ∧
    (∀ d ∈ ds, d.isDigit = true) ∧ ∀ c ∈ rest.head?, c.isDigit = false :=
  exists_span Char.isDigit cs

/-- The next letter ends a code, so in front of it a text is searched as if it ended there. -/
theorem hoverCode?_append_letter {s : List Char} {c : Char} (r : List Char) (hs : s ≠ [])
    (hc : c.isAlpha = true) : hoverCode? (s ++ c :: r) = hoverCode? s := by
  cases s with
  | nil => exact absurd rfl hs
  | cons a s =>
    cases ha : a.isAlpha with
    | false =>
      rw [List.cons_append, hoverCode?_of_isAlpha_false _ ha, hoverCode?_of_isAlpha_false _ ha]
    | true =>
      obtain ⟨ds, rest, rfl, hds, hrest⟩ := exists_digits s
      have hrest' : ∀ d ∈ (rest ++ c :: r).head?, d.isDigit = false := by
        cases rest with
        | nil => exact fun d hd => Option.some.inj hd ▸ isDigit_false_of_isAlpha hc
        | cons e rest => exact hrest
      rw [List.cons_append, List.append_assoc]
      by_cases hn : ds = []
      · subst hn
        rw [List.nil_append, List.nil_append, hoverCode?_of_head hrest, hoverCode?_of_head hrest']
      · rw [hoverCode?_digits ha hn hds hrest, hoverCode?_digits ha hn hds hrest',
          fractionWidth_append_letter rest r hc]

namespace CodeForm
variable {s q : List Char}

theorem exists_letter (h : CodeForm s) : ∃ c t, s = c :: t ∧ c.isAlpha = true := by
  cases h with
  | whole hc => exact ⟨_, _, rfl, hc⟩
  | decimal hc => exact ⟨_, _, rfl, hc⟩

/-- The pattern takes all of a code and no more. -/
theorem hoverCode?_append (h : CodeForm s) (hq : EndsCode s q) :
    hoverCode? (s ++ q) = some ((), s.length) := by
  cases h with
  | @whole c ds hc hn h =>
    have hpoint : '.' ∉ c :: ds := by
      intro hm
      rcases List.mem_cons.mp hm with rfl | hm
      · exact absurd hc (by decide)
      · exact absurd (h '.' hm) (by decide)
    have hwidth : fractionWidth q = 0 := by
      unfold fractionWidth
      split
      · rw [if_pos (leading_of_head (hq.fraction hpoint _ rfl))]
      · rfl
    rw [List.cons_append, hoverCode?_digits hc hn h hq.digit, hwidth, List.length_cons]
  | @decimal c ds fs hc hn h hf hfs =>
    have hl := leading_append hfs hq.digit
    have hne : leading Char.isDigit (fs ++ q) ≠ 0 := by
      rw [hl]
      exact mt List.length_eq_zero_iff.mp hf
    have htext : c :: (ds ++ '.' :: fs) ++ q = c :: (ds ++ '.' :: (fs ++ q)) := by simp
    rw [htext, hoverCode?_digits hc hn h (by simp), fractionWidth, if_neg hne, hl]
    congr 2
    simp only [List.length_cons, List.length_append]
    omega

end CodeForm

theorem fractionWidth_le_length (cs : List Char) : fractionWidth cs ≤ cs.length := by
  unfold fractionWidth
  split
  · rename_i ds
    have h : leading Char.isDigit ds ≤ ds.length := (List.takeWhile_sublist _).length_le
    rw [List.length_cons]
    split <;> omega
  · exact Nat.zero_le _

theorem length_of_hoverCode? {cs : List Char} {x : Unit × Nat} (h : hoverCode? cs = some x) :
    x.2 ≤ cs.length := by
  cases cs with
  | nil => cases h
  | cons c cs =>
    cases hc : c.isAlpha with
    | false =>
      rw [hoverCode?_of_isAlpha_false cs hc] at h
      cases h
    | true =>
      obtain ⟨ds, rest, rfl, hds, hrest⟩ := exists_digits cs
      by_cases hn : ds = []
      · subst hn
        rw [List.nil_append, hoverCode?_of_head hrest] at h
        cases h
      · rw [hoverCode?_digits hc hn hds hrest] at h
        cases h
        have hw := fractionWidth_le_length rest
        simp only [List.length_cons, List.length_append]
        omega

/-- The codes in front of a code do not reach into it, so it is found where it stands. -/
theorem finds_code {p s q : List Char} (hs : CodeForm s) (hq : EndsCode s q) :
    hoverCode?.finds (p ++ s ++ q) =
      hoverCode?.finds p ++
        ⟨p.length, (), s⟩ :: hoverCode?.findsFrom 0 (p.length + s.length) q := by
  have hcode := hs.hoverCode?_append hq
  obtain ⟨c, t, rfl, hc⟩ := hs.exists_letter
  have happart : ∀ r, r <:+ p → r ≠ [] → hoverCode? (r ++ (c :: t ++ q)) = hoverCode? r :=
    fun r _ hr => hoverCode?_append_letter (t ++ q) hr hc
  rw [Pattern.finds, List.append_assoc,
    Pattern.findsFrom_joined (fun _ _ => length_of_hoverCode?) happart 0 0 (Nat.zero_le _),
    Pattern.findsFrom_append (List.cons_ne_nil c t) hcode, Nat.zero_add]
  rfl

theorem stop_le_of_mem_finds {cs : List Char} {f : Find Unit} (h : f ∈ hoverCode?.finds cs) :
    f.stop ≤ cs.length := by
  obtain ⟨before, rest, width, rfl, hstart, -, ht⟩ := Pattern.exists_of_mem_findsFrom h
  rw [Find.stop, hstart, ht, List.length_take, List.length_append]
  omega

/-- A cursor in a code, or just behind it, is on that code, whatever stands around it. -/
theorem codeUnder?_code {p s q : List Char} {column : Nat} (hs : CodeForm s) (hq : EndsCode s q)
    (hl : p.length < column) (hr : column ≤ p.length + s.length) :
    codeUnder? (p ++ s ++ q) column = some ⟨p.length, (), s⟩ := by
  have hlen : (p ++ s ++ q).length = p.length + s.length + q.length := by
    rw [List.length_append, List.length_append]
  have hmin : min column (p ++ s ++ q).length = column := by
    rw [hlen]
    omega
  have hbefore : ∀ f ∈ hoverCode?.finds p, ¬(decide (f.start ≤ column) &&
      decide (column ≤ f.stop)) = true := by
    intro f hf
    have hstop := stop_le_of_mem_finds hf
    rw [Bool.and_eq_true, decide_eq_true_eq, decide_eq_true_eq]
    omega
  have hin : (decide (p.length ≤ column) && decide (column ≤ p.length + s.length)) = true := by
    rw [Bool.and_eq_true, decide_eq_true_eq, decide_eq_true_eq]
    omega
  rw [codeUnder?, finds_code hs hq, hmin, List.find?_append,
    List.find?_eq_none.mpr hbefore, Option.none_or]
  exact List.find?_cons_of_pos hin

namespace Table
variable {α : Type}

/-- Of the values bound to a key the last one stays. -/
theorem get?_ofList (pairs : List (String × α)) (key : String) :
    (ofList pairs).get? key = ((pairs.filter (·.1 = key)).getLast?).map (·.2) := by
  induction pairs using List.reverseRecOn with
  | nil => rfl
  | append_singleton pairs p ih =>
    rw [ofList, List.foldl_append, List.foldl_cons, List.foldl_nil, ← ofList, get?_put, ih,
      List.filter_append]
    by_cases hk : p.1 = key
    · simp [hk]
    · simp [hk]

end Table

def Listing.lastOn? (listing : Listing) (code : String) : Option CodeHelp :=
  (listing.codes.filter (Code.ofName ·.name = code)).getLast?

theorem Reference.lookup_ofListing (listing : Listing) (code : String) :
    (ofListing listing).lookup code = listing.lastOn? (Code.ofName code) := by
  rw [lookup, ofListing, Table.get?_ofList, List.filter_map, List.getLast?_map, Option.map_map,
    Listing.lastOn?]
  simp only [Function.comp_def, Option.map_id']

def Registry.referenceFor? (registry : Registry) (text : String) : Option Reference :=
  ((registry.chosenBy text).or registry.activeName).bind registry.get?

namespace Workspace
variable {Address : Type} {workspace : Workspace Address} {text : String}

theorem help?_eq (code : String) :
    workspace.help? ⟨text, workspace.registry.chosenBy text⟩ code =
      (workspace.registry.referenceFor? text).bind (·.lookup code) := by
  rw [help?, Registry.referenceFor?]
  cases workspace.registry.chosenBy text with
  | some name => rfl
  | none =>
    rw [Option.none_or, Registry.lookup]
    cases workspace.registry.activeName <;> rfl

theorem line?_of_code {p s q : List Char} {l : Nat} (reference : Option String)
    (hline : (cutLines text.toList)[l]? = some (p ++ s ++ q)) (hs : CodeForm s) :
    (Document.mk text reference).line? l = some (String.ofList (p ++ s ++ q)) := by
  obtain ⟨c, t, rfl, hc⟩ := hs.exists_letter
  have hplain : IsPlain c := isPlain_of_isAlpha hc
  have hvisible : (!(p ++ c :: t ++ q).all isBlank) = true := by
    simp [hplain.2.2]
  rw [Document.line?_eq_getElem?, hline, Option.filter_some, if_pos hvisible,
    Option.map_some]

/-- Every code of a listing can be hovered in every spelling of it, at each of its characters but
the first and just behind it, whatever stands in front of it in the line and after it. The last
explanation that the listing has for the code is shown over exactly the code. -/
theorem answer?_hover_code [DecidableEq Address] {address : Address} {listing : Listing}
    {key : String} {p s q : List Char} {l column : Nat}
    (hdocument : workspace.documents.get? address = some ⟨text, workspace.registry.chosenBy text⟩)
    (hreference : workspace.registry.referenceFor? text = some (.ofListing listing))
    (hkey : key ∈ listing.codes.map (Code.ofName ·.name))
    (hname : Code.ofName (String.ofList s) = key)
    (hline : (cutLines text.toList)[l]? = some (p ++ s ++ q))
    (hs : CodeForm s) (hq : EndsCode s q)
    (hl : p.length < column) (hr : column ≤ p.length + s.length) :
    ∃ help, listing.lastOn? key = some help ∧
      workspace.answer? address (.hover ⟨l, column⟩) =
        some (.hover ⟨help.markdown, ⟨l, p.length⟩, ⟨l, p.length + s.length⟩⟩) := by
  obtain ⟨known, hknown, hk⟩ := List.mem_map.mp hkey
  have hmem : known ∈ listing.codes.filter (Code.ofName ·.name = key) :=
    List.mem_filter.mpr ⟨hknown, decide_eq_true hk⟩
  obtain ⟨help, hhelp⟩ : ∃ help, listing.lastOn? key = some help :=
    ⟨_, List.getLast?_eq_some_getLast (List.ne_nil_of_mem hmem)⟩
  refine ⟨help, hhelp, ?_⟩
  have hfound := codeUnder?_code hs hq hl hr
  have hshown : workspace.help? ⟨text, workspace.registry.chosenBy text⟩ (String.ofList s) =
      some help := by
    rw [help?_eq, hreference, Option.bind_some, Reference.lookup_ofListing, hname]
    exact hhelp
  rw [answer?, hdocument, Option.bind_some, answerFor?, hover?_eq,
    line?_of_code _ hline hs, Option.bind_some, String.toList_ofList, hfound, Option.bind_some,
    hshown]
  rfl

/-- A code between others, in lower case and with a zero, that the listing explains twice. The
modeline chooses the listing although another reference is active. -/
theorem answer?_hover_code_between_codes :
    let listing : Listing := ⟨"shop", none, none,
      [⟨"G001", some "Cut", none, []⟩, ⟨"M3", none, none, []⟩, ⟨" g1", some "Feed", none, []⟩]⟩
    let registry : Registry := Registry.add ⟨[(Reference.builtInName, .builtIn)],
      some Reference.builtInName⟩ (.ofListing listing)
    let text := "; gcode_reference = shop\r\né(G0g01.M3"
    let workspace : Workspace String :=
      (Workspace.mk registry {} []).notice (.opened "file:///a.nc" text)
    (registry.referenceFor? text = some (.ofListing listing) ∧
      (cutLines text.toList)[1]? = some ("é(G0".toList ++ "g01".toList ++ ".M3".toList)) ∧
    workspace.answer? "file:///a.nc" (.hover ⟨1, 7⟩) =
      some (.hover ⟨"** g1**\n\nFeed", ⟨1, 4⟩, ⟨1, 7⟩⟩) := by
  intro listing registry text workspace
  have hreference : registry.referenceFor? text = some (.ofListing listing) := by
    decide +kernel
  have hline : (cutLines text.toList)[1]? =
      some ("é(G0".toList ++ "g01".toList ++ ".M3".toList) := by
    decide +kernel
  have hs : CodeForm "g01".toList :=
    @CodeForm.whole 'g' "01".toList (by decide) (by decide) (by simp)
  have hq : EndsCode "g01".toList ".M3".toList := by
    refine ⟨by simp, fun _ ds hds d hd => ?_⟩
    obtain rfl : ['M', '3'] = ds := (List.cons.inj hds).2
    obtain rfl : 'M' = d := Option.some.inj hd
    decide
  obtain ⟨help, hhelp, hanswer⟩ := @answer?_hover_code _ workspace text _ "file:///a.nc" listing
    "G1" "é(G0".toList "g01".toList ".M3".toList 1 7 rfl hreference (by decide +kernel)
    (by decide +kernel) hline hs hq (by decide) (by decide)
  obtain rfl : ⟨" g1", some "Feed", none, []⟩ = help :=
    Option.some.inj ((by decide +kernel : some _ = listing.lastOn? "G1").trans hhelp)
  have hmarkdown : CodeHelp.markdown ⟨" g1", some "Feed", none, []⟩ = "** g1**\n\nFeed" := by
    decide +kernel
  rw [hmarkdown] at hanswer
  exact ⟨⟨hreference, hline⟩, hanswer⟩

end Workspace
end Gcode

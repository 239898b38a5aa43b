import Gcode.Proofs.CodesInLine

/-! The code under a cursor without the search for it. A code begins at each letter in front of a
digit and goes on as far as it can, and a cursor finds a code as soon as it touches one, whether the
line is counted in characters or in bytes. -/
namespace Gcode

structure LongestCode (line : List Char) (start : Nat) (code : List Char) : Prop where
  form : CodeForm code
  front : code <+: line.drop start
  length_le : ∀ t, CodeForm t → t <+: line.drop start → t.length ≤ code.length

namespace CodeForm
variable {t : List Char}

theorem exists_digit (h : CodeForm t) :
    ∃ c d, [c, d] <+: t ∧ c.isAlpha = true ∧ d.isDigit = true := by
  cases h with
  | @whole c ds hc hn h =>
    obtain ⟨d, ds, rfl⟩ := List.exists_cons_of_ne_nil hn
    exact ⟨c, d, ⟨ds, rfl⟩, hc, h d List.mem_cons_self⟩
  | @decimal c ds fs hc hn h =>
    obtain ⟨d, ds, rfl⟩ := List.exists_cons_of_ne_nil hn
    exact ⟨c, d, ⟨ds ++ '.' :: fs, rfl⟩, hc, h d List.mem_cons_self⟩

/-- Whatever stands behind a code, the pattern takes all of the code, and perhaps more. -/
theorem exists_width (h : CodeForm t) (r : List Char) :
    ∃ n, hoverCode? (t ++ r) = some ((), n) ∧ t.length ≤ n := by
  cases h with
  | @whole c ds hc hn h =>
    obtain ⟨es, rest, rfl, hes, hrest⟩ := exists_digits r
    have hall : ∀ d ∈ ds ++ es, d.isDigit = true := List.forall_mem_append.mpr ⟨h, hes⟩
    have hne : ds ++ es ≠ [] := List.append_ne_nil_of_left_ne_nil hn es
    refine ⟨(ds ++ es).length + 1 + fractionWidth rest, ?_, ?_⟩
    · rw [List.cons_append, ← List.append_assoc]
      exact hoverCode?_digits hc hne hall hrest
    · rw [List.length_cons, List.length_append]
      omega
  | @decimal c ds fs hc hn h hf hfs =>
    have hpos : 0 < fs.length := List.length_pos_of_ne_nil hf
    have hlen : leading Char.isDigit (fs ++ r) = fs.length + leading Char.isDigit r :=
      leading_append_of_class r hfs
    have htext : c :: (ds ++ '.' :: fs) ++ r = c :: (ds ++ '.' :: (fs ++ r)) := by simp
    refine ⟨ds.length + 1 + (fs.length + leading Char.isDigit r + 1), ?_, ?_⟩
    · rw [htext, hoverCode?_digits hc hn h (by simp), fractionWidth, hlen, if_neg (by omega)]
    · simp only [List.length_cons, List.length_append]
      omega

end CodeForm

section
variable {line code code' : List Char} {start : Nat}

theorem LongestCode.eq (h : LongestCode line start code) (h' : LongestCode line start code') :
    code = code' :=
  eq_of_isPrefix h.front h'.front (h'.length_le code h.form h.front)
    (h.length_le code' h'.form h'.front)

theorem longestCode_of_hoverCode? {x : Unit × Nat} (h : hoverCode? (line.drop start) = some x) :
    LongestCode line start ((line.drop start).take x.2) where
  form := codeForm_of_hoverCode? h
  front := List.take_prefix x.2 _
  length_le t ht hfront := by
    obtain ⟨r, he⟩ := hfront
    obtain ⟨n, hn, hle⟩ := ht.exists_width r
    rw [he, h] at hn
    rw [List.length_take_of_le (length_of_hoverCode? h), Option.some.inj hn]
    exact hle

theorem LongestCode.start_le (h : LongestCode line start code) : start ≤ line.length := by
  obtain ⟨c, t, rfl, -⟩ := h.form.exists_letter
  have hlen := h.front.length_le
  rw [List.length_cons, List.length_drop] at hlen
  omega

/-- A code is as long as it can be if its number cannot go on behind it, and only then. -/
theorem longestCode_iff : LongestCode line start code ↔ CodeAt line start code := by
  constructor
  · intro h
    obtain ⟨r, he⟩ := h.front
    obtain ⟨n, hn, -⟩ := h.form.exists_width r
    rw [he] at hn
    have hcode : code = (line.drop start).take n := h.eq (longestCode_of_hoverCode? hn)
    refine ⟨line.take start, (line.drop start).drop n, ?_, List.length_take_of_le h.start_le,
      h.form, ?_⟩
    · rw [hcode, List.append_assoc, List.take_append_drop, List.take_append_drop]
    · rw [hcode]
      exact endsCode_of_hoverCode? hn
  · intro h
    obtain ⟨before, after, rfl, rfl, hform, hends⟩ := h
    have hdrop : (before ++ code ++ after).drop before.length = code ++ after := by
      rw [List.append_assoc, List.drop_left]
    have hfront := hform.hoverCode?_append hends
    rw [← hdrop] at hfront
    have hlongest := longestCode_of_hoverCode? hfront
    rwa [hdrop, List.take_left] at hlongest

/-- A code begins at every letter that stands in front of a digit, and nowhere else. -/
theorem exists_longestCode_iff : (∃ code, LongestCode line start code) ↔
    ∃ c d, [c, d] <+: line.drop start ∧ c.isAlpha = true ∧ d.isDigit = true := by
  constructor
  · intro h
    obtain ⟨code, h⟩ := h
    obtain ⟨c, d, hcd, hc, hd⟩ := h.form.exists_digit
    exact ⟨c, d, hcd.trans h.front, hc, hd⟩
  · intro h
    obtain ⟨c, d, ⟨r, he⟩, hc, hd⟩ := h
    have hform : CodeForm [c, d] := .whole hc (List.cons_ne_nil d []) (by simpa using hd)
    obtain ⟨n, hn, -⟩ := hform.exists_width r
    rw [he] at hn
    exact ⟨_, longestCode_of_hoverCode? hn⟩

end

/-- Whether a cursor touches a part of a line. A column past the end counts as the end. -/
def Touches (line : List Char) (column start stop : Nat) : Prop :=
  start ≤ min column line.length ∧ min column line.length ≤ stop

def byteOffset (line : List Char) (column : Nat) : Nat :=
  (String.ofList (line.take column)).utf8ByteSize

def codeUnderByte? (line : List Char) (offset : Nat) : Option (Find Unit) :=
  (hoverCode?.finds line).find? fun f =>
    byteOffset line f.start ≤ offset && offset ≤ byteOffset line f.stop

section
variable {line : List Char} {m n : Nat}

theorem byteOffset_add (line : List Char) (m k : Nat) : byteOffset line (m + k) =
    byteOffset line m + (String.ofList ((line.drop m).take k)).utf8ByteSize := by
  rw [byteOffset, List.take_add, String.ofList_append, String.utf8ByteSize_append, byteOffset]

theorem byteOffset_lt (hmn : m < n) (hn : n ≤ line.length) :
    byteOffset line m < byteOffset line n := by
  obtain ⟨k, rfl⟩ := Nat.exists_eq_add_of_lt hmn
  have hne : (line.drop m).take (k + 1) ≠ [] := by
    refine List.length_pos_iff.mp ?_
    rw [List.length_take, List.length_drop]
    omega
  have hpos : (String.ofList ((line.drop m).take (k + 1))).utf8ByteSize ≠ 0 := by
    rw [Ne, String.utf8ByteSize_eq_zero_iff, ← String.toList_inj, String.toList_ofList]
    exact hne
  rw [Nat.add_assoc, byteOffset_add]
  omega

/-- Within a line, columns and offsets are in the same order. -/
theorem byteOffset_le_iff (hm : m ≤ line.length) (hn : n ≤ line.length) :
    byteOffset line m ≤ byteOffset line n ↔ m ≤ n := by
  constructor
  · intro h
    by_contra hlt
    exact absurd (byteOffset_lt (Nat.lt_of_not_le hlt) hm) (Nat.not_lt.mpr h)
  · intro h
    obtain ⟨k, rfl⟩ := Nat.exists_eq_add_of_le h
    rw [byteOffset_add]
    omega

/-- Behind the end of a line all of its bytes are counted. -/
theorem byteOffset_min (line : List Char) (column : Nat) :
    byteOffset line (min column line.length) = byteOffset line column := by
  rw [byteOffset, ← List.take_eq_take_min, byteOffset]

end

theorem codeUnder?_eq_codeUnderByte? (line : List Char) (column : Nat) :
    codeUnder? line column = codeUnderByte? line (byteOffset line column) := by
  have hcursor : min column line.length ≤ line.length := Nat.min_le_right _ _
  rw [codeUnder?, codeUnderByte?, ← byteOffset_min]
  refine List.find?_congr fun f hf => ?_
  have hstop : f.stop ≤ line.length := stop_le_of_mem_finds hf
  have hstart : f.start ≤ line.length := Nat.le_trans (Nat.le_add_right _ _) hstop
  simp only [byteOffset_le_iff hstart hcursor, byteOffset_le_iff hcursor hstop]

/-- What a cursor finds is a code that it touches, with the columns of its first character and of
the one behind it, and as long as it can be. A cursor finds nothing only where it touches no code. A
search by bytes finds the same. -/
theorem codeUnder?_touches_longest (line : List Char) (column : Nat) :
    (∀ f, codeUnder? line column = some f → line.extract f.start f.stop = f.text ∧
      LongestCode line f.start f.text ∧ Touches line column f.start f.stop) ∧
    (codeUnder? line column = none ↔ ∀ start code, LongestCode line start code →
      ¬Touches line column start (start + code.length)) ∧
    (∀ start, (∃ code, LongestCode line start code) ↔
      ∃ c d, [c, d] <+: line.drop start ∧ c.isAlpha = true ∧ d.isDigit = true) ∧
    codeUnder? line column = codeUnderByte? line (byteOffset line column) := by
  refine ⟨fun f hf => ?_, ?_, fun _ => exists_longestCode_iff,
    codeUnder?_eq_codeUnderByte? line column⟩
  · have hlongest : LongestCode line f.start f.text :=
      longestCode_iff.mpr (mem_finds_iff.mp (List.mem_of_find?_eq_some hf))
    have htouch := List.find?_some hf
    rw [Bool.and_eq_true, decide_eq_true_eq, decide_eq_true_eq] at htouch
    refine ⟨?_, hlongest, htouch⟩
    rw [List.extract_eq_take_drop, Find.stop, Nat.add_sub_cancel_left]
    exact (List.prefix_iff_eq_take.mp hlongest.front).symm
  · simp only [codeUnder?_eq_none_iff, longestCode_iff, Touches]

/-- A long s is no letter of a code, and neither a point without digits behind it nor a second point
belongs to one. -/
theorem codeUnder?_touches_longest_beyond_ascii :
    let line := "Øg01😀ſ5 M6.5.".toList
    codeUnder? line 4 = some ⟨1, (), "g01".toList⟩ ∧ LongestCode line 1 "g01".toList ∧
    codeUnder? line 99 = none ∧ codeUnder? line 12 = some ⟨8, (), "M6.5".toList⟩ ∧
    LongestCode line 8 "M6.5".toList ∧ line.extract 8 12 = "M6.5".toList ∧
    codeUnder? line 6 = none ∧ ∀ start code, LongestCode line start code →
      ¬Touches line 6 start (start + code.length) := by
  intro line
  have hfirst : codeUnder? line 4 = some ⟨1, (), "g01".toList⟩ := by decide +kernel
  have hlast : codeUnder? line 12 = some ⟨8, (), "M6.5".toList⟩ := by decide +kernel
  have hnone : codeUnder? line 6 = none := by decide +kernel
  obtain ⟨-, hlongest, -⟩ := (codeUnder?_touches_longest line 4).1 _ hfirst
  obtain ⟨hextract, hlongest', -⟩ := (codeUnder?_touches_longest line 12).1 _ hlast
  exact ⟨hfirst, hlongest, by decide +kernel, hlast, hlongest', hextract, hnone,
    (codeUnder?_touches_longest line 6).2.1.mp hnone⟩

end Gcode

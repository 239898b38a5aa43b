import Gcode.Outline
import Gcode.Proofs.ModalHistory

/-! Which words make which entries of an outline, and how the entries agree with the machine that
runs the same words. -/
namespace Gcode

def wordsOf (text : String) : List Word := (Block.ofText text).flatMap (·.words)

theorem Word.exists_of_ofFind? {line : Nat} {f : Find WordKind} {w : Word}
    (h : ofFind? line f = some w) :
    ∃ c t, f.text = c :: t ∧
      w = ⟨c.toUpper, String.ofList (t.map Char.toUpper), line, f.sort⟩ := by
  cases ht : f.text with
  | nil =>
    rw [ofFind?, ht] at h
    cases h
  | cons c t =>
    rw [ofFind?, ht] at h
    exact ⟨c, t, rfl, (Option.some.inj h).symm⟩

def Word.entryKind? (w : Word) : Option EntryKind := (Meaning.ofWord? w).map (·.kind)

namespace Meaning

theorem lookup_table : ∀ e ∈ table, table.lookup e.1 = some e.2 := by decide +kernel

/-- Only work offsets are listed under more than one code. -/
theorem table_kind_inj : ∀ e ∈ table, ∀ e' ∈ table,
    e.2.kind = e'.2.kind → e.2.kind ≠ .workOffset → e = e' := by
  decide +kernel

theorem mem_table_of_lookup {key : Char × String} {meaning : Meaning}
    (h : table.lookup key = some meaning) : (key, meaning) ∈ table := by
  obtain ⟨before, after, ht, -⟩ := List.lookup_eq_some_iff.mp h
  rw [ht]
  exact List.mem_append_right before List.mem_cons_self

/-- A word has a meaning by the table, or as a work offset that the table does not list. -/
theorem ofWord?_eq_some_iff {w : Word} {meaning : Meaning} : ofWord? w = some meaning ↔
    w.kind = .address ∧ (table.lookup (w.letter, w.code) = some meaning ∨
      table.lookup (w.letter, w.code) = none ∧ ∃ n, readNat32? w.code.toList = some n ∧
        w.letter = 'G' ∧ (54 ≤ n ∧ n ≤ 59 ∨ 110 ≤ n ∧ n ≤ 129) ∧ meaning = plainOffset) := by
  rw [ofWord?]
  by_cases ha : w.kind = .address
  · rw [if_neg (not_not.mpr ha)]
    cases table.lookup (w.letter, w.code) with
    | some found => simp [ha]
    | none =>
      cases readNat32? w.code.toList with
      | none => simp
      | some n => simp [ha, eq_comm, and_assoc]
  · simp [ha]

def codes : List (EntryKind × Char × String) := table.map fun e => (e.2.kind, e.1)

end Meaning

namespace Word
open Meaning

/-- A word makes an entry of a kind if and only if it is the code that the table has for it. -/
theorem entryKind?_eq_some_iff (w : Word) (kind : EntryKind) (letter : Char) (code : String)
    (h : (kind, letter, code) ∈ codes) (hk : kind ≠ .workOffset) :
    w.entryKind? = some kind ↔ w.is letter code = true := by
  obtain ⟨⟨key, meaning⟩, hmem, he⟩ := List.mem_map.mp h
  cases he
  have hkey : w.is letter code = true ↔
      w.kind = .address ∧ (w.letter, w.code) = (letter, code) := by
    simp [is, and_assoc]
  rw [hkey, entryKind?, Option.map_eq_some_iff]
  constructor
  · rintro ⟨found, hfound, he⟩
    obtain ⟨ha, hlookup | ⟨-, n, -, -, -, rfl⟩⟩ := ofWord?_eq_some_iff.mp hfound
    · have hrow := table_kind_inj _ hmem _ (mem_table_of_lookup hlookup) he.symm hk
      exact ⟨ha, (Prod.ext_iff.mp hrow).1.symm⟩
    · -- What the table does not list is a work offset.
      exact absurd he.symm hk
  · rintro ⟨ha, he⟩
    exact ⟨meaning, ofWord?_eq_some_iff.mpr ⟨ha, .inl (he ▸ lookup_table _ hmem)⟩, rfl⟩

end Word

/-- An entry is what the meaning of one of the words makes of it. -/
theorem Block.exists_word {block : Block} {e : Entry} (he : e ∈ block.entries) :
    ∃ before w after meaning, block.words = before ++ w :: after ∧
      Meaning.ofWord? w = some meaning ∧
      e = ⟨meaning.label.render block before.length w, meaning.tooltip, meaning.kind,
        block.index, 0, block.width⟩ := by
  obtain ⟨⟨w, position⟩, hw, he⟩ := List.mem_filterMap.mp he
  obtain ⟨meaning, hm, rfl⟩ := Option.map_eq_some_iff.mp he
  have hword : block.words[position]? = some w := List.mem_zipIdx_iff_getElem?.mp hw
  obtain ⟨hlt, hget⟩ := List.getElem?_eq_some_iff.mp hword
  refine ⟨block.words.take position, w, block.words.drop (position + 1), meaning, ?_, hm, ?_⟩
  · rw [← hget, List.getElem_cons_drop, List.take_append_drop]
  · rw [List.length_take_of_le (Nat.le_of_lt hlt)]

theorem Block.kinds_entries (block : Block) :
    block.entries.map (·.kind) = block.words.filterMap Word.entryKind? := by
  have hkind (w : Word) (position : Nat) :
      (block.entryAt? position w).map (·.kind) = w.entryKind? := by
    rw [entryAt?, Option.map_map]
    rfl
  have hwords : block.words = block.words.zipIdx.map Prod.fst := (List.zipIdx_map_fst 0 _).symm
  conv_rhs => rw [hwords]
  rw [entries, List.map_filterMap, List.filterMap_map]
  exact List.filterMap_congr fun x _ => hkind x.1 x.2

/-- The kinds of the entries are what the words make, one by one. -/
theorem kinds_outline (text : String) :
    (outline text).map (·.kind) = (wordsOf text).filterMap Word.entryKind? := by
  rw [outline, wordsOf, List.map_flatMap, List.filterMap_flatMap]
  exact List.flatMap_congr fun block _ => block.kinds_entries

def lastKind? (kinds : List EntryKind) (entries : List Entry) : Option EntryKind :=
  ((entries.map (·.kind)).filter (· ∈ kinds)).getLast?

theorem getLast?_filterMap_eq {α β : Type} {f : α → Option β} {p : α → Bool}
    (h : ∀ a, p a = (f a).isSome) (l : List α) :
    (l.filterMap f).getLast? = (l.filter p).getLast?.bind f := by
  induction l using List.reverseRecOn with
  | nil => rfl
  | append_singleton l a ih =>
    rw [List.filterMap_append, List.filter_append]
    cases hf : f a with
    | none => simp [h, hf, ih]
    | some b => simp [h, hf]

theorem getLast?_filter_of_pos {α : Type} {p : α → Bool} {l : List α} {a : α}
    (h : l.getLast? = some a) (ha : p a = true) : (l.filter p).getLast? = some a := by
  obtain ⟨l, rfl⟩ := List.getLast?_eq_some_iff.mp h
  rw [List.filter_append, List.filter_cons_of_pos ha]
  exact List.getLast?_concat

namespace EntryKind

def motion? : EntryKind → Option Motion
  | rapid => some .rapid
  | cutting => some .linear
  | _ => none

def spindle? : EntryKind → Option Spindle
  | spindleClockwise => some .clockwise
  | spindleCounterClockwise => some .counterClockwise
  | _ => none

end EntryKind

namespace Word

/-- The outline and the machine read the same motion out of a word. -/
theorem entryKind?_motion (w : Word) : w.entryKind?.bind EntryKind.motion? = w.motion? := by
  have hrapid := w.entryKind?_eq_some_iff .rapid 'G' "0" (by decide) (by decide)
  have hcutting := w.entryKind?_eq_some_iff .cutting 'G' "1" (by decide) (by decide)
  simp only [motion?, ← hrapid, ← hcutting]
  cases w.entryKind? with
  | none => rfl
  | some kind => cases kind <;> rfl

/-- They read the same turning of the spindle, too, but a word that stops it makes no entry. -/
theorem entryKind?_spindle (w : Word) :
    w.entryKind?.bind EntryKind.spindle? = w.spindle?.filter (· ≠ .off) := by
  have hclockwise :=
    w.entryKind?_eq_some_iff .spindleClockwise 'M' "3" (by decide) (by decide)
  have hcounter :=
    w.entryKind?_eq_some_iff .spindleCounterClockwise 'M' "4" (by decide) (by decide)
  have hoff : (if w.is 'M' "5" then some Spindle.off else none).filter (· ≠ .off) = none := by
    split <;> rfl
  simp only [spindle?, ← hclockwise, ← hcounter]
  cases w.entryKind? with
  | none => exact hoff.symm
  | some kind =>
    cases kind with
    | spindleClockwise | spindleCounterClockwise => rfl
    | _ => exact hoff.symm

end Word

/-- What the entries show of a register is what the words of the program write into it. -/
theorem filterMap_kinds_outline {β : Type} {shown : EntryKind → Option β}
    {written : Word → Option β} (h : ∀ w, w.entryKind?.bind shown = written w) (text : String) :
    ((outline text).map (·.kind)).filterMap shown = (wordsOf text).filterMap written := by
  rw [kinds_outline, List.filterMap_filterMap]
  exact List.filterMap_congr fun w _ => h w

theorem motion_outline (text : String) :
    (Machine.run {} ((Block.ofText text).map (·.words))).motion =
      ((lastKind? [.rapid, .cutting] (outline text)).bind EntryKind.motion?).getD .rapid := by
  have hkinds (k : EntryKind) : decide (k ∈ [.rapid, .cutting]) = k.motion?.isSome := by
    cases k <;> rfl
  rw [Machine.motion_run, ← List.flatMap_def, ← wordsOf, lastOf,
    ← filterMap_kinds_outline Word.entryKind?_motion, getLast?_filterMap_eq hkinds]
  rfl

theorem spindle_outline {text : String} {state : Spindle} (hs : state ≠ .off)
    (h : (Machine.run {} ((Block.ofText text).map (·.words))).spindle = state) :
    (lastKind? [.spindleClockwise, .spindleCounterClockwise] (outline text)).bind
      EntryKind.spindle? = some state := by
  have hkinds (k : EntryKind) :
      decide (k ∈ [.spindleClockwise, .spindleCounterClockwise]) = k.spindle?.isSome := by
    cases k <;> rfl
  rw [Machine.spindle_run, ← List.flatMap_def, ← wordsOf, lastOf] at h
  have hlast : ((wordsOf text).filterMap Word.spindle?).getLast? = some state := by
    cases hl : ((wordsOf text).filterMap Word.spindle?).getLast? with
    | none =>
      rw [hl] at h
      exact absurd h.symm hs
    | some last =>
      rw [hl] at h
      exact congrArg some h
  rw [lastKind?, ← getLast?_filterMap_eq hkinds,
    filterMap_kinds_outline Word.entryKind?_spindle, ← List.filter_filterMap]
  exact getLast?_filter_of_pos hlast (decide_eq_true hs)

/-- After any program the machine and the outline agree. The machine moves at the feed rate if and
only if the last entry for a rapid move or a cut is a cut, and a spindle that turns does so in the
direction of the last entry for a turning spindle. -/
theorem Machine.run_outline (text : String) :
    let m := Machine.run {} ((Block.ofText text).map (·.words))
    (m.motion =
      if lastKind? [.rapid, .cutting] (outline text) = some .cutting then .linear else .rapid) ∧
    (m.spindle = .clockwise →
      lastKind? [.spindleClockwise, .spindleCounterClockwise] (outline text) =
        some .spindleClockwise) ∧
    (m.spindle = .counterClockwise →
      lastKind? [.spindleClockwise, .spindleCounterClockwise] (outline text) =
        some .spindleCounterClockwise) := by
  intro m
  have hturn {kind : Option EntryKind} {state : Spindle}
      (h : kind.bind EntryKind.spindle? = some state) :
      (state = .clockwise → kind = some .spindleClockwise) ∧
        (state = .counterClockwise → kind = some .spindleCounterClockwise) := by
    obtain ⟨k, rfl, hk⟩ := Option.bind_eq_some_iff.mp h
    cases k <;> cases hk <;> simp
  refine ⟨?_, fun h => (hturn (spindle_outline (by decide) h)).1 rfl,
    fun h => (hturn (spindle_outline (by decide) h)).2 rfl⟩
  rw [motion_outline]
  cases lastKind? [.rapid, .cutting] (outline text) with
  | none => rfl
  | some k => cases k <;> rfl

end Gcode

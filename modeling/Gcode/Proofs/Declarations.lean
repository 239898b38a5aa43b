import Gcode.Proofs.ByteOrder
import Gcode.Proofs.PathWalk
import Gcode.Reference.Registry

/-! What the reference files of a folder declare. -/
namespace Gcode

/-- A file stands in a folder under the name of a reference file, and its bytes are the text of
a listing. -/
def FileSystem.Declares (parse? : String → Option Listing) (files : FileSystem) (folder : String)
    (file : FileName) (listing : Listing) : Prop :=
  ∃ entries bytes text, files.Leads folder (.folder entries) ∧
    entries.lookup file = some (.file bytes) ∧ ".gcode-ref.toml".toList <:+ file.text.toList ∧
    (entryPath folder file).utf8ByteSize ≤ 4095 ∧ String.fromUTF8? bytes = some text ∧
    parse? text = some listing

section
variable (parse? : String → Option Listing)

def FileSystem.listing? (files : FileSystem) (path : String) : Option Listing :=
  (files.readText path).toOption.bind parse?

def FileSystem.declarations (files : FileSystem) (folder : String) : List (FileName × Listing) :=
  ((files.names folder).filter Registry.isReferenceFile).filterMap fun file =>
    (files.listing? parse? (entryPath folder file)).map (file, ·)

end

theorem nodup_eraseDups {α : Type} [DecidableEq α] (l : List α) : l.eraseDups.Nodup := by
  induction hn : l.length using Nat.strong_induction_on generalizing l with
  | _ n ih =>
    cases l with
    | nil => simp
    | cons a l =>
      rw [List.eraseDups_cons, List.nodup_cons]
      refine ⟨by simp [List.mem_eraseDups], ih _ ?_ _ rfl⟩
      have hle := List.length_filter_le (fun b => !b == a) l
      rw [← hn, List.length_cons]
      omega

/-- Lists with the same items are equal if a text orders the items. -/
theorem eq_of_pairwise_lt {α : Type} {key : α → String} {l l' : List α}
    (h : l.Pairwise (key · < key ·)) (h' : l'.Pairwise (key · < key ·))
    (hmem : ∀ a, a ∈ l ↔ a ∈ l') : l = l' := by
  have hnodup {l : List α} (h : l.Pairwise (key · < key ·)) : l.Nodup := by
    refine List.Pairwise.imp ?_ h
    rintro a b hlt rfl
    exact String.lt_irrefl _ hlt
  have hperm := (List.perm_ext_iff_of_nodup (hnodup h) (hnodup h')).mpr hmem
  refine List.Perm.eq_of_pairwise (fun a b _ _ hab hba => ?_) h h' hperm
  exact absurd (String.lt_trans hab hba) (String.lt_irrefl _)

/-- Names in order, each of them once. -/
theorem pairwise_lt_sorted_names (names : List FileName) :
    (names.eraseDups.mergeSort fun a b => a.text ≤ b.text).Pairwise (·.text < ·.text) := by
  have htrans (a b c : FileName) (hab : decide (a.text ≤ b.text))
      (hbc : decide (b.text ≤ c.text)) : decide (a.text ≤ c.text) :=
    decide_eq_true (String.le_trans (of_decide_eq_true hab) (of_decide_eq_true hbc))
  have htotal (a b : FileName) : decide (a.text ≤ b.text) || decide (b.text ≤ a.text) := by
    simpa using String.le_total a.text b.text
  have hle := List.pairwise_mergeSort htrans htotal names.eraseDups
  have hne : (names.eraseDups.mergeSort fun a b => a.text ≤ b.text).Nodup :=
    (List.mergeSort_perm _ _).nodup_iff.mpr (nodup_eraseDups names)
  refine hle.imp₂ (fun a b hab hne => ?_) hne
  refine String.not_le.mp fun hba => hne ?_
  have htext : a.text = b.text := String.le_antisymm (of_decide_eq_true hab) hba
  cases a
  cases b
  cases htext
  rfl

namespace FileSystem
variable {parse? : String → Option Listing} {files : FileSystem} {folder path : String}
  {file : FileName} {listing : Listing}

theorem readText_eq_ok_iff {text : String} : files.readText path = .ok text ↔
    ∃ bytes, files.find path = .ok (.file bytes) ∧ String.fromUTF8? bytes = some text := by
  rw [readText]
  cases files.find path with
  | error => simp [bind, Except.bind]
  | ok node =>
    cases node with
    | folder => simp [bind, Except.bind]
    | file bytes => cases h : String.fromUTF8? bytes <;> simp [bind, Except.bind, h]

theorem listing?_eq_some_iff : files.listing? parse? path = some listing ↔
    ∃ bytes text, files.find path = .ok (.file bytes) ∧ String.fromUTF8? bytes = some text ∧
      parse? text = some listing := by
  rw [listing?, Option.bind_eq_some_iff]
  constructor
  · rintro ⟨text, htext, hread⟩
    cases h : files.readText path with
    | error => simp [h, Except.toOption] at htext
    | ok text' =>
      obtain rfl : text' = text := by simpa [h, Except.toOption] using htext
      obtain ⟨bytes, hfind, hbytes⟩ := readText_eq_ok_iff.mp h
      exact ⟨bytes, text', hfind, hbytes, hread⟩
  · rintro ⟨bytes, text, hfind, hbytes, hread⟩
    exact ⟨text, by rw [readText_eq_ok_iff.mpr ⟨bytes, hfind, hbytes⟩]; rfl, hread⟩

theorem mem_names : file ∈ files.names folder ↔
    ∃ entries, files.find folder = .ok (.folder entries) ∧ file ∈ entries.map (·.1) := by
  rw [names]
  split
  · next entries h => rw [h, List.mem_mergeSort, List.mem_eraseDups]; simp
  · next h => simpa using fun entries hentries => absurd hentries (h entries)

/-- What a file in a folder declares is a matter of its bytes. -/
theorem listing?_entryPath {entries : List (FileName × FileTree)} {bytes : ByteArray}
    (h : files.find folder = .ok (.folder entries))
    (hsize : (entryPath folder file).utf8ByteSize ≤ 4095)
    (hentry : entries.lookup file = some (.file bytes)) :
    files.listing? parse? (entryPath folder file) = (String.fromUTF8? bytes).bind parse? := by
  rw [listing?, readText, find_entryPath h hsize, hentry]
  cases hbytes : String.fromUTF8? bytes <;> simp [bind, Except.bind, Except.toOption, hbytes]

theorem size_le_of_find {tree : FileTree} (h : files.find path = .ok tree) :
    path.utf8ByteSize ≤ 4095 :=
  (find_eq_ok_iff.mp h).2.2.1

theorem mem_declarations : (file, listing) ∈ files.declarations parse? folder ↔
    files.Declares parse? folder file listing := by
  simp only [declarations, Declares, List.mem_filterMap, List.mem_filter, mem_names,
    Option.map_eq_some_iff, Prod.mk.injEq, listing?_eq_some_iff, Registry.isReferenceFile,
    List.isSuffixOf_iff_suffix, ← find_eq_ok_iff]
  constructor
  · rintro ⟨file', ⟨⟨entries, hfolder, -⟩, hsuffix⟩, _, ⟨bytes, text, hfind, htext⟩, rfl, rfl⟩
    have hsize := size_le_of_find hfind
    rw [find_entryPath hfolder hsize] at hfind
    cases hentry : entries.lookup file' with
    | none => simp [hentry] at hfind
    | some tree =>
      obtain rfl : tree = .file bytes := by simpa [hentry] using hfind
      exact ⟨entries, bytes, text, hfolder, hentry, hsuffix, hsize, htext⟩
  · rintro ⟨entries, bytes, text, hfolder, hentry, hsuffix, hsize, htext⟩
    have hname : file ∈ entries.map (·.1) := by
      obtain ⟨before, after, rfl, -⟩ := List.lookup_eq_some_iff.mp hentry
      simp
    refine ⟨file, ⟨⟨entries, hfolder, hname⟩, hsuffix⟩, listing, ⟨bytes, text, ?_, htext⟩, rfl, rfl⟩
    rw [find_entryPath hfolder hsize, hentry]
    rfl

theorem pairwise_names : (files.names folder).Pairwise (·.text < ·.text) := by
  rw [names]
  split
  · exact pairwise_lt_sorted_names _
  · exact .nil

theorem pairwise_declarations :
    (files.declarations parse? folder).Pairwise (·.1.text < ·.1.text) := by
  refine List.pairwise_filterMap.mpr ((pairwise_names.filter _).imp fun hlt p hp q hq => ?_)
  obtain ⟨_, _, rfl⟩ := Option.map_eq_some_iff.mp hp
  obtain ⟨_, _, rfl⟩ := Option.map_eq_some_iff.mp hq
  exact hlt

/-- The list of the declarations in a folder depends on nothing else. -/
theorem declarations_eq {files' : FileSystem} (h : ∀ file listing,
    files.Declares parse? folder file listing ↔ files'.Declares parse? folder file listing) :
    files.declarations parse? folder = files'.declarations parse? folder := by
  refine eq_of_pairwise_lt pairwise_declarations pairwise_declarations fun p => ?_
  rw [mem_declarations, mem_declarations, h]

/-- The names in a folder are those of its entries, whatever their order there. -/
theorem names_eq {entries : List (FileName × FileTree)} {names : List FileName}
    (h : files.find folder = .ok (.folder entries)) (hsorted : names.Pairwise (·.text < ·.text))
    (hperm : names.Perm (entries.map (·.1))) : files.names folder = names := by
  refine eq_of_pairwise_lt pairwise_names hsorted fun name => ?_
  rw [mem_names, hperm.mem_iff]
  simp [h]

end FileSystem

end Gcode

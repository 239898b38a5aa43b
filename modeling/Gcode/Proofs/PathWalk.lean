import Gcode.FileSystem

/-! What a path leads to, one part after the other, and the entries of the folder where it ends. -/
namespace Gcode

namespace Way

inductive Step : Way → String → Way → Prop
  | stay {entries passed part} (h : part = "" ∨ part = ".") :
      Step (.folder entries, passed) part (.folder entries, passed)
  | up {entries parent passed} : Step (.folder entries, parent :: passed) ".." (parent, passed)
  | top {entries} : Step (.folder entries, []) ".." (.folder entries, [])
  | down {entries passed tree} (name : FileName) (h : entries.lookup name = some tree) :
      Step (.folder entries, passed) name.text (tree, .folder entries :: passed)

inductive Leads : Way → List String → Way → Prop
  | nil {way} : Leads way [] way
  | cons {way way' way'' part path} (h : Step way part way') (hs : Leads way' path way'') :
      Leads way (part :: path) way''

end Way

/-- The parts of a path stand between slashes. A path starts at the root if its first part is
empty, and otherwise in the current folder. -/
def FileSystem.Leads (files : FileSystem) (path : String) (tree : FileTree) : Prop :=
  path ≠ "" ∧ '\x00' ∉ path.toList ∧ path.utf8ByteSize ≤ 4095 ∧
    ∃ parts passed, "/".intercalate parts = path ∧ (∀ part ∈ parts, '/' ∉ part.toList) ∧
      Way.Leads (files.root, [])
        (if parts.head? = some "" then parts else files.current.map (·.text) ++ parts)
        (tree, passed)

theorem Table.get?_eq_lookup {Key α : Type} [DecidableEq Key] (t : Table Key α) (key : Key) :
    t.get? key = t.lookup key := by
  induction t with
  | nil => rfl
  | cons p t ih =>
    rw [get?, List.lookup_cons, ih]
    by_cases h : p.1 = key
    · simp [h]
    · simp [h, beq_eq_false_iff_ne.mpr (Ne.symm h)]

namespace FileName

theorem ofText?_eq_some_iff {text : String} {name : FileName} :
    ofText? text = some name ↔ name.text = text := by
  rw [ofText?]
  cases name with
  | mk text' proper =>
    split
    · next h => simp [eq_comm]
    · next h =>
      simp only [reduceCtorEq, false_iff]
      rintro rfl
      exact h proper

end FileName

namespace Way
variable {way way' : Way} {part : String} {path : List String}

theorem step_eq_ok_iff : way.step part = .ok way' ↔ Step way part way' := by
  constructor
  · intro h
    obtain ⟨tree, passed⟩ := way
    cases tree with
    | file bytes => cases h
    | folder entries =>
      rw [step] at h
      split at h
      · next hstay =>
        cases h
        exact .stay hstay
      split at h
      · next hup =>
        cases h
        rw [hup]
        cases passed with
        | nil => exact .top
        | cons parent passed => exact .up
      split at h
      · cases h
      split at h
      · cases h
      · next tree hfound =>
        cases h
        obtain ⟨name, hname, hentry⟩ := Option.bind_eq_some_iff.mp hfound
        rw [← FileName.ofText?_eq_some_iff.mp hname]
        exact .down name (by rw [← Table.get?_eq_lookup, hentry])
  · intro h
    cases h with
    | stay h => rw [step, if_pos h]
    | up => rfl
    | top => rfl
    | down name h =>
      obtain ⟨hempty, hpoint, hpoints, hsize, -⟩ := name.proper
      rw [step, if_neg (by simp [hempty, hpoint]), if_neg hpoints, if_neg (by omega),
        FileName.ofText?_eq_some_iff.mpr rfl, Option.bind_some, Table.get?_eq_lookup, h]

theorem foldlM_step_eq_ok_iff : path.foldlM step way = .ok way' ↔ Leads way path way' := by
  induction path generalizing way with
  | nil =>
    constructor
    · intro h
      cases h
      exact .nil
    · intro h
      cases h
      rfl
  | cons part path ih =>
    rw [List.foldlM_cons]
    constructor
    · intro h
      cases hstep : way.step part with
      | error e => simp [hstep, bind, Except.bind] at h
      | ok way₁ =>
        rw [hstep] at h
        exact .cons (step_eq_ok_iff.mp hstep) (ih.mp h)
    · intro h
      cases h with
      | cons h hs =>
        rw [step_eq_ok_iff.mpr h]
        exact ih.mpr hs

end Way

theorem notMem_of_mem_splitOn {sep : Char} {cs part : List Char} (h : part ∈ cs.splitOn sep) :
    sep ∉ part := by
  induction cs generalizing part with
  | nil =>
    rw [List.splitOn_nil, List.mem_singleton] at h
    simp [h]
  | cons c cs ih =>
    obtain ⟨front, rest, hcut⟩ := List.exists_cons_of_ne_nil (List.splitOn_ne_nil sep cs)
    rw [List.splitOn_cons_eq_if_modifyHead, hcut] at h
    rw [hcut] at ih
    split at h
    · rcases List.mem_cons.mp h with rfl | h
      · exact List.not_mem_nil
      · exact ih h
    · next hc =>
      rcases List.mem_cons.mp h with rfl | h
      · exact List.not_mem_cons_of_ne_of_not_mem (fun he => hc (beq_iff_eq.mpr he.symm))
          (ih List.mem_cons_self)
      · exact ih (List.mem_cons_of_mem front h)

theorem map_splitOn_eq_iff {path : String} {parts : List String} (h : path ≠ "") :
    (path.toList.splitOn '/').map String.ofList = parts ↔
      "/".intercalate parts = path ∧ ∀ part ∈ parts, '/' ∉ part.toList := by
  constructor
  · rintro rfl
    constructor
    · rw [← String.toList_inj, String.toList_intercalate, List.map_map]
      simp [Function.comp_def, List.intercalate_splitOn]
    · intro part hpart
      obtain ⟨cs, hcs, rfl⟩ := List.mem_map.mp hpart
      rw [String.toList_ofList]
      exact notMem_of_mem_splitOn hcs
  · rintro ⟨rfl, hparts⟩
    have hne : parts ≠ [] := by
      rintro rfl
      exact h String.intercalate_nil
    rw [String.toList_intercalate, show "/".toList = ['/'] from rfl,
      List.splitOn_intercalate '/' (by simpa using hparts) (by simpa using hne), List.map_map]
    simp [Function.comp_def]

namespace FileSystem
variable {files : FileSystem} {folder path : String} {name : FileName}
  {entries : List (FileName × FileTree)} {tree : FileTree}

theorem head?_eq_slash_iff {parts : List String} (h : path ≠ "")
    (hparts : (path.toList.splitOn '/').map String.ofList = parts) :
    path.toList.head? = some '/' ↔ parts.head? = some "" := by
  subst hparts
  cases hcs : path.toList with
  | nil => exact absurd (String.toList_eq_nil_iff.mp hcs) h
  | cons c cs =>
    obtain ⟨front, rest, hcut⟩ := List.exists_cons_of_ne_nil (List.splitOn_ne_nil '/' cs)
    rw [List.splitOn_cons_eq_if_modifyHead, hcut]
    by_cases hc : c = '/' <;> simp [hc]

theorem parts_eq {parts : List String} (h : path ≠ "")
    (hparts : (path.toList.splitOn '/').map String.ofList = parts) : files.parts path =
      if parts.head? = some "" then parts else files.current.map (·.text) ++ parts := by
  rw [FileSystem.parts, hparts]
  simp only [head?_eq_slash_iff h hparts]

theorem leads_iff : files.Leads path tree ↔
    path ≠ "" ∧ '\x00' ∉ path.toList ∧ path.utf8ByteSize ≤ 4095 ∧
      ∃ passed, Way.Leads (files.root, []) (files.parts path) (tree, passed) := by
  rw [Leads]
  refine and_congr_right fun hpath => and_congr_right fun _ => and_congr_right fun _ => ?_
  constructor
  · rintro ⟨parts, passed, htext, hslash, hleads⟩
    rw [← parts_eq hpath ((map_splitOn_eq_iff hpath).mpr ⟨htext, hslash⟩)] at hleads
    exact ⟨passed, hleads⟩
  · rintro ⟨passed, hleads⟩
    obtain ⟨htext, hslash⟩ := (map_splitOn_eq_iff hpath).mp rfl
    rw [parts_eq hpath rfl] at hleads
    exact ⟨_, passed, htext, hslash, hleads⟩

theorem find_eq_ok_iff : files.find path = .ok tree ↔ files.Leads path tree := by
  rw [find, leads_iff]
  split
  · next h => simp [h]
  split
  · next h =>
    simp only [reduceCtorEq, false_iff]
    rintro ⟨-, -, hsize, -⟩
    exact absurd hsize (by rw [maxPath] at h; omega)
  split
  · next h => simp [h]
  next hnul hsize hempty =>
  have hpath : path ≠ "" ∧ '\x00' ∉ path.toList ∧ path.utf8ByteSize ≤ 4095 :=
    ⟨hempty, hnul, by rw [maxPath] at hsize; omega⟩
  simp only [← Way.foldlM_step_eq_ok_iff, hpath, true_and, ne_eq, not_false_eq_true]
  cases (files.parts path).foldlM Way.step (files.root, []) with
  | error e => simp [Except.map]
  | ok way => simp [Except.map, Prod.ext_iff]

/-- A slash stands between a folder and the name of an entry, unless the folder ends with one. -/
theorem exists_toList_entryPath (h : folder ≠ "") : ∃ front : List Char,
    (folder.toList = front ∨ folder.toList = front ++ ['/']) ∧
      (entryPath folder name).toList = front ++ '/' :: name.text.toList := by
  rw [entryPath]
  split
  · next hlast => exact absurd (List.getLast?_eq_none_iff.mp hlast) (by simpa using h)
  · next hlast =>
    obtain ⟨front, hfront⟩ := List.getLast?_eq_some_iff.mp hlast
    refine ⟨front, .inr hfront, ?_⟩
    rw [String.toList_append, hfront, List.append_assoc]
    rfl
  · refine ⟨folder.toList, .inl rfl, ?_⟩
    rw [String.toList_append, String.toList_append, List.append_assoc]
    rfl

/-- The path of an entry has the parts of the folder and one more. -/
theorem exists_parts_entryPath (h : folder ≠ "") : ∃ front,
    (files.parts folder = front ∨ files.parts folder = front ++ [""]) ∧
      files.parts (entryPath folder name) = front ++ [name.text] := by
  obtain ⟨front, hfolder, hentry⟩ := @exists_toList_entryPath folder name h
  have hne : folder.toList ≠ [] := by simpa using h
  have hname : name.text.toList.splitOn '/' = [name.text.toList] :=
    List.splitOn_eq_singleton name.proper.2.2.2.2.1
  have hhead : (front ++ '/' :: name.text.toList).head? = folder.toList.head? := by
    cases front with
    | nil =>
      rcases hfolder with hfolder | hfolder
      · exact absurd hfolder hne
      · rw [hfolder]
        rfl
    | cons c front => rcases hfolder with hfolder | hfolder <;> simp [hfolder]
  let start := if folder.toList.head? = some '/' then [] else files.current.map (·.text)
  have hparts {path : String} (hpath : path.toList.head? = folder.toList.head?) :
      files.parts path = start ++ (path.toList.splitOn '/').map String.ofList := by
    rw [parts, hpath]
    simp only [start]
    split <;> rfl
  refine ⟨start ++ (front.splitOn '/').map String.ofList, ?_, ?_⟩
  · rw [hparts rfl]
    rcases hfolder with hfolder | hfolder
    · exact .inl (by rw [hfolder])
    · refine .inr ?_
      rw [List.append_assoc, hfolder, List.splitOn_append_cons_self]
      simp
  · rw [hparts (by rw [hentry, hhead]), hentry, List.splitOn_append_cons_self, hname,
      List.map_append, ← List.append_assoc]
    simp

theorem foldlM_step_append_name {way : Way} {front : List String} {passed : List FileTree}
    (h : front.foldlM Way.step way = .ok (.folder entries, passed)) :
    ((front ++ [name.text]).foldlM Way.step way).map (·.1) =
      (entries.lookup name).elim (.error .notFound) .ok := by
  rw [List.foldlM_append, h]
  show (([name.text] : List String).foldlM Way.step (.folder entries, passed)).map (·.1) = _
  obtain ⟨hempty, hpoint, hpoints, hsize, -⟩ := name.proper
  rw [List.foldlM_cons, Way.step, if_neg (by simp [hempty, hpoint]), if_neg hpoints,
    if_neg (by omega), FileName.ofText?_eq_some_iff.mpr rfl, Option.bind_some,
    Table.get?_eq_lookup]
  cases entries.lookup name <;> rfl

/-- A slash at the end of the path of a folder leads no further. -/
theorem foldlM_step_of_append_empty {way : Way} {front : List String} {passed : List FileTree}
    (h : (front ++ [""]).foldlM Way.step way = .ok (.folder entries, passed)) :
    front.foldlM Way.step way = .ok (.folder entries, passed) := by
  rw [List.foldlM_append] at h
  cases hway : front.foldlM Way.step way with
  | error e => simp [hway, bind, Except.bind] at h
  | ok way' =>
    rw [hway] at h
    obtain ⟨tree, passed'⟩ := way'
    cases tree with
    | file bytes => cases h
    | folder entries' => exact h

theorem entryPath_ne_empty (h : folder ≠ "") : entryPath folder name ≠ "" := by
  obtain ⟨front, -, hentry⟩ := @exists_toList_entryPath folder name h
  intro he
  simp [he] at hentry

theorem nul_notMem_entryPath (h : folder ≠ "") (hnul : '\x00' ∉ folder.toList) :
    '\x00' ∉ (entryPath folder name).toList := by
  obtain ⟨front, hfolder, hentry⟩ := @exists_toList_entryPath folder name h
  have hfront : '\x00' ∉ front := fun hc =>
    hnul (by rcases hfolder with hfolder | hfolder <;> simp [hfolder, hc])
  rw [hentry]
  simp [hfront, name.proper.2.2.2.2.2]

theorem find_entryPath (h : files.find folder = .ok (.folder entries))
    (hsize : (entryPath folder name).utf8ByteSize ≤ 4095) :
    files.find (entryPath folder name) =
      (entries.lookup name).elim (.error .notFound) .ok := by
  obtain ⟨hempty, hnul, -, passed, hleads⟩ := leads_iff.mp (find_eq_ok_iff.mp h)
  rw [← Way.foldlM_step_eq_ok_iff] at hleads
  obtain ⟨front, hfolder, hentry⟩ := @exists_parts_entryPath files folder name hempty
  have hfront : front.foldlM Way.step (files.root, []) = .ok (.folder entries, passed) := by
    rcases hfolder with hfolder | hfolder
    · rw [← hfolder, hleads]
    · exact foldlM_step_of_append_empty (hfolder ▸ hleads)
  rw [find, if_neg (nul_notMem_entryPath hempty hnul), if_neg (by rw [maxPath]; omega),
    if_neg (entryPath_ne_empty hempty), hentry]
  exact foldlM_step_append_name hfront

end FileSystem
end Gcode

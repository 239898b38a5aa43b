import Gcode.Proofs.CodeSpellings
import Gcode.Proofs.Declarations
import Gcode.Reference.Listing
import Gcode.Settings

/-! Which declaration of a name the registry of a session keeps, and which reference is active. -/
namespace Gcode

def Listing.lastNamed? (listings : List Listing) (name : String) : Option Listing :=
  (listings.filter (·.name = name)).getLast?

theorem Listing.isSome_lastNamed? {listings : List Listing} {name : String} :
    (lastNamed? listings name).isSome ↔ ∃ listing ∈ listings, listing.name = name := by
  rw [lastNamed?, List.getLast?_isSome, Ne, List.filter_eq_nil_iff]
  simp only [decide_eq_true_eq, not_forall, not_not, exists_prop]

theorem Table.isSome_get? {α : Type} (t : Table String α) (key : String) :
    (t.get? key).isSome ↔ key ∈ t.map (·.1) := by
  induction t with
  | nil => simp [get?]
  | cons p t ih =>
    rw [get?]
    split
    · next h => simp [h]
    · next h => simp [ih, Ne.symm h]

namespace Registry
open Reference (builtInName builtInText)
variable {parse? : String → Option Listing} {files : FileSystem} {folder path : String}
  {registry : Registry} {embedded : Listing}

theorem mem_names {name : String} : name ∈ registry.names ↔ registry.contains name := by
  rw [names, List.mem_mergeSort, contains, get?, Table.isSome_get?]

def addListings (registry : Registry) (listings : List Listing) : Registry :=
  listings.foldl (fun registry listing => registry.add (.ofListing listing)) registry

theorem addListings_eq (listings : List Listing) : registry.addListings listings =
    ⟨listings.foldl (fun t l => t.put l.name (.ofListing l)) registry.references,
      registry.activeName⟩ := by
  induction listings generalizing registry with
  | nil => rfl
  | cons l ls ih => exact ih

theorem get?_addListings (listings : List Listing) (name : String) :
    (addListings {} listings).get? name = (Listing.lastNamed? listings name).map .ofListing := by
  have h := Table.get?_ofList (listings.map fun l => (l.name, Reference.ofListing l)) name
  rw [Table.ofList, List.foldl_map, List.filter_map, List.getLast?_map, Option.map_map] at h
  rw [get?, addListings_eq]
  exact h

theorem contains_addListings {listings : List Listing} {name : String} :
    (addListings {} listings).contains name ↔ ∃ listing ∈ listings, listing.name = name := by
  rw [contains, get?_addListings, Option.isSome_map, Listing.isSome_lastNamed?]

theorem readFile_eq (files : FileSystem) (path : String) :
    (readFile parse? files path).toOption = (files.listing? parse? path).map .ofListing := by
  rw [readFile, FileSystem.listing?]
  cases files.readText path with
  | error => rfl
  | ok text => cases h : parse? text <;> simp [h, Except.toOption]

theorem load_eq (registry : Registry) (files : FileSystem) (path : String) :
    (registry.load parse? files path).1 =
        registry.addListings (files.listing? parse? path).toList ∧
      (registry.load parse? files path).2.toOption =
        (files.listing? parse? path).map (·.name) := by
  have h := @readFile_eq parse? files path
  rw [load]
  cases hfile : readFile parse? files path with
  | error e =>
    rw [hfile] at h
    rw [Option.map_eq_none_iff.mp h.symm]
    exact ⟨rfl, rfl⟩
  | ok reference =>
    rw [hfile] at h
    obtain ⟨listing, hlisting, rfl⟩ := Option.map_eq_some_iff.mp h.symm
    rw [hlisting]
    exact ⟨rfl, rfl⟩

/-- Files that cannot be loaded are passed over. -/
theorem loadAll_fst (paths : List String) : (registry.loadAll parse? files paths).1 =
    registry.addListings (paths.filterMap (files.listing? parse?)) := by
  induction paths generalizing registry with
  | nil => rfl
  | cons path paths ih =>
    obtain ⟨hregistry, hname⟩ := @load_eq parse? registry files path
    rw [loadAll]
    split
    · next registry' name hload =>
      rw [hload] at hregistry hname
      obtain ⟨listing, hlisting, -⟩ := Option.map_eq_some_iff.mp hname.symm
      rw [List.filterMap_cons_some hlisting]
      rw [hlisting] at hregistry
      show (registry'.loadAll parse? files paths).1 = _
      rw [ih, show registry' = _ from hregistry]
      rfl
    · next registry' e hload =>
      rw [hload] at hregistry hname
      have hlisting := Option.map_eq_none_iff.mp hname.symm
      rw [List.filterMap_cons_none hlisting]
      rw [hlisting] at hregistry
      rw [ih, show registry' = _ from hregistry]
      rfl

theorem loadFolder_fst : (registry.loadFolder parse? files folder).1 =
    registry.addListings ((files.declarations parse? folder).map (·.2)) := by
  rw [loadFolder, loadAll_fst, FileSystem.declarations, List.map_filterMap, List.filterMap_map]
  simp only [Option.map_map, Function.comp_def, Option.map_id']

def loaded (parse? : String → Option Listing) (files : FileSystem) (embedded : Listing)
    (folders : List String) : List Listing :=
  embedded :: folders.flatMap fun folder => (files.declarations parse? folder).map (·.2)

theorem mem_loaded {folders : List String} {listing : Listing} :
    listing ∈ loaded parse? files embedded folders ↔ listing = embedded ∨
      ∃ folder ∈ folders, ∃ file, files.Declares parse? folder file listing := by
  simp only [loaded, List.mem_cons, List.mem_flatMap, List.mem_map, Prod.exists, exists_eq_right,
    FileSystem.mem_declarations]

/-- The registry before a reference is active holds the loaded listings. -/
theorem foldl_loadFolder (hembedded : parse? builtInText = some embedded)
    (folders : List String) :
    folders.foldl (fun registry folder => (registry.loadFolder parse? files folder).1)
        (addBuiltIn parse? {}) =
      addListings {} (loaded parse? files embedded folders) := by
  have hbuiltIn : addBuiltIn parse? {} = addListings {} [embedded] := by
    rw [addBuiltIn, hembedded]
    rfl
  simp only [hbuiltIn, loadFolder_fst, loaded, addListings, List.foldl_map, List.foldl_cons,
    List.foldl_flatMap]
  rfl

theorem contains_builtInName (hname : embedded.name = builtInName) (folders : List String) :
    (addListings {} (loaded parse? files embedded folders)).contains builtInName :=
  contains_addListings.mpr ⟨embedded, List.mem_cons_self, hname⟩

theorem ofFolders_eq (hembedded : parse? builtInText = some embedded)
    (hname : embedded.name = builtInName) (folders : List String) (wanted : String) :
    let registry := addListings {} (loaded parse? files embedded folders)
    ofFolders parse? files folders wanted = ⟨registry.references,
      some (if registry.contains wanted then wanted else builtInName)⟩ := by
  intro registry
  have hbuiltIn : registry.contains builtInName := contains_builtInName hname folders
  rw [ofFolders, foldl_loadFolder hembedded]
  by_cases h : registry.contains wanted
  · have hactivate : registry.activate wanted =
        ({ registry with activeName := some wanted }, true) := if_pos h
    simp only [registry, hactivate, if_pos h]
  · have hactivate : registry.activate wanted = (registry, false) := if_neg h
    simp only [registry, hactivate, if_neg h]
    rw [activate, if_pos hbuiltIn]

theorem get?_ofFolders (hembedded : parse? builtInText = some embedded)
    (hname : embedded.name = builtInName) (folders : List String) (wanted name : String) :
    (ofFolders parse? files folders wanted).get? name =
      (Listing.lastNamed? (loaded parse? files embedded folders) name).map .ofListing := by
  rw [ofFolders_eq hembedded hname]
  exact get?_addListings _ name

theorem mem_names_ofFolders (hembedded : parse? builtInText = some embedded)
    (hname : embedded.name = builtInName) {folders : List String} {wanted name : String} :
    name ∈ (ofFolders parse? files folders wanted).names ↔
      ∃ listing ∈ loaded parse? files embedded folders, listing.name = name := by
  rw [mem_names, contains, get?_ofFolders hembedded hname, Option.isSome_map,
    Listing.isSome_lastNamed?]

/-- What is active is the wanted reference or, where that is not loaded, the one that comes with
the program or was put in its place. -/
theorem exists_active?_ofFolders (hembedded : parse? builtInText = some embedded)
    (hname : embedded.name = builtInName) (folders : List String) (wanted : String) :
    let registry := ofFolders parse? files folders wanted
    ∃ reference, registry.active? = some reference ∧
      registry.get? (if registry.contains wanted then wanted else builtInName) =
        some reference := by
  intro registry
  have hregistry : registry = _ := ofFolders_eq hembedded hname folders wanted
  have hactive : registry.activeName =
      some (if registry.contains wanted then wanted else builtInName) := by
    rw [hregistry]
    rfl
  have hloaded : registry.contains (if registry.contains wanted then wanted else builtInName) := by
    split
    · assumption
    · rw [hregistry]
      exact contains_builtInName hname folders
  obtain ⟨reference, hreference⟩ := Option.isSome_iff_exists.mp hloaded
  exact ⟨reference, by rw [active?, hactive, Option.bind_some, hreference], hreference⟩

theorem loadFolder_congr {files' : FileSystem} (registry : Registry)
    (h : ∀ file listing, files.Declares parse? folder file listing ↔
      files'.Declares parse? folder file listing) :
    (registry.loadFolder parse? files folder).1 = (registry.loadFolder parse? files' folder).1 := by
  rw [loadFolder_fst, loadFolder_fst, FileSystem.declarations_eq h]

/-- Folders have no effect but for their declarations. -/
theorem ofFolders_congr {files' : FileSystem} {folders : List String} (wanted : String)
    (h : ∀ folder ∈ folders, ∀ file listing, files.Declares parse? folder file listing ↔
      files'.Declares parse? folder file listing) :
    ofFolders parse? files folders wanted = ofFolders parse? files' folders wanted := by
  rw [ofFolders, ofFolders, List.foldl_ext _ _ _ fun registry folder hfolder =>
    loadFolder_congr registry (h folder hfolder)]

theorem ofFolders_append_cons {before after : List String} (wanted : String)
    (h : ∀ file listing, ¬files.Declares parse? folder file listing) :
    ofFolders parse? files (before ++ folder :: after) wanted =
      ofFolders parse? files (before ++ after) wanted := by
  have hnone : files.declarations parse? folder = [] :=
    List.eq_nil_iff_forall_not_mem.mpr fun p hp => h _ _ (FileSystem.mem_declarations.mp hp)
  simp only [ofFolders, List.foldl_append, List.foldl_cons, loadFolder_fst, hnone]
  rfl

theorem fromUTF8?_toUTF8 (text : String) : String.fromUTF8? text.toUTF8 = some text :=
  dif_pos text.isValidUTF8

theorem ne_builtInText {text : String}
    (h : ¬Reference.builtInHeading.toList <+: text.toList) : text ≠ builtInText := by
  rintro rfl
  rw [builtInText, String.toList_append] at h
  exact h (List.prefix_append _ _)

/-- Each name is bound to its last declaration. In front stands the listing that comes with the
program, then those of the valid files, folder by folder and in a folder by the bytes of the
files' names. Nothing else in the folders has an effect, and a reference is always active. -/
theorem ofFolders_by_load_order (hembedded : parse? builtInText = some embedded)
    (hname : embedded.name = "fanuc-mill") (files : FileSystem) (settings : Settings) :
    let wanted := settings.wantedReference
    let registry := ofFolders parse? files settings.folders wanted
    (∀ folder,
      (files.declarations parse? folder).Pairwise (fun p q => ByteLt p.1.text q.1.text) ∧
      ∀ file listing, (file, listing) ∈ files.declarations parse? folder ↔
        files.Declares parse? folder file listing) ∧
    (∀ name, registry.get? name = (Listing.lastNamed?
      (embedded :: settings.folders.flatMap fun folder =>
        (files.declarations parse? folder).map (·.2)) name).map .ofListing) ∧
    (∀ name, name ∈ registry.names ↔ name = "fanuc-mill" ∨
      ∃ folder ∈ settings.folders, ∃ file listing,
        files.Declares parse? folder file listing ∧ listing.name = name) ∧
    (∃ reference, registry.active? = some reference ∧
      registry.get? (if wanted ∈ registry.names then wanted else "fanuc-mill") =
        some reference) ∧
    (∀ files' : FileSystem, (∀ folder ∈ settings.folders, ∀ file listing,
        files.Declares parse? folder file listing ↔
          files'.Declares parse? folder file listing) →
      ofFolders parse? files' settings.folders wanted = registry) ∧
    ∀ before folder after, settings.folders = before ++ folder :: after →
      (∀ file listing, ¬files.Declares parse? folder file listing) →
      ofFolders parse? files (before ++ after) wanted = registry := by
  intro wanted registry
  refine ⟨fun folder => ⟨FileSystem.pairwise_declarations.imp byteLt_of_lt,
      fun _ _ => FileSystem.mem_declarations⟩,
    get?_ofFolders hembedded hname settings.folders wanted,
    fun name => ?_, ?_, fun files' h => (ofFolders_congr wanted h).symm,
    fun before folder after hfolders hnone => ?_⟩
  · rw [mem_names_ofFolders hembedded hname]
    constructor
    · rintro ⟨listing, hlisting, rfl⟩
      rcases mem_loaded.mp hlisting with rfl | ⟨folder, hfolder, file, hdeclares⟩
      · exact .inl hname
      · exact .inr ⟨folder, hfolder, file, listing, hdeclares, rfl⟩
    · rintro (rfl | ⟨folder, hfolder, file, listing, hdeclares, rfl⟩)
      · exact ⟨embedded, mem_loaded.mpr (.inl rfl), hname⟩
      · exact ⟨listing, mem_loaded.mpr (.inr ⟨folder, hfolder, file, hdeclares⟩), rfl⟩
  · simp only [mem_names]
    exact exists_active?_ofFolders hembedded hname settings.folders wanted
  · have hdrop : ofFolders parse? files (before ++ folder :: after) wanted =
        ofFolders parse? files (before ++ after) wanted := ofFolders_append_cons wanted hnone
    rw [← hdrop, ← hfolders]

/-- Good files between bad ones, and a name that is declared in both folders and twice in one. -/
theorem ofFolders_by_load_order_between_bad_files :
    let parse? (text : String) : Option Listing :=
      if text = builtInText then some Reference.builtInListing else Listing.read? text
    let lathe (version : String) : Listing := ⟨"lathe", some version, none, []⟩
    let first := "[reference]\nname = \"lathe\"\nversion = \"1\"\n"
    let second := "[reference]\nname = \"lathe\"\nversion = \"2\"\n"
    let refs : FileName := ⟨"refs", by decide⟩
    let shop : FileName := ⟨"shop", by decide⟩
    let a : FileName := ⟨"a.gcode-ref.toml", by decide⟩
    let b : FileName := ⟨"b.gcode-ref.toml", by decide⟩
    let c : FileName := ⟨"c.gcode-ref.toml", by decide⟩
    let d : FileName := ⟨"d.gcode-ref.toml", by decide⟩
    let notes : FileName := ⟨"notes.toml", by decide⟩
    let inShop : List (FileName × FileTree) := [(d, .file second.toUTF8),
      (notes, .file first.toUTF8), (c, .file ⟨#[0xff]⟩), (b, .file first.toUTF8),
      (a, .file "[reference".toUTF8)]
    let inRefs : List (FileName × FileTree) := [(a, .file first.toUTF8)]
    let files : FileSystem := ⟨.folder [(refs, .folder inRefs), (shop, .folder inShop)], [shop]⟩
    let settings (folders : List String) : Settings := ⟨some "lathe", folders, none, true, "info"⟩
    let registry (folders : List String) : Registry :=
      ofFolders parse? files folders (settings folders).wantedReference
    (parse? builtInText = some Reference.builtInListing ∧
      Reference.builtInListing.name = "fanuc-mill" ∧
      files.declarations parse? "." = [(b, lathe "1"), (d, lathe "2")]) ∧
    (registry ["/missing", "."]).get? "lathe" = some (.ofListing (lathe "2")) ∧
    (registry [".", "../refs/"]).active? = some (.ofListing (lathe "1")) := by
  intro parse? lathe first second refs shop a b c d notes inShop inRefs files settings registry
  have hembedded : parse? builtInText = some Reference.builtInListing := if_pos rfl
  have hparse {text : String} (h : ¬Reference.builtInHeading.toList <+: text.toList) :
      parse? text = Listing.read? text := if_neg (ne_builtInText h)
  have hfirst : (String.fromUTF8? first.toUTF8).bind parse? = some (lathe "1") := by
    rw [fromUTF8?_toUTF8, Option.bind_some, hparse (by decide +kernel)]
    decide +kernel
  have hsecond : (String.fromUTF8? second.toUTF8).bind parse? = some (lathe "2") := by
    rw [fromUTF8?_toUTF8, Option.bind_some, hparse (by decide +kernel)]
    decide +kernel
  have hbroken : (String.fromUTF8? "[reference".toUTF8).bind parse? = none := by
    rw [fromUTF8?_toUTF8, Option.bind_some, hparse (by decide +kernel)]
    decide +kernel
  have hbytes : (String.fromUTF8? ⟨#[0xff]⟩).bind parse? = none := by
    rw [show String.fromUTF8? ⟨#[0xff]⟩ = none by decide +kernel, Option.bind_none]
  have hshop : files.declarations parse? "." = [(b, lathe "1"), (d, lathe "2")] := by
    have hfind : files.find "." = .ok (.folder inShop) := by
      refine FileSystem.find_eq_ok_iff.mpr ⟨by decide, by decide, by decide, ["."], [files.root],
        by decide +kernel, by decide, ?_⟩
      exact .cons (.down shop rfl) (.cons (.stay (.inr rfl)) .nil)
    have hnames : files.names "." = [a, b, c, d, notes] :=
      FileSystem.names_eq hfind (by decide +kernel) (by decide +kernel)
    have hsuffix : [a, b, c, d, notes].filter isReferenceFile = [a, b, c, d] := by decide +kernel
    have ha : files.listing? parse? (FileSystem.entryPath "." a) = none :=
      (FileSystem.listing?_entryPath hfind (by decide) rfl).trans hbroken
    have hb : files.listing? parse? (FileSystem.entryPath "." b) = some (lathe "1") :=
      (FileSystem.listing?_entryPath hfind (by decide) rfl).trans hfirst
    have hc : files.listing? parse? (FileSystem.entryPath "." c) = none :=
      (FileSystem.listing?_entryPath hfind (by decide) rfl).trans hbytes
    have hd : files.listing? parse? (FileSystem.entryPath "." d) = some (lathe "2") :=
      (FileSystem.listing?_entryPath hfind (by decide) rfl).trans hsecond
    rw [FileSystem.declarations, hnames, hsuffix]
    simp only [List.filterMap_cons, List.filterMap_nil, ha, hb, hc, hd, Option.map_some,
      Option.map_none]
  have hrefs : files.declarations parse? "../refs/" = [(a, lathe "1")] := by
    have hfind : files.find "../refs/" = .ok (.folder inRefs) := by
      refine FileSystem.find_eq_ok_iff.mpr ⟨by decide, by decide, by decide,
        ["..", "refs", ""], [files.root], by decide +kernel, by decide, ?_⟩
      exact .cons (.down shop rfl) (.cons .up (.cons (.down refs rfl)
        (.cons (.stay (.inl rfl)) .nil)))
    have hnames : files.names "../refs/" = [a] :=
      FileSystem.names_eq hfind (List.pairwise_singleton _ _) (.refl _)
    have hsuffix : [a].filter isReferenceFile = [a] := by decide +kernel
    have ha : files.listing? parse? (FileSystem.entryPath "../refs/" a) = some (lathe "1") :=
      (FileSystem.listing?_entryPath hfind (by decide) rfl).trans hfirst
    rw [FileSystem.declarations, hnames, hsuffix]
    simp only [List.filterMap_cons, List.filterMap_nil, ha, Option.map_some]
  have hmissing : files.declarations parse? "/missing" = [] := by
    have hfind : (files.find "/missing").isOk = false := by decide +kernel
    rw [FileSystem.declarations, FileSystem.names]
    cases h : files.find "/missing" with
    | error => rfl
    | ok => simp [h, Except.isOk, Except.toBool] at hfind
  refine ⟨⟨hembedded, rfl, hshop⟩, ?_, ?_⟩
  · obtain ⟨-, hget, -⟩ := ofFolders_by_load_order hembedded rfl files
      (settings ["/missing", "."])
    refine (hget "lathe").trans ?_
    rw [List.flatMap_cons, List.flatMap_cons, List.flatMap_nil, hmissing, hshop]
    decide +kernel
  · obtain ⟨-, hget, hnames, ⟨reference, hactive, hreference⟩, -⟩ :=
      ofFolders_by_load_order hembedded rfl files (settings [".", "../refs/"])
    have hlathe : (settings [".", "../refs/"]).wantedReference ∈
        (registry [".", "../refs/"]).names :=
      (hnames "lathe").mpr (.inr ⟨"../refs/", by simp [settings], a, lathe "1",
        FileSystem.mem_declarations.mp (by rw [hrefs]; exact List.mem_cons_self), rfl⟩)
    rw [if_pos hlathe] at hreference
    refine hactive.trans (hreference.symm.trans ((hget "lathe").trans ?_))
    rw [List.flatMap_cons, List.flatMap_cons, List.flatMap_nil, hshop, hrefs]
    decide +kernel

end Registry
end Gcode

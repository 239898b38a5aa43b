import Gcode.Proofs.CanonicalName
import Gcode.Proofs.LoadOrder

/-! A registry as the history of what was done to it. It holds the last listing of every name that
was loaded, and the name that was last made active. -/
namespace Gcode

namespace Table
variable {α : Type}

theorem mem_put {t : Table String α} {key : String} {value : α} {p : String × α}
    (h : p ∈ t.put key value) : p = (key, value) ∨ p ∈ t := by
  induction t with
  | nil => exact .inl (List.mem_singleton.mp h)
  | cons q t ih =>
    rw [put] at h
    split at h
    · exact (List.mem_cons.mp h).imp_right (List.mem_cons_of_mem q)
    · rcases List.mem_cons.mp h with rfl | h
      · exact .inr List.mem_cons_self
      · exact (ih h).imp_right (List.mem_cons_of_mem q)

theorem mem_ofList {pairs : List (String × α)} {p : String × α} (h : p ∈ ofList pairs) :
    p ∈ pairs := by
  induction pairs using List.reverseRecOn with
  | nil => exact absurd h List.not_mem_nil
  | append_singleton pairs q ih =>
    rw [ofList, List.foldl_append] at h
    rcases mem_put h with rfl | h
    · exact List.mem_append_right pairs List.mem_cons_self
    · exact List.mem_append_left [q] (ih h)

end Table

/-- The codes of a reference stand under the canonical form of their names. -/
theorem Reference.key_of_mem_codes {listing : Listing} {code : String × CodeHelp}
    (h : code ∈ (ofListing listing).codes) : code.1 = Code.ofName code.2.name := by
  obtain ⟨help, -, rfl⟩ := List.mem_map.mp (Table.mem_ofList h)
  rfl

namespace Registry

inductive Operation where
  | add (listing : Listing)
  | addBuiltIn
  | activate (name : String)
  | loadFile (files : FileSystem) (path : String)
  | loadFolder (files : FileSystem) (folder : String)

section
variable (parse? : String → Option Listing)

def Operation.listings : Operation → List Listing
  | add listing => [listing]
  | addBuiltIn => (parse? Reference.builtInText).toList
  | activate _ => []
  | loadFile files path => (files.listing? parse? path).toList
  | loadFolder files folder => (files.declarations parse? folder).map (·.2)

/-- The name that an operation makes active after some listings were loaded. One that none of them
has is refused. -/
def Operation.activated? (loaded : List Listing) : Operation → Option String
  | activate name => if ∃ listing ∈ loaded, listing.name = name then some name else none
  | _ => none

def perform (registry : Registry) : Operation → Registry × Bool
  | .add listing => (registry.add (.ofListing listing), true)
  | .addBuiltIn => (registry.addBuiltIn parse?, true)
  | .activate name => registry.activate name
  | .loadFile files path =>
    match registry.load parse? files path with
    | (registry, .ok _) => (registry, true)
    | (registry, .error _) => (registry, false)
  | .loadFolder files folder => ((registry.loadFolder parse? files folder).1, true)

def run (operations : List Operation) : Registry :=
  operations.foldl (fun registry operation => (registry.perform parse? operation).1) {}

def activations : (loaded : List Listing) → List Operation → List String
  | _, [] => []
  | loaded, operation :: operations =>
    (operation.activated? loaded).toList ++
      activations (loaded ++ operation.listings parse?) operations

end

def holding (loaded : List Listing) (active : Option String) : Registry :=
  ⟨(addListings {} loaded).references, active⟩

variable {parse? : String → Option Listing} {registry : Registry} {loaded : List Listing}
  {active : Option String}

theorem get?_holding (name : String) : (holding loaded active).get? name =
    (Listing.lastNamed? loaded name).map .ofListing :=
  get?_addListings loaded name

theorem contains_holding (name : String) :
    (holding loaded active).contains name ↔ ∃ listing ∈ loaded, listing.name = name :=
  contains_addListings

theorem addListings_holding (listings : List Listing) :
    (holding loaded active).addListings listings = holding (loaded ++ listings) active := by
  rw [addListings_eq, holding, holding, addListings_eq, addListings_eq, List.foldl_append]

theorem addBuiltIn_eq : registry.addBuiltIn parse? =
    registry.addListings (parse? Reference.builtInText).toList := by
  rw [addBuiltIn]
  cases parse? Reference.builtInText <;> rfl

theorem perform_loadFile_fst (files : FileSystem) (path : String) :
    (registry.perform parse? (.loadFile files path)).1 =
      registry.addListings (files.listing? parse? path).toList := by
  rw [perform, ← (load_eq registry files path).1]
  split <;> next hload => rw [hload]

theorem perform_loadFile_snd (files : FileSystem) (path : String) :
    (registry.perform parse? (.loadFile files path)).2 = false ↔
      files.listing? parse? path = none := by
  have h := (@load_eq parse? registry files path).2
  rw [perform, ← @Option.map_eq_none_iff _ _ _ (·.name), ← h]
  split <;> next hload => rw [hload]; simp [Except.toOption]

theorem perform_holding (operation : Operation) :
    ((holding loaded active).perform parse? operation).1 =
      holding (loaded ++ operation.listings parse?)
        ((operation.activated? loaded).or active) := by
  cases operation with
  | add listing => exact addListings_holding [listing]
  | addBuiltIn => exact addBuiltIn_eq.trans (addListings_holding _)
  | activate name =>
    rw [perform, activate, Operation.listings, List.append_nil, Operation.activated?]
    simp only [contains_holding]
    split <;> rfl
  | loadFile files path => exact (perform_loadFile_fst files path).trans (addListings_holding _)
  | loadFolder files folder => exact loadFolder_fst.trans (addListings_holding _)

/-- After any operations a registry holds all listings that were loaded, and the last activated
name. -/
theorem foldl_perform_holding (operations : List Operation) :
    operations.foldl (fun registry operation => (registry.perform parse? operation).1)
        (holding loaded active) =
      holding (loaded ++ operations.flatMap (Operation.listings parse?))
        ((activations parse? loaded operations).getLast?.or active) := by
  induction operations generalizing loaded active with
  | nil => rw [List.flatMap_nil, List.append_nil]; rfl
  | cons operation operations ih =>
    rw [List.foldl_cons, perform_holding, ih, List.flatMap_cons, List.append_assoc, activations,
      List.getLast?_append, Option.or_assoc]
    cases operation.activated? loaded <;> rfl

theorem run_eq (operations : List Operation) :
    run parse? operations = holding (operations.flatMap (Operation.listings parse?))
      (activations parse? [] operations).getLast? := by
  have h := @foldl_perform_holding parse? [] none operations
  rw [List.nil_append, Option.or_none] at h
  exact h

/-- An operation that fails leaves the registry as it was. -/
theorem perform_of_failed {operation : Operation}
    (h : (registry.perform parse? operation).2 = false) :
    (registry.perform parse? operation).1 = registry := by
  cases operation with
  | activate name =>
    rw [perform, activate] at h ⊢
    split at h
    · cases h
    · next hnone => rw [if_neg hnone]
  | loadFile files path =>
    rw [perform_loadFile_fst, (perform_loadFile_snd files path).mp h]
    rfl
  | add => cases h
  | addBuiltIn => cases h
  | loadFolder => cases h

theorem get?_perform {operation : Operation} {name : String}
    (h : ∀ listing ∈ operation.listings parse?, listing.name ≠ name) :
    ((holding loaded active).perform parse? operation).1.get? name =
      (holding loaded active).get? name := by
  have hnone : Listing.lastNamed? (operation.listings parse?) name = none := by
    rw [← Option.not_isSome_iff_eq_none, Listing.isSome_lastNamed?]
    rintro ⟨listing, hlisting, hname⟩
    exact h listing hlisting hname
  rw [Listing.lastNamed?, List.getLast?_eq_none_iff] at hnone
  rw [perform_holding, get?_holding, get?_holding, Listing.lastNamed?, List.filter_append, hnone,
    List.append_nil, ← Listing.lastNamed?]

theorem references_holding : (holding loaded active).references =
    Table.ofList (loaded.map fun listing => (listing.name, .ofListing listing)) := by
  rw [holding, addListings_eq, Table.ofList, List.foldl_map]

theorem mem_references_holding {entry : String × Reference}
    (h : entry ∈ (holding loaded active).references) :
    ∃ listing ∈ loaded, entry = (listing.name, .ofListing listing) := by
  rw [references_holding] at h
  obtain ⟨listing, hlisting, he⟩ := List.mem_map.mp (Table.mem_ofList h)
  exact ⟨listing, hlisting, he.symm⟩

theorem perform_activate_snd (name : String) :
    ((holding loaded active).perform parse? (.activate name)).2 = false ↔
      ∀ listing ∈ loaded, listing.name ≠ name := by
  rw [perform, activate]
  simp only [contains_holding]
  split
  · next h => simpa using h
  · next h => simpa using h

theorem activeName_perform {operation : Operation} (h : ∀ name, operation ≠ .activate name) :
    ((holding loaded active).perform parse? operation).1.activeName = active := by
  rw [perform_holding]
  cases operation with
  | activate name => exact absurd rfl (h name)
  | _ => rfl

theorem mem_activations {operations : List Operation} {name : String}
    (h : name ∈ activations parse? loaded operations) :
    ∃ listing ∈ loaded ++ operations.flatMap (Operation.listings parse?),
      listing.name = name := by
  induction operations generalizing loaded with
  | nil => exact absurd h List.not_mem_nil
  | cons operation operations ih =>
    rw [List.flatMap_cons, ← List.append_assoc]
    rcases List.mem_append.mp h with h | h
    · cases operation with
      | activate name' =>
        rw [Operation.activated?] at h
        split at h
        · next hloaded =>
          obtain ⟨listing, hlisting, hname⟩ := hloaded
          obtain rfl : name = name' := by simpa using h
          exact ⟨listing, List.mem_append_left _ (List.mem_append_left _ hlisting), hname⟩
        · exact absurd h List.not_mem_nil
      | _ => exact absurd h List.not_mem_nil
    · exact ih h

theorem activations_append (a b : List Operation) : activations parse? loaded (a ++ b) =
    activations parse? loaded a ++
      activations parse? (loaded ++ a.flatMap (Operation.listings parse?)) b := by
  induction a generalizing loaded with
  | nil => rw [List.flatMap_nil, List.append_nil]; rfl
  | cons operation a ih =>
    rw [List.cons_append, activations, activations, ih, List.flatMap_cons, List.append_assoc,
      List.append_assoc]

/-- What is active is the last listing that was loaded under the last activated name. -/
theorem active?_run {operations : List Operation} {name : String}
    (h : (activations parse? [] operations).getLast? = some name) :
    ∃ listing, Listing.lastNamed? (operations.flatMap (Operation.listings parse?)) name =
        some listing ∧
      (run parse? operations).active? = some (.ofListing listing) := by
  have hloaded := mem_activations (List.mem_of_getLast? h)
  rw [List.nil_append, ← Listing.isSome_lastNamed?, Option.isSome_iff_exists] at hloaded
  obtain ⟨listing, hlisting⟩ := hloaded
  refine ⟨listing, hlisting, ?_⟩
  rw [run_eq, h, active?]
  show (holding _ _).get? name = _
  rw [get?_holding, hlisting, Option.map_some]

/-- Once a name was activated, a reference is active whatever follows. -/
theorem active?_ne_none {before after : List Operation} {name : String}
    (h : ((run parse? before).perform parse? (.activate name)).2 = true) :
    (run parse? (before ++ .activate name :: after)).active? ≠ none := by
  have hname : name ∈ activations parse? [] (before ++ .activate name :: after) := by
    rw [run_eq, ← Bool.not_eq_false, perform_activate_snd] at h
    have hloaded : ∃ listing ∈ before.flatMap (Operation.listings parse?),
        listing.name = name := by
      by_contra hnone
      exact h fun listing hlisting he => hnone ⟨listing, hlisting, he⟩
    rw [activations_append, activations, Operation.activated?, List.nil_append, if_pos hloaded]
    simp
  obtain ⟨last, hlast⟩ := Option.ne_none_iff_exists'.mp
    (mt List.getLast?_eq_none_iff.mp (List.ne_nil_of_mem hname))
  obtain ⟨listing, -, hactive⟩ := active?_run hlast
  rw [hactive]
  exact Option.some_ne_none _

/-- After any operations a registry is the history of them. Every name is bound to the last listing
loaded under it, and every code stands under its canonical name. Once a name was activated a
reference is active, namely that of the name activated last. Operations that fail change nothing,
and operations on other names leave the active name and all look-ups under a name as they are. -/
theorem run_by_history (parse? : String → Option Listing) (operations : List Operation) :
    let registry := run parse? operations
    let loaded := operations.flatMap (Operation.listings parse?)
    (∀ name, registry.get? name = (Listing.lastNamed? loaded name).map .ofListing) ∧
    (∀ entry ∈ registry.references, entry.2.name = entry.1 ∧
      ∀ code ∈ entry.2.codes,
        Code.ofName code.1 = code.1 ∧ code.1 = Code.ofName code.2.name) ∧
    registry.activeName = (activations parse? [] operations).getLast? ∧
    (∀ name ∈ (activations parse? [] operations).getLast?, ∃ listing,
      Listing.lastNamed? loaded name = some listing ∧
        registry.active? = some (.ofListing listing)) ∧
    (∀ before name after, operations = before ++ .activate name :: after →
      ((run parse? before).perform parse? (.activate name)).2 = true →
        registry.active? ≠ none) ∧
    (∀ name, (registry.perform parse? (.activate name)).2 = false ↔
      ∀ listing ∈ loaded, listing.name ≠ name) ∧
    (∀ files path, (registry.perform parse? (.loadFile files path)).2 = false ↔
      files.listing? parse? path = none) ∧
    (∀ operation, (registry.perform parse? operation).2 = false →
      (registry.perform parse? operation).1 = registry) ∧
    ∀ operation, (∀ name, operation ≠ .activate name) →
      (registry.perform parse? operation).1.activeName = registry.activeName ∧
      ∀ name, (∀ listing ∈ operation.listings parse?, listing.name ≠ name) →
        (registry.perform parse? operation).1.get? name = registry.get? name ∧
        ∀ code, (registry.perform parse? operation).1.lookupFrom name code =
          registry.lookupFrom name code := by
  intro registry loaded
  have hregistry : registry = holding loaded (activations parse? [] operations).getLast? :=
    run_eq operations
  rw [hregistry]
  refine ⟨get?_holding, fun entry hentry => ?_, rfl, fun name hname => ?_,
    fun before name after hsplit hname => ?_, perform_activate_snd, perform_loadFile_snd,
    fun operation => perform_of_failed, fun operation hoperation =>
    ⟨activeName_perform hoperation, fun name hname => ?_⟩⟩
  · obtain ⟨listing, -, rfl⟩ := mem_references_holding hentry
    refine ⟨rfl, fun code hcode => ?_⟩
    have hkey := Reference.key_of_mem_codes hcode
    exact ⟨by rw [hkey, Code.ofName_ofName], hkey⟩
  · rw [← hregistry]
    exact active?_run hname
  · rw [← hregistry]
    show (run parse? operations).active? ≠ none
    rw [hsplit]
    exact active?_ne_none hname
  · have hget := @get?_perform parse? loaded (activations parse? [] operations).getLast?
      operation name hname
    exact ⟨hget, fun code => by rw [lookupFrom, lookupFrom, hget]⟩

end Registry
end Gcode

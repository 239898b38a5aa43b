import Gcode.FileSystem
import Gcode.Reference.BuiltIn
import Gcode.Reference.Modeline

/-! The references that are loaded, one of which may be active. How the text of a reference file
is parsed is left open. -/
namespace Gcode

inductive LoadError where
  | unreadable (cause : FileError)
  | malformed
deriving DecidableEq, Repr

def LoadError.message (path : String) : LoadError → String
  | unreadable _ => "reading reference file " ++ path
  | malformed => "parsing reference file " ++ path

structure Registry where
  references : Table String Reference := []
  activeName : Option String := none
deriving DecidableEq, Repr

namespace Registry

def suffix : String := ".gcode-ref.toml"

def isReferenceFile (name : FileName) : Bool := suffix.toList.isSuffixOf name.text.toList

def get? (registry : Registry) (name : String) : Option Reference := registry.references.get? name

def contains (registry : Registry) (name : String) : Bool := (registry.get? name).isSome

def add (registry : Registry) (reference : Reference) : Registry :=
  { registry with references := registry.references.put reference.name reference }

def activate (registry : Registry) (name : String) : Registry × Bool :=
  if registry.contains name then ({ registry with activeName := some name }, true)
  else (registry, false)

def active? (registry : Registry) : Option Reference := registry.activeName.bind registry.get?

def names (registry : Registry) : List String :=
  (registry.references.map (·.1)).mergeSort fun a b => a ≤ b

def lookupFrom (registry : Registry) (name code : String) : Option CodeHelp :=
  (registry.get? name).bind (·.lookup code)

def lookup (registry : Registry) (code : String) : Option CodeHelp :=
  registry.activeName.bind (registry.lookupFrom · code)

/-- The first loaded reference that a modeline of the text names. -/
def chosenBy (registry : Registry) (text : String) : Option String :=
  (Modeline.names text).find? registry.contains

section Loading
variable (parse? : String → Option Listing)

def addBuiltIn (registry : Registry) : Registry :=
  match parse? Reference.builtInText with
  | some listing => registry.add (.ofListing listing)
  | none => registry

def readFile (files : FileSystem) (path : String) : Except LoadError Reference :=
  match files.readText path with
  | .error cause => .error (.unreadable cause)
  | .ok text =>
    match parse? text with
    | none => .error .malformed
    | some listing => .ok (.ofListing listing)

def load (registry : Registry) (files : FileSystem) (path : String) :
    Registry × Except LoadError String :=
  match readFile parse? files path with
  | .ok reference => (registry.add reference, .ok reference.name)
  | .error e => (registry, .error e)

def loadAll (registry : Registry) (files : FileSystem) : List String → Registry × List String
  | [] => (registry, [])
  | path :: paths =>
    match registry.load parse? files path with
    | (registry, .ok name) =>
      let (registry, names) := registry.loadAll files paths
      (registry, name :: names)
    | (registry, .error _) => registry.loadAll files paths

def loadFolder (registry : Registry) (files : FileSystem) (folder : String) :
    Registry × List String :=
  registry.loadAll parse? files
    (((files.names folder).filter isReferenceFile).map (FileSystem.entryPath folder))

/-- The registry of a session: the reference that comes with the program, those of the folders
in turn, and the wanted one active. If that is not loaded, the built-in name is active. -/
def ofFolders (files : FileSystem) (folders : List String) (wanted : String) : Registry :=
  let registry := folders.foldl (fun registry folder => (registry.loadFolder parse? files folder).1)
    (addBuiltIn parse? {})
  match registry.activate wanted with
  | (registry, true) => registry
  | (registry, false) => (registry.activate Reference.builtInName).1

end Loading

end Registry
end Gcode

import Gcode.Reference
import Gcode.Toml.Document

/-! Reading a reference from a TOML file. -/
namespace Gcode
open Toml

/-- The named fields of a record: the entries of a table, or the items of an array in this order,
which holds all of those needed and is read no further than the names go. The other entries of a
table have no meaning, but their numbers have to be in range. -/
def Toml.Value.fields? (names : List String) (needed : Nat) : Value → Option (List (Option Value))
  | .table _ es =>
    if es.all fun (name, value) => names.contains name || value.inRange then
      some (names.map (Table.get? es))
    else none
  | .array _ items =>
    if items.length < needed then none
    else some ((List.range names.length).map (items[·]?))
  | _ => none

def Toml.Value.text? : Value → Option String
  | .string text => some text
  | _ => none

def Toml.optionalText? : Option Value → Option (Option String)
  | none => some none
  | some value => value.text?.map some

def Toml.Value.items? {α : Type} (read? : Value → Option α) : Value → Option (List α)
  | .array _ items => items.mapM read?
  | _ => none

def Parameter.ofToml? (value : Value) : Option Parameter := do
  let [some letter, some description] ← value.fields? ["letter", "description"] 2 | none
  some ⟨← letter.text?, ← description.text?⟩

def CodeHelp.ofToml? (value : Value) : Option CodeHelp := do
  let [some name, summary, details, parameters] ←
    value.fields? ["name", "summary", "details", "parameters"] 3 | none
  some {
    name := ← name.text?
    summary := ← optionalText? summary
    details := ← optionalText? details
    parameters := ← parameters.elim (some []) (Value.items? Parameter.ofToml?) }

namespace Listing

def ofToml? (root : Entries) : Option Listing := do
  let [some reference, codes] ← (Value.table .header root).fields? ["reference", "codes"] 2 | none
  let [some name, version, description] ←
    reference.fields? ["name", "version", "description"] 3 | none
  some {
    name := ← name.text?
    version := ← optionalText? version
    description := ← optionalText? description
    codes := ← codes.elim (some []) (Value.items? CodeHelp.ofToml?) }

def read? (text : String) : Option Listing := (Toml.read? text).bind ofToml?

end Listing
end Gcode

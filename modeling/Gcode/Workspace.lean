import Gcode.Block
import Gcode.Settings
import Gcode.Hover
import Gcode.Reference.Registry
import Gcode.Figures
import Gcode.Symbol

/-! The documents that an editor has open, and what can be asked about them. -/
namespace Gcode

structure Document where
  text : String
  reference : Option String
deriving DecidableEq, Repr

namespace Document

def line? (document : Document) (index : Nat) : Option String :=
  ((Line.ofText document.text).find? (·.index = index)).map (·.text)

end Document

structure Hover where
  markdown : String
  span : Span
deriving DecidableEq, Repr

inductive Notice (Address : Type) where
  | opened (address : Address) (text : String)
  | changed (address : Address) (texts : List String)
  | closed (address : Address)
deriving DecidableEq, Repr

inductive Query where
  | hover (place : Place)
  | symbols
  | figures
  | units
deriving DecidableEq, Repr

inductive Answer where
  | hover (found : Hover)
  | symbols (found : List DocumentSymbol)
  | figures (found : Figures)
  | units (found : LengthUnit)
deriving DecidableEq, Repr

structure Workspace (Address : Type) where
  registry : Registry
  settings : Settings
  documents : Table Address Document := []
deriving DecidableEq, Repr

namespace Workspace
variable {Address : Type}

def hover? (workspace : Workspace Address) (document : Document) (place : Place) :
    Option Hover := do
  let line ← document.line? place.line
  let found ← codeUnder? line.toList place.character
  let code := String.ofList found.text
  let help ← match document.reference with
    | some name => workspace.registry.lookupFrom name code
    | none => workspace.registry.lookup code
  some ⟨help.markdown, ⟨⟨place.line, found.start⟩, ⟨place.line, found.stop⟩⟩⟩

def answerFor? (workspace : Workspace Address) (document : Document) : Query → Option Answer
  | .hover place => (workspace.hover? document place).map .hover
  | .symbols => some (.symbols (DocumentSymbol.ofText document.text))
  | .figures =>
    if workspace.settings.withStats then
      some (.figures (Figures.ofText document.text workspace.settings.units))
    else none
  | .units => some (.units (workspace.settings.units.unitOf document.text))

variable [DecidableEq Address]

def store (workspace : Workspace Address) (address : Address) (text : String) :
    Workspace Address :=
  { workspace with
    documents := workspace.documents.put address ⟨text, workspace.registry.chosenBy text⟩ }

/-- Takes notice. Of several changes the last one holds the text. -/
def notice (workspace : Workspace Address) : Notice Address → Workspace Address
  | .opened address text => workspace.store address text
  | .changed address texts =>
    match texts.getLast? with
    | some text => workspace.store address text
    | none => workspace
  | .closed address => { workspace with documents := workspace.documents.erase address }

def answer? (workspace : Workspace Address) (address : Address) (query : Query) :
    Option Answer :=
  (workspace.documents.get? address).bind (workspace.answerFor? · query)

end Workspace
end Gcode

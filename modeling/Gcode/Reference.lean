import Gcode.Code
import Gcode.Table

/-! Code references: dictionaries that explain codes in hover help. -/
namespace Gcode

structure Parameter where
  letter : String
  description : String
deriving DecidableEq, Repr

structure CodeHelp where
  name : String
  summary : Option String := none
  details : Option String := none
  parameters : List Parameter := []
deriving DecidableEq, Repr

namespace CodeHelp

/-- The explanation as Markdown. The summary stands beside the name when there are details, and
in their place when there are none. -/
def markdown (help : CodeHelp) : String :=
  let title := "**" ++ help.name ++ "**"
  let text := match help.summary, help.details with
    | some summary, some details => title ++ " - " ++ summary ++ "\n\n" ++ details
    | none, some details => title ++ "\n\n" ++ details
    | some summary, none => title ++ "\n\n" ++ summary
    | none, none => title ++ "\n\n" ++ "No description"
  if help.parameters.isEmpty then text
  else text ++ "\n\n**Parameters:**" ++
    String.join (help.parameters.map fun p => "\n- `" ++ p.letter ++ "`: " ++ p.description)

end CodeHelp

structure Listing where
  name : String
  version : Option String := none
  description : Option String := none
  codes : List CodeHelp := []
deriving DecidableEq, Repr

structure Reference where
  name : String
  version : Option String
  description : Option String
  codes : Table String CodeHelp
deriving DecidableEq, Repr

namespace Reference

def ofListing (listing : Listing) : Reference :=
  ⟨listing.name, listing.version, listing.description,
    Table.ofList (listing.codes.map fun help => (Code.ofName help.name, help))⟩

def lookup (reference : Reference) (code : String) : Option CodeHelp :=
  reference.codes.get? (Code.ofName code)

end Reference
end Gcode

import Gcode.Arguments
import Gcode.Outline
import Gcode.Figures

/-! The report that the command line prints on a program: its outline and its figures. -/
namespace Gcode.Report

def synopsis : Synopsis where
  options := commonOptions ++ [("no-outline", .flag)]
  positional := some "file"

structure Request where
  file : String
  units : UnitPreference
  withOutline : Bool
deriving DecidableEq, Repr

def Request.ofArguments (arguments : List String) : Except UsageError Request := do
  let given ← readArguments synopsis arguments
  .ok ⟨(given.get? "file").getD "", unitPreference given, (given.get? "no-outline").isNone⟩

def padLeft (width : Nat) (text : String) : String :=
  String.ofList (List.replicate (width - text.length) ' ') ++ text

def padRight (width : Nat) (text : String) : String :=
  text ++ String.ofList (List.replicate (width - text.length) ' ')

def entryLine (e : Entry) : String :=
  padLeft 6 (e.line + 1).repr ++ "  " ++ padRight 28 e.label ++ " " ++ e.tooltip

def figureLines (text : String) (units : UnitPreference) : List String :=
  ["Tool changes:      " ++ (ToolChange.count text).repr,
    "Estimated runtime: " ++ Clock.render (CycleTime.ofText text),
    "Units:             " ++ (units.unitOf text).name]

def lines (text : String) (request : Request) : List String :=
  (if request.withOutline then (outline text).map entryLine ++ [""] else []) ++
    figureLines text request.units

structure Outcome where
  code : Nat
  output : String := ""
  errors : String := ""
deriving DecidableEq, Repr

def unlines (ls : List String) : String := String.join (ls.map (· ++ "\n"))

def Outcome.ofFile (request : Request) : Except String String → Outcome
  | .ok text => ⟨0, unlines (lines text request), ""⟩
  | .error cause =>
    ⟨1, "", "Error: reading " ++ request.file ++ "\n\nCaused by:\n    " ++ cause ++ "\n"⟩

def Outcome.ofUsage : UsageError → Outcome
  | .help => ⟨0, unlines usage, ""⟩
  | .version => ⟨0, "gcode-stats 0.1.0\n", ""⟩
  | _ => ⟨2, "", unlines usage⟩
where
  usage : List String := [
    "Usage: gcode-stats [OPTIONS] <FILE>", "",
    "      --units <UNITS>  [default: default] [possible values: inch, metric, default]",
    "      --no-outline     Skip the block outline",
    "  -h, --help           Print help",
    "  -V, --version        Print version"]

end Gcode.Report

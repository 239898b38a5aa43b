import Gcode.Settings

/-! Command-line arguments: options, their values, and what is wrong with a command line. -/
namespace Gcode

inductive UsageError where
  | help | version
  | invalidValue | unknownArgument | argumentConflict | tooManyValues | missingArgument
deriving DecidableEq, Repr

inductive OptionKind where
  | help | version
  | flag
  | value (accepts : String → Bool)

structure Synopsis where
  options : List (String × OptionKind)
  positional : Option String := none

structure ArgumentState where
  given : Table String String := []
  pending : Option (String × Option String) := none
  awaiting : Bool := false
  onlyPositional : Bool := false

namespace ArgumentState

def record (s : ArgumentState) (name value : String) (accepts : String → Bool) :
    Except UsageError ArgumentState :=
  if (s.given.get? name).isSome then .error .argumentConflict
  else if accepts value then .ok { s with given := s.given.put name value }
  else .error .invalidValue

def accepts (synopsis : Synopsis) (name : String) : String → Bool :=
  match synopsis.options.lookup name with
  | some (.value accepts) => accepts
  | _ => (· ≠ "")

def settle (synopsis : Synopsis) (s : ArgumentState) : Except UsageError ArgumentState :=
  match s.pending with
  | none => .ok s
  | some (_, none) => .error .invalidValue
  | some (name, some value) => { s with pending := none }.record name value (accepts synopsis name)

def takeOption (synopsis : Synopsis) (s : ArgumentState) (name : String)
    (attached : Option String) : Except UsageError ArgumentState :=
  let s := { s with awaiting := false }
  match synopsis.options.lookup name, attached with
  | none, _ => .error .unknownArgument
  | some (.value accepts), some value => do (← s.settle synopsis).record name value accepts
  | some (.value _), none => do
    .ok { ← s.settle synopsis with pending := some (name, none), awaiting := true }
  | some _, some _ => .error .tooManyValues
  | some .help, none => do
    let _ ← s.settle synopsis
    .error .help
  | some .version, none => do
    let _ ← s.settle synopsis
    .error .version
  | some .flag, none => do (← s.settle synopsis).record name "" fun _ => true

def takePositional (synopsis : Synopsis) (s : ArgumentState) (argument : String) :
    Except UsageError ArgumentState :=
  match synopsis.positional with
  | none => .error .unknownArgument
  | some name =>
    if (s.given.get? name).isSome ∨ s.pending.map (·.1) = some name then .error .unknownArgument
    else do
      let s ← s.settle synopsis
      .ok { s with pending := some (name, some argument), awaiting := false }

/-- Takes the next argument. What begins with a minus is an option, a minus alone is not, and
after two minuses nothing is. -/
def take (synopsis : Synopsis) (s : ArgumentState) (argument : String) :
    Except UsageError ArgumentState :=
  if s.onlyPositional then s.takePositional synopsis argument
  else match argument.toList with
    | ['-', '-'] => .ok { s with onlyPositional := true }
    | '-' :: '-' :: cs =>
      let name := String.ofList (cs.takeWhile (· != '='))
      match cs.dropWhile (· != '=') with
      | [] => s.takeOption synopsis name none
      | _ :: value => s.takeOption synopsis name (some (String.ofList value))
    | '-' :: 'h' :: _ => s.takeOption synopsis "help" none
    | '-' :: 'V' :: _ => s.takeOption synopsis "version" none
    | '-' :: _ :: _ => .error .unknownArgument
    | _ =>
      match s.awaiting, s.pending with
      | true, some (name, none) =>
        .ok { s with pending := some (name, some argument), awaiting := false }
      | _, _ => s.takePositional synopsis argument

end ArgumentState

def readArguments (synopsis : Synopsis) (arguments : List String) :
    Except UsageError (Table String String) := do
  let s ← arguments.foldlM (ArgumentState.take synopsis) {}
  let s ← s.settle synopsis
  match synopsis.positional with
  | none => .ok s.given
  | some name => if (s.given.get? name).isSome then .ok s.given else .error .missingArgument

def UnitPreference.ofOption? : String → Option UnitPreference
  | "default" => some none
  | "inch" => some (some .inch)
  | "metric" => some (some .metric)
  | _ => none

def commonOptions : List (String × OptionKind) :=
  [("help", .help), ("version", .version),
    ("units", .value fun value => (UnitPreference.ofOption? value).isSome)]

def unitPreference (given : Table String String) : UnitPreference :=
  ((given.get? "units").bind UnitPreference.ofOption?).getD none

namespace Settings

def synopsis : Synopsis where
  options := commonOptions ++
    [("reference", .value fun _ => true), ("reference-dir", .value (· ≠ "")),
      ("no-stats", .flag), ("log-level", .value fun _ => true)]

def userReferences (userFolder : String) : String := userFolder ++ "/gcode-insight/references"

/-- The settings that a command line makes. The folder it names is searched before the user's. -/
def ofArguments (userFolder : Option String) (arguments : List String) :
    Except UsageError Settings := do
  let given ← readArguments synopsis arguments
  .ok {
    reference := given.get? "reference"
    folders := (given.get? "reference-dir").toList ++ (userFolder.map userReferences).toList
    units := unitPreference given
    withStats := (given.get? "no-stats").isNone
    logLevel := (given.get? "log-level").getD "info" }

end Settings
end Gcode

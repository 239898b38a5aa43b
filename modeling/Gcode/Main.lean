import Gcode.FileSystem
import Gcode.Report

/-! The command line: reads a program from a file and prints the report on it. -/
namespace Gcode

def failureCause : IO.Error → String
  | .noFileOrDirectory _ _ _ => FileError.notFound.message
  | .inappropriateType (some _) _ _ => FileError.notFolder.message
  | .inappropriateType none _ _ => FileError.isFolder.message
  | .invalidArgument _ _ "name too long" => FileError.nameTooLong.message
  | .permissionDenied _ _ _ => "Permission denied (os error 13)"
  | error => error.toString

def readProgram (path : String) : IO (Except String String) := do
  try
    let bytes ← IO.FS.readBinFile path
    match String.fromUTF8? bytes with
    | some text => return .ok text
    | none => return .error FileError.notText.message
  catch error => return .error (failureCause error)

def runReport (arguments : List String) : IO Report.Outcome := do
  match Report.Request.ofArguments arguments with
  | .error usage => return .ofUsage usage
  | .ok request => return .ofFile request (← readProgram request.file)

end Gcode

def main (arguments : List String) : IO UInt32 := do
  let outcome ← Gcode.runReport arguments
  IO.print outcome.output
  IO.eprint outcome.errors
  return outcome.code.toUInt32

import Gcode.Table

/-! Files and folders as a value, the way that a path leads through them, and reading a text. -/
namespace Gcode

inductive FileError where
  | notFound | notFolder | isFolder | nameTooLong | badName | notText
deriving DecidableEq, Repr

def FileError.message : FileError → String
  | notFound => "No such file or directory (os error 2)"
  | notFolder => "Not a directory (os error 20)"
  | isFolder => "Is a directory (os error 21)"
  | nameTooLong => "File name too long (os error 36)"
  | badName => "file name contained an unexpected NUL byte"
  | notText => "stream did not contain valid UTF-8"

def IsFileName (text : String) : Prop :=
  text ≠ "" ∧ text ≠ "." ∧ text ≠ ".." ∧ text.utf8ByteSize ≤ 255 ∧
    '/' ∉ text.toList ∧ '\x00' ∉ text.toList

instance : DecidablePred IsFileName := fun _ => inferInstanceAs (Decidable (_ ∧ _))

structure FileName where
  text : String
  proper : IsFileName text
deriving DecidableEq

def FileName.ofText? (text : String) : Option FileName :=
  if h : IsFileName text then some ⟨text, h⟩ else none

/-- A file, or a folder with its entries. Of entries with one name the first counts. -/
inductive FileTree where
  | file (bytes : ByteArray)
  | folder (entries : List (FileName × FileTree))

/-- Where a path has led so far, and the folders passed on the way, from the last to the first. -/
abbrev Way := FileTree × List FileTree

def Way.up (entries : List (FileName × FileTree)) : (passed : List FileTree) → Way
  | [] => (.folder entries, [])
  | parent :: passed => (parent, passed)

/-- Follows one part of a path. An empty part and a point stay in a folder. -/
def Way.step : Way → String → Except FileError Way
  | (.file _, _), _ => .error .notFolder
  | (.folder entries, passed), part =>
    if part = "" ∨ part = "." then .ok (.folder entries, passed)
    else if part = ".." then .ok (up entries passed)
    else if part.utf8ByteSize > 255 then .error .nameTooLong
    else match (FileName.ofText? part).bind (Table.get? entries) with
      | none => .error .notFound
      | some tree => .ok (tree, .folder entries :: passed)

/-- The root of all folders, and the way from there to the one in which relative paths start. -/
structure FileSystem where
  root : FileTree
  current : List FileName := []

namespace FileSystem

def maxPath : Nat := 4095

def parts (files : FileSystem) (path : String) : List String :=
  let parts := (path.toList.splitOn '/').map String.ofList
  if path.toList.head? = some '/' then parts else files.current.map (·.text) ++ parts

def find (files : FileSystem) (path : String) : Except FileError FileTree :=
  if '\x00' ∈ path.toList then .error .badName
  else if path.utf8ByteSize > maxPath then .error .nameTooLong
  else if path = "" then .error .notFound
  else ((files.parts path).foldlM Way.step (files.root, [])).map (·.1)

def entryPath (folder : String) (name : FileName) : String :=
  match folder.toList.getLast? with
  | none | some '/' => folder ++ name.text
  | _ => folder ++ "/" ++ name.text

def readText (files : FileSystem) (path : String) : Except FileError String := do
  match ← files.find path with
  | .folder _ => .error .isFolder
  | .file bytes =>
    match String.fromUTF8? bytes with
    | some text => .ok text
    | none => .error .notText

/-- The names in the folder at a path, in the order of their characters. What is no folder holds
no names. -/
def names (files : FileSystem) (path : String) : List FileName :=
  match files.find path with
  | .ok (.folder entries) =>
    (entries.map (·.1)).eraseDups.mergeSort fun a b => a.text ≤ b.text
  | _ => []

end FileSystem
end Gcode

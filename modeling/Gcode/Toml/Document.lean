import Gcode.Toml.Scalar

/-! Reading a whole TOML document. -/
namespace Gcode.Toml

def isBareKeyChar (c : Char) : Bool := c.isAlphanum || c == '_' || c == '-'

def keyPart? : Reader String
  | '"' :: cs => do
    let (text, rest) ← basicBody 0 cs
    some (String.ofList text, rest)
  | '\'' :: cs => do
    let (text, rest) ← literalBody cs
    some (String.ofList text, rest)
  | cs =>
    match cs.takeWhile isBareKeyChar with
    | [] => none
    | key => some (String.ofList key, cs.dropWhile isBareKeyChar)

def maxDepth : Nat := 80

def parts? : (most : Nat) → Reader (List String × String)
  | 0, _ => none
  | most + 1, cs => do
    let (part, rest) ← keyPart? cs
    match skipSpaces rest with
    | '.' :: rest => do
      let ((parents, key), rest) ← parts? most (skipSpaces rest)
      some ((part :: parents, key), rest)
    | rest => some (([], part), rest)

def key? : Reader (List String × String) := parts? maxDepth

def items? (value? : Reader Value) : (fuel : Nat) → Reader (List Value)
  | 0, _ => none
  | fuel + 1, cs => do
    match ← skipFiller false cs with
    | ']' :: rest => some ([], rest)
    | cs =>
      let (value, rest) ← value? cs
      match ← skipFiller false rest with
      | ',' :: rest =>
        let (values, rest) ← items? value? fuel rest
        some (value :: values, rest)
      | ']' :: rest => some ([value], rest)
      | _ => none

def fields? (value? : Reader Value) : (fuel : Nat) → Entries → Reader Entries
  | 0, _, _ => none
  | fuel + 1, es, cs => do
    match ← skipFiller false cs with
    | '}' :: rest => some (es, rest)
    | cs =>
      let ((parents, key), rest) ← key? cs
      let '=' :: rest ← skipFiller false rest | none
      let (value, rest) ← value? (← skipFiller false rest)
      let es ← es.assign .header parents key value
      match ← skipFiller false rest with
      | ',' :: rest => fields? value? fuel es rest
      | '}' :: rest => some (es, rest)
      | _ => none

def value? : (depth : Nat) → Reader Value
  | depth, '[' :: cs =>
    match depth with
    | 0 => none
    | depth + 1 => do
      let (items, rest) ← items? (value? depth) (cs.length + 1) cs
      some (.array false items, rest)
  | depth, '\x7b' :: cs =>
    match depth with
    | 0 => none
    | depth + 1 => do
      let (es, rest) ← fields? (value? depth) (cs.length + 1) [] cs
      some (.table .braces es, rest)
  | _, '"' :: cs => (string? ('"' :: cs)).map fun (text, rest) => (.string text, rest)
  | _, '\'' :: cs => (string? ('\'' :: cs)).map fun (text, rest) => (.string text, rest)
  | _, cs => scalar? cs

structure Draft where
  header : List String := []
  root : Entries := []

namespace Draft

def openHeader (draft : Draft) (cs : List Char) : Option (Draft × List Char) :=
  match cs with
  | '[' :: cs => do
    let ((parents, key), rest) ← key? (skipSpaces cs)
    let ']' :: ']' :: rest := rest | none
    let root ← draft.root.appendTable parents key
    some (⟨parents ++ [key], root⟩, ← endLine false rest)
  | cs => do
    let ((parents, key), rest) ← key? (skipSpaces cs)
    let ']' :: rest := rest | none
    let root ← draft.root.openTable parents key
    some (⟨parents ++ [key], root⟩, ← endLine false rest)

def bind (draft : Draft) (cs : List Char) : Option (Draft × List Char) := do
  let ((parents, key), rest) ← key? cs
  let '=' :: rest := rest | none
  let (value, rest) ← value? maxDepth (skipSpaces rest)
  let root ← draft.root.atHeader (Entries.assign .header parents key value) draft.header
  some ({ draft with root := root }, ← endLine false rest)

def read : (fuel : Nat) → Draft → List Char → Option Draft
  | 0, _, _ => none
  | fuel + 1, draft, cs => do
    match ← skipFiller false cs with
    | [] => some draft
    | '[' :: cs =>
      let (draft, rest) ← draft.openHeader cs
      read fuel draft rest
    | cs =>
      let (draft, rest) ← draft.bind cs
      read fuel draft rest

end Draft

def read? (text : String) : Option Entries :=
  let cs := match text.toList with
    | '\uFEFF' :: cs => cs
    | cs => cs
  (Draft.read (cs.length + 1) {} cs).map (·.root)

end Gcode.Toml

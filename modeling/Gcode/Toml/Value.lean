import Gcode.Table

/-! Values of a TOML document. Tables and arrays remember how they came about, because that
decides what later lines may add to them. -/
namespace Gcode.Toml

/-- How a table came about: by a header of its own, as a parent in another header, as a parent
in a dotted key, or in braces. The root table counts as one with a header. -/
inductive Origin where
  | header | implied | dotted | braces
deriving DecidableEq, Repr

/-- A value. A number out of range is well formed, but it has no value of its own. An array is
growing when `[[…]]` headers made it; then all its items are tables. -/
inductive Value where
  | string (text : String)
  | integer (n : Option Int)
  | float (x : Option Float)
  | boolean (b : Bool)
  | moment (text : String)
  | array (growing : Bool) (items : List Value)
  | table (origin : Origin) (entries : List (String × Value))
deriving Repr

abbrev Entries := Table String Value

namespace Value

mutual

def inRange : Value → Bool
  | integer n => n.isSome
  | float x => x.isSome
  | array _ items => itemsInRange items
  | table _ entries => entriesInRange entries
  | _ => true

def itemsInRange : List Value → Bool
  | [] => true
  | value :: rest => value.inRange && itemsInRange rest

def entriesInRange : List (String × Value) → Bool
  | [] => true
  | (_, value) :: rest => value.inRange && entriesInRange rest

end

end Value

namespace Entries

/-- Changes the table that the parents of a key lead to, making those that are missing. Inside
a growing array the way leads through the last table. A dotted key makes the tables on its way
its own if so far they were only parents in headers. -/
def within (dotted : Bool) (change : Origin → Entries → Option Entries) :
    List String → Origin → Entries → Option Entries
  | [], origin, es => change origin es
  | key :: path, _, es =>
    match es.get? key with
    | none =>
      let origin := if dotted then .dotted else .implied
      (within dotted change path origin []).map fun sub => es.put key (.table origin sub)
    | some (.table origin sub) =>
      if origin = .braces ∨ (dotted ∧ origin = .header) then none
      else
        let origin := if dotted then .dotted else origin
        (within dotted change path origin sub).map fun sub => es.put key (.table origin sub)
    | some (.array true items) =>
      match items.getLast? with
      | some (.table origin sub) =>
        (within dotted change path origin sub).map fun sub =>
          es.put key (.array true (items.dropLast ++ [.table origin sub]))
      | _ => none
    | some _ => none

/-- Binds a key in a table. With parents, the last of them has to be a table that dotted keys
made; without, any other table will do. A key is bound once. -/
def assign (origin : Origin) (parents : List String) (key : String) (value : Value)
    (es : Entries) : Option Entries :=
  within true
    (fun o es =>
      if o = .dotted ↔ parents = [] then none
      else if (es.get? key).isSome then none
      else some (es.put key value))
    parents origin es

def openTable (parents : List String) (key : String) (es : Entries) : Option Entries :=
  within false
    (fun _ es =>
      match es.get? key with
      | none => some (es.put key (.table .header []))
      | some (.table .implied sub) => some (es.put key (.table .header sub))
      | some _ => none)
    parents .header es

def appendTable (parents : List String) (key : String) (es : Entries) : Option Entries :=
  within false
    (fun _ es =>
      match es.get? key with
      | none => some (es.put key (.array true [.table .header []]))
      | some (.array true items) => some (es.put key (.array true (items ++ [.table .header []])))
      | some _ => none)
    parents .header es

def atHeader (change : Entries → Option Entries) : List String → Entries → Option Entries
  | [], es => change es
  | path@(_ :: _), es => within false (fun _ es => change es) path .header es

end Entries
end Gcode.Toml

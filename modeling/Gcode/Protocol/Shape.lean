import Gcode.JsonValue

/-! Shapes that the parameters of messages have to have. A record may be sent in two forms: as an
object, or as the list of its fields in order. Reading a value turns every record into an object. -/
namespace Gcode

/-- Whether a field of a record may be left out. A nullable field may be missing from an object,
or null. A spare field may be missing from an object and from the end of a list. -/
inductive Presence where
  | needed | nullable | spare
deriving DecidableEq, Repr

/-- What a JSON value has to look like. A record may have more fields than those named if it is
an object. An open record is always an object, and its other fields have a shape too. A choice is
read in the first shape that fits. A tag says by its name or its index which choice is meant. -/
inductive Shape where
  | any
  | null
  | bool
  | nat32
  | int32
  | number
  | text
  | address
  | oneOf (texts : List String)
  | tag (index : Nat) (name : String)
  | pair (first second : Shape)
  | list (item : Shape)
  | map (key item : Shape)
  | record (fields : List (String × Presence × Shape))
  | openRecord (fields : List (String × Presence × Shape)) (others : Shape)
  | choice (shapes : List Shape)

namespace Shape

abbrev Field := String × Presence × Shape

def need (name : String) (shape : Shape) : Field := (name, .needed, shape)
def may (name : String) (shape : Shape) : Field := (name, .nullable, shape)
def spare (name : String) (shape : Shape) : Field := (name, .spare, shape)

def token : Shape := choice [int32, text]

def only (p : JsonValue → Bool) (value : JsonValue) : Option JsonValue :=
  if p value then some value else none

/-- Puts a field in front of those read from the rest of a record. A nullable field that is null
is left out. -/
def addField (name : String) (presence : Presence) (raw : JsonValue)
    (read : Option JsonValue) (rest : Option (List (String × JsonValue))) :
    Option (List (String × JsonValue)) :=
  match presence, raw with
  | .nullable, .null => rest
  | _, _ => do some ((name, ← read) :: (← rest))

variable (isAddress : String → Bool)

mutual

/-- The value with every record as an object of its fields, if it has the shape. A text from a
set may also be sent as an object with that name and nothing in it. -/
def read? : Shape → JsonValue → Option JsonValue
  | any, value => some value
  | null, .null => some .null
  | bool, .bool b => some (.bool b)
  | nat32, value => value.nat32?.map fun n => .int n
  | int32, value => only JsonValue.isInt32 value
  | number, .int n => some (.int n)
  | number, .float x => some (.float x)
  | text, .string s => some (.string s)
  | address, .string s => if isAddress s then some (.string s) else none
  | oneOf texts, .string s => if texts.contains s then some (.string s) else none
  | oneOf texts, .object [(s, .null)] => if texts.contains s then some (.string s) else none
  | tag index name, value =>
    match value with
    | .string s => if s = name then some value else none
    | .int n => if n = index then some (.string name) else none
    | _ => none
  | pair first second, .array [a, b] => do some (.array [← read? first a, ← read? second b])
  | list item, .array values => (values.mapM (read? item)).map .array
  | map key item, .object values =>
    (values.mapM fun (name, value) => do
      let _ ← read? key (.string name)
      some (name, ← read? item value)).map .object
  | record fields, .object values => (readNamed? fields values).map .object
  | record fields, .array values => (readListed? fields values).map .object
  | openRecord fields others, .object values =>
    if values.all fun (name, value) =>
        fields.any (·.1 == name) || (read? others value).isSome then
      (readNamed? fields values).map .object
    else none
  | choice shapes, value => readFirst? shapes value
  | _, _ => none

def readNamed? : List (String × Presence × Shape) → List (String × JsonValue) →
    Option (List (String × JsonValue))
  | [], _ => some []
  | (name, presence, shape) :: fields, values =>
    match values.lookup name with
    | none => if presence = .needed then none else readNamed? fields values
    | some value => addField name presence value (read? shape value) (readNamed? fields values)

def readListed? : List (String × Presence × Shape) → List JsonValue →
    Option (List (String × JsonValue))
  | [], [] => some []
  | [], _ :: _ => none
  | (_, presence, _) :: fields, [] => if presence = .spare then readListed? fields [] else none
  | (name, presence, shape) :: fields, value :: values =>
    addField name presence value (read? shape value) (readListed? fields values)

def readFirst? : List Shape → JsonValue → Option JsonValue
  | [], _ => none
  | shape :: shapes, value => (read? shape value).or (readFirst? shapes value)

end

end Shape
end Gcode

/-! Values of JSON messages. -/
namespace Gcode

inductive JsonValue where
  | null
  | bool (b : Bool)
  | int (n : Int)
  | float (x : Float)
  | string (text : String)
  | array (items : List JsonValue)
  | object (fields : List (String × JsonValue))
deriving Inhabited, Repr

namespace JsonValue

def field? (name : String) : JsonValue → Option JsonValue
  | object fields => fields.lookup name
  | _ => none

def text? : JsonValue → Option String
  | string text => some text
  | _ => none

def items? : JsonValue → Option (List JsonValue)
  | array items => some items
  | _ => none

def nat32? : JsonValue → Option Nat
  | int (.ofNat n) => if n < 0x100000000 then some n else none
  | _ => none

def isInt32 : JsonValue → Bool
  | int n => -0x80000000 ≤ n && n < 0x80000000
  | _ => false

def ofFloat (x : Float) : JsonValue := if x.isFinite then float x else null

@[simp] theorem field?_object (name : String) (fields : List (String × JsonValue)) :
    (object fields).field? name = fields.lookup name := rfl

@[simp] theorem text?_string (text : String) : (string text).text? = some text := rfl

@[simp] theorem items?_array (items : List JsonValue) : (array items).items? = some items := rfl

theorem nat32?_natCast {n : Nat} (h : n < 0x100000000) : (int n).nat32? = some n := if_pos h

end JsonValue
end Gcode

import Gcode.JsonValue
import Gcode.Symbol

/-! The editor protocol as a server sees it: how the parameters of messages are read. Addresses of
documents are whatever the protocol makes of their texts. -/
namespace Gcode

inductive Unserved where
  | request (accepts : JsonValue → Bool)
  | notification

/-- The readers of parameters, one for each kind of message. They fail where the parameters are not
in order. -/
structure Protocol (Address : Type) where
  opensSession : JsonValue → Bool
  startsSession : JsonValue → Bool
  opened? : JsonValue → Option (Address × String)
  changed? : JsonValue → Option (Address × List String)
  closed? : JsonValue → Option Address
  hover? : JsonValue → Option (Address × Place)
  symbols? : JsonValue → Option Address
  document? : JsonValue → Option Address
  unserved? : String → Option Unserved

end Gcode

import Gcode.Protocol.Standard
import Gcode.Session

/-! What messages say about documents, and how editors write them. -/
namespace Gcode

inductive Exchange (Address : Type) where
  | notice (told : Notice Address)
  | query (address : Address) (asked : Query)

/-- What a message says, by its method and by what the protocol reads from its parameters. -/
inductive Message.Says {Address : Type} (protocol : Protocol Address) :
    Message → Exchange Address → Prop
  | didOpen {params address text} (h : protocol.opened? params = some (address, text)) :
      Says protocol ⟨"textDocument/didOpen", some params, false⟩ (.notice (.opened address text))
  | didChange {params address texts} (h : protocol.changed? params = some (address, texts)) :
      Says protocol ⟨"textDocument/didChange", some params, false⟩
        (.notice (.changed address texts))
  | didClose {params address} (h : protocol.closed? params = some address) :
      Says protocol ⟨"textDocument/didClose", some params, false⟩ (.notice (.closed address))
  | hover {params address place} (h : protocol.hover? params = some (address, place)) :
      Says protocol ⟨"textDocument/hover", some params, true⟩ (.query address (.hover place))
  | documentSymbol {params address} (h : protocol.symbols? params = some address) :
      Says protocol ⟨"textDocument/documentSymbol", some params, true⟩ (.query address .symbols)
  | stats {params address} (h : protocol.document? params = some address) :
      Says protocol ⟨"gcode/stats", some params, true⟩ (.query address .figures)
  | units {params address} (h : protocol.document? params = some address) :
      Says protocol ⟨"gcode/units", some params, true⟩ (.query address .units)

inductive Letter where
  | didOpen (uri language : String) (version : Int) (text : String)
  | didChange (uri : String) (version : Int) (texts : List String)
  | didClose (uri : String)
  | hover (uri : String) (place : Place)
  | documentSymbol (uri : String)
  | stats (uri : String)
  | units (uri : String)

namespace Letter

def method : Letter → String
  | didOpen .. => "textDocument/didOpen"
  | didChange .. => "textDocument/didChange"
  | didClose _ => "textDocument/didClose"
  | hover .. => "textDocument/hover"
  | documentSymbol _ => "textDocument/documentSymbol"
  | stats _ => "gcode/stats"
  | units _ => "gcode/units"

def isRequest : Letter → Bool
  | didOpen .. | didChange .. | didClose _ => false
  | hover .. | documentSymbol _ | stats _ | units _ => true

def uri : Letter → String
  | didOpen uri _ _ _ | didChange uri _ _ | didClose uri => uri
  | hover uri _ | documentSymbol uri | stats uri | units uri => uri

def params : Letter → JsonValue
  | didOpen uri language version text =>
    .object [("textDocument", .object [("uri", .string uri), ("languageId", .string language),
      ("version", .int version), ("text", .string text)])]
  | didChange uri version texts =>
    .object [("textDocument", .object [("uri", .string uri), ("version", .int version)]),
      ("contentChanges", .array (texts.map fun text => .object [("text", .string text)]))]
  | hover uri place =>
    .object [("textDocument", .object [("uri", .string uri)]),
      ("position", .object [("line", .int place.line), ("character", .int place.character)])]
  | didClose uri | documentSymbol uri | stats uri | units uri =>
    .object [("textDocument", .object [("uri", .string uri)])]

def message (letter : Letter) : Message := ⟨letter.method, some letter.params, letter.isRequest⟩

def IsProper : Letter → Prop
  | didOpen _ _ version _ | didChange _ version _ =>
    -0x80000000 ≤ version ∧ version < 0x80000000
  | hover _ place => place.line < 0x100000000 ∧ place.character < 0x100000000
  | didClose _ | documentSymbol _ | stats _ | units _ => True

def exchange {Address : Type} (address : Address) : Letter → Exchange Address
  | didOpen _ _ _ text => .notice (.opened address text)
  | didChange _ _ texts => .notice (.changed address texts)
  | didClose _ => .notice (.closed address)
  | hover _ place => .query address (.hover place)
  | documentSymbol _ => .query address .symbols
  | stats _ => .query address .figures
  | units _ => .query address .units

end Letter

namespace Protocol
variable {Address : Type} {address? : String → Option Address}

/-- A protocol reads what editors write, and parses the addresses in it with a given function. -/
structure Reads (protocol : Protocol Address) (address? : String → Option Address) : Prop where
  opened {uri language version text address} (ha : address? uri = some address)
    (h : (Letter.didOpen uri language version text).IsProper) :
    protocol.opened? (Letter.didOpen uri language version text).params = some (address, text)
  changed {uri version texts address} (ha : address? uri = some address)
    (h : (Letter.didChange uri version texts).IsProper) :
    protocol.changed? (Letter.didChange uri version texts).params = some (address, texts)
  closed {uri address} (ha : address? uri = some address) :
    protocol.closed? (Letter.didClose uri).params = some address
  hover {uri place address} (ha : address? uri = some address)
    (h : (Letter.hover uri place).IsProper) :
    protocol.hover? (Letter.hover uri place).params = some (address, place)
  symbols {uri address} (ha : address? uri = some address) :
    protocol.symbols? (Letter.documentSymbol uri).params = some address
  document {uri address} (ha : address? uri = some address) :
    protocol.document? (Letter.stats uri).params = some address

theorem Reads.says_message {protocol : Protocol Address} (hreads : protocol.Reads address?)
    {letter : Letter} {address : Address} (ha : address? letter.uri = some address)
    (h : letter.IsProper) : letter.message.Says protocol (letter.exchange address) := by
  cases letter with
  | didOpen => exact .didOpen (hreads.opened ha h)
  | didChange => exact .didChange (hreads.changed ha h)
  | didClose => exact .didClose (hreads.closed ha)
  | hover => exact .hover (hreads.hover ha h)
  | documentSymbol => exact .documentSymbol (hreads.symbols ha)
  | stats => exact .stats (hreads.document ha)
  | units => exact .units (hreads.document ha)

theorem mapM_map_eq_some {α β γ : Type} {f : β → Option γ} {g : α → β} {k : α → γ}
    (h : ∀ a, f (g a) = some (k a)) (l : List α) : (l.map g).mapM f = some (l.map k) := by
  induction l with
  | nil => rfl
  | cons a l ih => simp [h, ih]

theorem read?_document {uri : String} {address : Address} (ha : address? uri = some address) :
    Shape.read? (fun uri => (address? uri).isSome) Element.document
      (.object [("uri", .string uri)]) = some (.object [("uri", .string uri)]) := by
  simp [Element.document, Shape.read?, Shape.readNamed?, Shape.need, Shape.addField, ha]

theorem read?_place {isAddress : String → Bool} {place : Place} (hline : place.line < 0x100000000)
    (hcharacter : place.character < 0x100000000) :
    Shape.read? isAddress Element.place
      (.object [("line", .int place.line), ("character", .int place.character)]) =
        some (.object [("line", .int place.line), ("character", .int place.character)]) := by
  simp [Element.place, Shape.read?, Shape.readNamed?, Shape.need, Shape.addField,
    List.lookup_cons, JsonValue.nat32?_natCast hline, JsonValue.nat32?_natCast hcharacter]

theorem read?_change {isAddress : String → Bool} (text : String) :
    Shape.read? isAddress Element.change (.object [("text", .string text)]) =
      some (.object [("text", .string text)]) := by
  simp [Element.change, Shape.read?, Shape.readNamed?, Shape.need, Shape.may, Shape.addField,
    List.lookup_cons]

/-- The protocol as editors speak it reads what they write. -/
theorem reads_standard (address? : String → Option Address) :
    (standard address?).Reads address? where
  opened {uri language version text address} ha h := by
    have hversion : JsonValue.isInt32 (.int version) = true := by
      simpa [JsonValue.isInt32, Letter.IsProper] using h
    simp [standard, Letter.params, Shape.read?, Shape.readNamed?, Shape.need, Shape.addField,
      List.lookup_cons, Shape.only, hversion, ha]
  changed {uri version texts address} ha h := by
    have hversion : JsonValue.isInt32 (.int version) = true := by
      simpa [JsonValue.isInt32, Letter.IsProper] using h
    have htexts : (texts.map fun text => JsonValue.object [("text", .string text)]).mapM
        (fun change => (change.field? "text").bind (·.text?)) = some texts := by
      rw [mapM_map_eq_some (k := id) (by intro text; rfl), List.map_id]
    simp [standard, Letter.params, Element.version, Shape.read?, Shape.readNamed?, Shape.need,
      Shape.addField, List.lookup_cons, Shape.only, hversion, ha,
      mapM_map_eq_some read?_change texts, htexts, -List.mapM_map]
  closed ha := by
    simp [standard, Letter.params, Shape.read?, Shape.readNamed?, Shape.need, Shape.addField,
      read?_document ha, ha]
  hover {uri place address} ha h := by
    simp [standard, Letter.params, atPlace, onDocument, workDone, Shape.read?, Shape.readNamed?,
      Shape.need, Shape.may, Shape.addField, List.lookup_cons, read?_document ha,
      read?_place h.1 h.2, ha, JsonValue.nat32?_natCast h.1, JsonValue.nat32?_natCast h.2]
  symbols ha := by
    simp [standard, Letter.params, onDocument, partialResult, workDone, Shape.read?,
      Shape.readNamed?, Shape.need, Shape.may, Shape.addField, List.lookup_cons,
      read?_document ha, ha]
  document ha := by
    simp [standard, Letter.params, Shape.read?, Shape.readNamed?, Shape.need, Shape.addField,
      read?_document ha, ha]

end Protocol
end Gcode

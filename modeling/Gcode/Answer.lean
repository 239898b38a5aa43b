import Gcode.JsonValue
import Gcode.Workspace

/-! Answers and reports of the server as JSON. -/
namespace Gcode

def Place.toJson (place : Place) : JsonValue :=
  .object [("line", .int place.line), ("character", .int place.character)]

def Span.toJson (span : Span) : JsonValue :=
  .object [("start", span.start.toJson), ("end", span.stop.toJson)]

namespace DocumentSymbol

def toJson (symbol : DocumentSymbol) : JsonValue :=
  .object [("name", .string symbol.name), ("detail", .string symbol.detail),
    ("kind", .int symbol.kind), ("range", symbol.span.toJson),
    ("selectionRange", symbol.span.toJson)]

end DocumentSymbol

def Hover.toJson (hover : Hover) : JsonValue :=
  .object [
    ("contents", .object [("kind", .string "markdown"), ("value", .string hover.markdown)]),
    ("range", hover.span.toJson)]

namespace Figures

def toJson (figures : Figures) : JsonValue :=
  .object [("toolChanges", .int figures.toolChanges),
    ("runtimeSeconds", figures.seconds.elim .null .ofFloat),
    ("runtime", .string figures.clock), ("units", .string figures.units.keyword)]

end Figures

namespace Answer

def toJson : Answer → JsonValue
  | hover found => found.toJson
  | symbols found => .array (found.map DocumentSymbol.toJson)
  | figures found => found.toJson
  | units found => .object [("units", .string found.keyword)]

end Answer
end Gcode

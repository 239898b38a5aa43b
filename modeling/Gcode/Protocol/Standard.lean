import Gcode.Protocol
import Gcode.Protocol.Capability

/-! The protocol as editors speak it. The texts of addresses are parsed by a given function. -/
namespace Gcode.Protocol
open Shape Element

def workDone : List Field := [may "workDoneToken" token]
def partialResult : List Field := may "partialResultToken" token :: workDone

def onDocument (fields : List Field) : Shape :=
  openRecord (need "textDocument" document :: fields) any

def atPlace (fields : List Field) : Shape := onDocument (need "position" place :: fields)

def onItem (item : Shape) : Shape := openRecord (need "item" item :: partialResult) any

def onFiles (fields : List String) : Shape :=
  record [need "files" (list (record (fields.map (need · text))))]

def opening : Shape := record [
  may "processId" nat32, may "rootPath" text, may "rootUri" address,
  may "initializationOptions" any, need "capabilities" Capability.editor,
  may "trace" (oneOf ["off", "messages", "verbose"]),
  may "workspaceFolders" (list (record [need "uri" address, need "name" text])),
  may "clientInfo" (record [need "name" text, may "version" text]), may "locale" text]

def requests : List (String × Shape) := [
  ("textDocument/willSaveWaitUntil",
    record [need "textDocument" document, need "reason" int32]),
  ("textDocument/declaration", atPlace partialResult),
  ("textDocument/definition", atPlace partialResult),
  ("textDocument/typeDefinition", atPlace partialResult),
  ("textDocument/implementation", atPlace partialResult),
  ("textDocument/references",
    atPlace (need "context" (record [need "includeDeclaration" bool]) :: partialResult)),
  ("textDocument/prepareCallHierarchy", atPlace workDone),
  ("callHierarchy/incomingCalls", onItem (hierarchyItem (list int32))),
  ("callHierarchy/outgoingCalls", onItem (hierarchyItem (list int32))),
  ("textDocument/prepareTypeHierarchy", atPlace workDone),
  ("typeHierarchy/supertypes", onItem (hierarchyItem int32)),
  ("typeHierarchy/subtypes", onItem (hierarchyItem int32)),
  ("textDocument/documentHighlight", atPlace partialResult),
  ("textDocument/documentLink", onDocument partialResult),
  ("documentLink/resolve",
    record [need "range" span, may "target" address, may "tooltip" text, may "data" any]),
  ("textDocument/codeLens", onDocument partialResult),
  ("codeLens/resolve", record [need "range" span, may "command" command, may "data" any]),
  ("textDocument/foldingRange", onDocument partialResult),
  ("textDocument/selectionRange", onDocument (need "positions" (list place) :: partialResult)),
  ("textDocument/semanticTokens/full", onDocument partialResult),
  ("textDocument/semanticTokens/full/delta",
    onDocument (need "previousResultId" text :: partialResult)),
  ("textDocument/semanticTokens/range", onDocument (need "range" span :: partialResult)),
  ("textDocument/inlineValue",
    onDocument (need "range" span ::
      need "context" (record [need "frameId" int32, need "stoppedLocation" span]) :: workDone)),
  ("textDocument/inlayHint", onDocument (need "range" span :: workDone)),
  ("inlayHint/resolve", inlayHint),
  ("textDocument/moniker", atPlace partialResult),
  ("textDocument/completion",
    atPlace (may "context" (record [need "triggerKind" int32, may "triggerCharacter" text]) ::
      partialResult)),
  ("completionItem/resolve", completionItem),
  ("textDocument/diagnostic",
    onDocument (may "identifier" text :: may "previousResultId" text :: partialResult)),
  ("workspace/diagnostic",
    openRecord
      (may "identifier" text ::
        need "previousResultIds" (list (record [need "uri" address, need "value" text])) ::
        partialResult)
      any),
  ("textDocument/signatureHelp",
    atPlace (may "context" (record [need "triggerKind" int32, may "triggerCharacter" text,
      need "isRetrigger" bool, may "activeSignatureHelp" signatures]) :: workDone)),
  ("textDocument/codeAction",
    onDocument (need "range" span ::
      need "context" (record [need "diagnostics" (list diagnostic), may "only" (list text),
        may "triggerKind" int32]) ::
      partialResult)),
  ("codeAction/resolve", codeAction),
  ("textDocument/documentColor", onDocument partialResult),
  ("textDocument/colorPresentation",
    onDocument (need "color" color :: need "range" span :: partialResult)),
  ("textDocument/formatting", onDocument (need "options" layout :: workDone)),
  ("textDocument/rangeFormatting",
    onDocument (need "range" span :: need "options" layout :: workDone)),
  ("textDocument/onTypeFormatting", atPlace [need "ch" text, need "options" layout]),
  ("textDocument/rename", atPlace (need "newName" text :: workDone)),
  ("textDocument/prepareRename",
    record [need "textDocument" document, need "position" place]),
  ("textDocument/linkedEditingRange", atPlace workDone),
  ("workspace/symbol", openRecord (need "query" text :: partialResult) any),
  ("workspaceSymbol/resolve",
    record [need "name" text, need "kind" int32, may "tags" (list int32),
      may "containerName" text, need "location" (choice [location, document]),
      may "data" any]),
  ("workspace/willCreateFiles", onFiles ["uri"]),
  ("workspace/willRenameFiles", onFiles ["oldUri", "newUri"]),
  ("workspace/willDeleteFiles", onFiles ["uri"]),
  ("workspace/executeCommand",
    openRecord (need "command" text :: spare "arguments" (list any) :: workDone) any)]

def notifications : List String := [
  "textDocument/willSave", "textDocument/didSave", "workspace/didChangeConfiguration",
  "workspace/didChangeWorkspaceFolders", "workspace/didCreateFiles", "workspace/didRenameFiles",
  "workspace/didDeleteFiles", "workspace/didChangeWatchedFiles"]

def readUnserved? (isAddress : String → Bool) (method : String) : Option Unserved :=
  match requests.lookup method with
  | some params => some (.request fun value => (params.read? isAddress value).isSome)
  | none => if notifications.contains method then some .notification else none

def standard {Address : Type} (address? : String → Option Address) : Protocol Address :=
  let isAddress (text : String) : Bool := (address? text).isSome
  let addressOf? (params : JsonValue) : Option Address := do
    address? (← (← (← params.field? "textDocument").field? "uri").text?)
  { opensSession value := (opening.read? isAddress value).isSome
    startsSession value := ((record []).read? isAddress value).isSome
    opened? value := do
      let params ← (record [need "textDocument" (record [need "uri" address,
        need "languageId" text, need "version" int32, need "text" text])]).read? isAddress value
      some (← addressOf? params, ← (← (← params.field? "textDocument").field? "text").text?)
    changed? value := do
      let params ← (record [need "textDocument" version,
        need "contentChanges" (list change)]).read? isAddress value
      let changes ← (← params.field? "contentChanges").items?
      some (← addressOf? params, ← changes.mapM fun change => (change.field? "text").bind (·.text?))
    closed? value := do
      addressOf? (← (record [need "textDocument" document]).read? isAddress value)
    hover? value := do
      let params ← (atPlace workDone).read? isAddress value
      let place ← params.field? "position"
      some (← addressOf? params, ⟨← (← place.field? "line").nat32?,
        ← (← place.field? "character").nat32?⟩)
    symbols? value := do addressOf? (← (onDocument partialResult).read? isAddress value)
    document? value := do
      addressOf? (← (record [need "textDocument" document]).read? isAddress value)
    unserved? := readUnserved? isAddress }

end Gcode.Protocol

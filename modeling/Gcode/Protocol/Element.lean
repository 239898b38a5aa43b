import Gcode.Protocol.Shape

/-! The records that the parameters of messages are made of. -/
namespace Gcode.Element
open Shape

def flags (names : List String) : List Field := names.map (may · bool)

def document : Shape := record [need "uri" address]
def version : Shape := record [need "uri" address, need "version" int32]
def place : Shape := record [need "line" nat32, need "character" nat32]
def span : Shape := record [need "start" place, need "end" place]
def location : Shape := record [need "uri" address, need "range" span]
def command : Shape :=
  record [need "title" text, need "command" text, may "arguments" (list any)]

def markupKind : Shape := oneOf ["plaintext", "markdown"]
def markup : Shape := choice [text, record [need "kind" markupKind, need "value" text]]

/-- A change of an open document. Without a range it holds the whole text. -/
def change : Shape :=
  record [may "range" span, may "rangeLength" nat32, need "text" text]

def diagnostic : Shape := record [
  need "range" span, may "severity" int32, may "code" token,
  may "codeDescription" (record [need "href" address]), may "source" text, need "message" text,
  may "relatedInformation" (list (record [need "location" location, need "message" text])),
  may "tags" (list int32), may "data" any]

def hierarchyItem (tags : Shape) : Shape := record [
  need "name" text, need "kind" int32, may "tags" tags, may "detail" text, need "uri" address,
  need "range" span, need "selectionRange" span, may "data" any]

def textEdit : Shape := record [need "range" span, need "newText" text]

def documentEdit : Shape := record [
  need "textDocument" (record [need "uri" address, may "version" int32]),
  need "edits" (list textEdit)]

def fileEdit : Shape :=
  let made : Shape := record (flags ["overwrite", "ignoreIfExists"])
  choice [
    record [need "kind" (tag 0 "create"), need "uri" address, may "options" made,
      may "annotationId" text],
    record [need "kind" (tag 1 "rename"), need "oldUri" address, need "newUri" address,
      may "options" made, may "annotationId" text],
    record [need "kind" (tag 2 "delete"), need "uri" address,
      may "options" (record (flags ["recursive", "ignoreIfNotExists"] ++
        [may "annotationId" text]))]]

def workspaceEdit : Shape := record [
  may "changes" (map address (list textEdit)),
  may "documentChanges"
    (choice [list documentEdit, list (choice [fileEdit, documentEdit])]),
  may "changeAnnotations" (map text (record [need "label" text, may "needsConfirmation" bool,
    may "description" text]))]

def codeAction : Shape := record [
  need "title" text, may "kind" text, may "diagnostics" (list diagnostic),
  may "edit" workspaceEdit, may "command" command, may "isPreferred" bool,
  may "disabled" (record [need "reason" text]), may "data" any]

def completionItem : Shape := record [
  need "label" text, may "labelDetails" (record [may "detail" text, may "description" text]),
  may "kind" int32, may "detail" text, may "documentation" markup, may "deprecated" bool,
  may "preselect" bool, may "sortText" text, may "filterText" text, may "insertText" text,
  may "insertTextFormat" int32, may "insertTextMode" int32,
  may "textEdit" (choice [textEdit,
    record [need "newText" text, need "insert" span, need "replace" span]]),
  may "additionalTextEdits" (list textEdit), may "command" command,
  may "commitCharacters" (list text), may "data" any, may "tags" (list int32)]

def inlayHint : Shape := record [
  need "position" place,
  need "label" (choice [text, list (record [need "value" text, may "tooltip" markup,
    may "location" location, may "command" command])]),
  may "kind" int32, may "textEdits" (list textEdit), may "tooltip" markup,
  may "paddingLeft" bool, may "paddingRight" bool, may "data" any]

def signatures : Shape := record [
  need "signatures" (list (record [need "label" text, may "documentation" markup,
    may "parameters" (list (record [need "label" (choice [text, pair nat32 nat32]),
      may "documentation" markup])),
    may "activeParameter" nat32])),
  may "activeSignature" nat32, may "activeParameter" nat32]

def color : Shape := record
  [need "red" number, need "green" number, need "blue" number, need "alpha" number]

def layout : Shape := openRecord
  (need "tabSize" nat32 :: need "insertSpaces" bool ::
    flags ["trimTrailingWhitespace", "insertFinalNewline", "trimFinalNewlines"])
  (choice [bool, int32, text])

end Gcode.Element

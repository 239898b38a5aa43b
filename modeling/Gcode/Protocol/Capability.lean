import Gcode.Protocol.Element

/-! What an editor says of its abilities when it opens a session. -/
namespace Gcode.Capability
open Shape Element

def group (names : List String) : Shape := record (flags names)

def dynamic (names : List String) : Shape := group ("dynamicRegistration" :: names)

def dynamicWith (fields : List Field) : Shape := record (may "dynamicRegistration" bool :: fields)

def known (value : Shape) : Shape := record [may "valueSet" (list value)]

def tags : Shape := choice [null, bool, record [need "valueSet" (list int32)]]

def resolved : Shape := record [need "properties" (list text)]

def workspace : Shape := record [
  may "applyEdit" bool,
  may "workspaceEdit" (record [
    may "documentChanges" bool,
    may "resourceOperations" (list (oneOf ["create", "rename", "delete"])),
    may "failureHandling" (oneOf ["abort", "transactional", "textOnlyTransactional", "undo"]),
    may "normalizesLineEndings" bool,
    may "changeAnnotationSupport" (group ["groupsOnLabel"])]),
  may "didChangeConfiguration" (dynamic []),
  may "didChangeWatchedFiles" (dynamic ["relativePatternSupport"]),
  may "symbol" (dynamicWith [
    may "symbolKind" (known int32), spare "tagSupport" tags, may "resolveSupport" resolved]),
  may "executeCommand" (dynamic []),
  may "workspaceFolders" bool,
  may "configuration" bool,
  may "semanticTokens" (group ["refreshSupport"]),
  may "codeLens" (group ["refreshSupport"]),
  may "fileOperations" (dynamic
    ["didCreate", "willCreate", "didRename", "willRename", "didDelete", "willDelete"]),
  may "inlineValue" (group ["refreshSupport"]),
  may "inlayHint" (group ["refreshSupport"]),
  may "diagnostic" (group ["refreshSupport"])]

def completion : Shape := dynamicWith [
  may "completionItem" (record [
    may "snippetSupport" bool,
    may "commitCharactersSupport" bool,
    may "documentationFormat" (list markupKind),
    may "deprecatedSupport" bool,
    may "preselectSupport" bool,
    spare "tagSupport" tags,
    may "insertReplaceSupport" bool,
    may "resolveSupport" resolved,
    may "insertTextModeSupport" (record [need "valueSet" (list int32)]),
    may "labelDetailsSupport" bool]),
  may "completionItemKind" (known int32),
  may "contextSupport" bool,
  may "insertTextMode" int32,
  may "completionList" (record [may "itemDefaults" (list text)])]

def signatureHelp : Shape := dynamicWith [
  may "signatureInformation" (record [
    may "documentationFormat" (list markupKind),
    may "parameterInformation" (group ["labelOffsetSupport"]),
    may "activeParameterSupport" bool]),
  may "contextSupport" bool]

def codeAction : Shape := dynamicWith [
  may "codeActionLiteralSupport"
    (record [need "codeActionKind" (record [need "valueSet" (list text)])]),
  may "isPreferredSupport" bool,
  may "disabledSupport" bool,
  may "dataSupport" bool,
  may "resolveSupport" resolved,
  may "honorsChangeAnnotations" bool]

def semanticTokens : Shape := dynamicWith ([
  need "requests" (record [
    may "range" bool,
    may "full" (choice [bool, openRecord [may "delta" bool] any])]),
  need "tokenTypes" (list text),
  need "tokenModifiers" (list text),
  need "formats" (list text)] ++
  flags ["overlappingTokenSupport", "multilineTokenSupport", "serverCancelSupport",
    "augmentsSyntaxTokens"])

def textDocument : Shape := record [
  may "synchronization" (dynamic ["willSave", "willSaveWaitUntil", "didSave"]),
  may "completion" completion,
  may "hover" (dynamicWith [may "contentFormat" (list markupKind)]),
  may "signatureHelp" signatureHelp,
  may "references" (dynamic []),
  may "documentHighlight" (dynamic []),
  may "documentSymbol" (dynamicWith [
    may "symbolKind" (known int32), may "hierarchicalDocumentSymbolSupport" bool,
    spare "tagSupport" tags]),
  may "formatting" (dynamic []),
  may "rangeFormatting" (dynamic []),
  may "onTypeFormatting" (dynamic []),
  may "declaration" (dynamic ["linkSupport"]),
  may "definition" (dynamic ["linkSupport"]),
  may "typeDefinition" (dynamic ["linkSupport"]),
  may "implementation" (dynamic ["linkSupport"]),
  may "codeAction" codeAction,
  may "codeLens" (dynamic []),
  may "documentLink" (dynamic ["tooltipSupport"]),
  may "colorProvider" (dynamic []),
  may "rename" (dynamicWith [
    may "prepareSupport" bool, may "prepareSupportDefaultBehavior" int32,
    may "honorsChangeAnnotations" bool]),
  may "publishDiagnostics" (record [
    may "relatedInformation" bool, spare "tagSupport" tags, may "versionSupport" bool,
    may "codeDescriptionSupport" bool, may "dataSupport" bool]),
  may "foldingRange" (dynamicWith [
    may "rangeLimit" nat32, may "lineFoldingOnly" bool,
    may "foldingRangeKind" (known (oneOf ["comment", "imports", "region"])),
    may "foldingRange" (group ["collapsedText"])]),
  may "selectionRange" (dynamic []),
  may "linkedEditingRange" (dynamic []),
  may "callHierarchy" (dynamic []),
  may "semanticTokens" semanticTokens,
  may "moniker" (dynamic []),
  may "typeHierarchy" (dynamic []),
  may "inlineValue" (dynamic []),
  may "inlayHint" (dynamicWith [may "resolveSupport" resolved]),
  may "diagnostic" (dynamic ["relatedDocumentSupport"])]

def window : Shape := record [
  may "workDoneProgress" bool,
  may "showMessage" (record [may "messageActionItem" (group ["additionalPropertiesSupport"])]),
  may "showDocument" (record [need "support" bool])]

def general : Shape := record [
  may "regularExpressions" (record [need "engine" text, may "version" text]),
  may "markdown"
    (record [need "parser" text, may "version" text, may "allowedTags" (list text)]),
  may "staleRequestSupport"
    (record [need "cancel" bool, need "retryOnContentModified" (list text)]),
  may "positionEncodings" (list text)]

def editor : Shape := record [
  may "workspace" workspace, may "textDocument" textDocument, may "window" window,
  may "general" general, may "experimental" any]

end Gcode.Capability

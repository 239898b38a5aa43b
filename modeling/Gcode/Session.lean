import Gcode.Answer
import Gcode.Protocol

/-! A session of the language server: one message after the other, from the request that opens
the session to the notification that ends it. -/
namespace Gcode

inductive Phase where
  | unopened | running | stopped | exited
deriving DecidableEq, Repr

structure Message where
  method : String
  params : Option JsonValue
  isRequest : Bool

inductive Failure where
  | notOpen | invalidRequest | unknownMethod | invalidParams
deriving DecidableEq, Repr

def Failure.code : Failure → Int
  | notOpen => -32002
  | invalidRequest => -32600
  | unknownMethod => -32601
  | invalidParams => -32602

inductive Response where
  | silent
  | result (value : JsonValue)
  | failure (cause : Failure)
  | exited

structure Reaction where
  response : Response
  log : List String := []

structure Session (Address : Type) where
  workspace : Workspace Address
  phase : Phase := .unopened

namespace Session

def fail (m : Message) (cause : Failure) : Reaction :=
  if m.isRequest then ⟨.failure cause, []⟩ else ⟨.silent, []⟩

def greeting : JsonValue :=
  .object [
    ("capabilities", .object [
      ("documentSymbolProvider", .bool true), ("hoverProvider", .bool true),
      ("textDocumentSync", .int 1)]),
    ("serverInfo", .object [("name", .string "gcode-insight-ls"), ("version", .string "0.1.0")])]

def welcome (registry : Registry) : String :=
  "gcode-insight-ls initialized (reference: " ++
    (registry.active?.elim "none" (·.name)) ++ ")"

/-- Whether a server may leave out a method. The names of these methods begin alike. -/
def isOptional (method : String) : Bool := ['$', '/'].isPrefixOf method.toList

variable {Address : Type}

def refuse (s : Session Address) (m : Message) : Reaction :=
  fail m (if s.phase = .unopened then .notOpen else .invalidRequest)

def opening (protocol : Protocol Address) (s : Session Address) (m : Message) :
    Session Address × Reaction :=
  if s.phase ≠ .unopened then (s, fail m .invalidRequest)
  else if !m.isRequest then (s, ⟨.silent, []⟩)
  else if m.params.any protocol.opensSession then
    ({ s with phase := .running }, ⟨.result greeting, []⟩)
  else (s, fail m .invalidParams)

/-- Stops the session. The request has no parameters, but the session stops even if it does. -/
def stopping (s : Session Address) (m : Message) : Session Address × Reaction :=
  if s.phase ≠ .running then (s, s.refuse m)
  else ({ s with phase := .stopped },
    if !m.isRequest then ⟨.silent, []⟩
    else if m.params.isSome then ⟨.failure .invalidParams, []⟩
    else ⟨.result .null, []⟩)

def respond {α : Type} (s : Session Address) (m : Message) (read? : JsonValue → Option α)
    (answer : α → Response) : Session Address × Reaction :=
  if s.phase ≠ .running then (s, s.refuse m)
  else if !m.isRequest then (s, ⟨.silent, []⟩)
  else match m.params.bind read? with
    | some given => (s, ⟨answer given, []⟩)
    | none => (s, fail m .invalidParams)

def take {α : Type} (s : Session Address) (m : Message) (read? : JsonValue → Option α)
    (act : α → Session Address × Reaction) : Session Address × Reaction :=
  if s.phase ≠ .running then (s, s.refuse m)
  else if m.isRequest then (s, fail m .invalidRequest)
  else match m.params.bind read? with
    | some given => act given
    | none => (s, ⟨.silent, []⟩)

def unserved (s : Session Address) (m : Message) : Option Unserved → Session Address × Reaction
  | some (.request accepts) => s.respond m (Option.guard accepts) fun _ => .failure .unknownMethod
  | some .notification => s.take m some fun _ => (s, ⟨.silent, []⟩)
  | none => (s, if isOptional m.method then ⟨.silent, []⟩ else fail m .unknownMethod)

variable [DecidableEq Address]

def answer (s : Session Address) (address : Address) (query : Query) : Response :=
  .result ((s.workspace.answer? address query).elim .null Answer.toJson)

def note (s : Session Address) (notice : Notice Address) : Session Address × Reaction :=
  ({ s with workspace := s.workspace.notice notice }, ⟨.silent, []⟩)

def dispatch (protocol : Protocol Address) (s : Session Address) (m : Message) :
    Session Address × Reaction :=
  match m.method with
  | "initialized" => s.take m (Option.guard protocol.startsSession) fun _ =>
    (s, ⟨.silent, [welcome s.workspace.registry]⟩)
  | "textDocument/didOpen" => s.take m protocol.opened? fun (address, text) =>
    s.note (.opened address text)
  | "textDocument/didChange" => s.take m protocol.changed? fun (address, texts) =>
    s.note (.changed address texts)
  | "textDocument/didClose" => s.take m protocol.closed? fun address => s.note (.closed address)
  | "textDocument/hover" => s.respond m protocol.hover? fun (address, place) =>
    s.answer address (.hover place)
  | "textDocument/documentSymbol" => s.respond m protocol.symbols? (s.answer · .symbols)
  | "gcode/stats" => s.respond m protocol.document? (s.answer · .figures)
  | "gcode/units" => s.respond m protocol.document? (s.answer · .units)
  | "$/cancelRequest" => (s, fail m .invalidRequest)
  | method => s.unserved m (protocol.unserved? method)

def handle (protocol : Protocol Address) (s : Session Address) (m : Message) :
    Session Address × Reaction :=
  if s.phase = .exited then (s, ⟨.exited, []⟩)
  else match m.method with
    | "exit" => ({ s with phase := .exited }, ⟨.silent, []⟩)
    | "initialize" => s.opening protocol m
    | "shutdown" => s.stopping m
    | _ => s.dispatch protocol m

end Session
end Gcode

import Gcode.Proofs.WrittenMessages
import Mathlib.Data.List.Forall2
import Mathlib.Logic.Function.Basic

/-! A session as a store of texts. Whatever messages about documents come in, the session holds the
latest text of every open document, and answers from that text alone. -/
namespace Gcode

abbrev Texts (Address : Type) := Address → Option String

/-- The texts after an exchange. A change brings whole texts, and only the last one counts. -/
def Texts.after {Address : Type} [DecidableEq Address] (texts : Texts Address) :
    Exchange Address → Texts Address
  | .notice (.opened address text) => Function.update texts address (some text)
  | .notice (.changed address changes) =>
    match changes.getLast? with
    | some text => Function.update texts address (some text)
    | none => texts
  | .notice (.closed address) => Function.update texts address none
  | .query .. => texts

def hoverOf? (registry : Registry) (text : String) (place : Place) : Option Hover := do
  let line ← (Line.ofText text).find? (·.index = place.line)
  let found ← codeUnder? line.text.toList place.character
  let code := String.ofList found.text
  let help ← match registry.chosenBy text with
    | some name => registry.lookupFrom name code
    | none => registry.lookup code
  some ⟨help.markdown, ⟨⟨place.line, found.start⟩, ⟨place.line, found.stop⟩⟩⟩

def rangeOf (span : Span) : JsonValue :=
  .object [
    ("start", .object [("line", .int span.start.line), ("character", .int span.start.character)]),
    ("end", .object [("line", .int span.stop.line), ("character", .int span.stop.character)])]

def symbolOf (symbol : DocumentSymbol) : JsonValue :=
  .object [("name", .string symbol.name), ("detail", .string symbol.detail),
    ("kind", .int symbol.kind), ("range", rangeOf symbol.span),
    ("selectionRange", rangeOf symbol.span)]

def secondsOf : Option Float → JsonValue
  | some seconds => if seconds.isFinite then .float seconds else .null
  | none => .null

def unitsOf : LengthUnit → JsonValue
  | .inch => .string "inch"
  | .metric => .string "metric"

def answerOf (registry : Registry) (settings : Settings) : Option String → Query → JsonValue
  | none, _ => .null
  | some text, .hover place =>
    match hoverOf? registry text place with
    | none => .null
    | some found => .object [
      ("contents", .object [("kind", .string "markdown"), ("value", .string found.markdown)]),
      ("range", rangeOf found.span)]
  | some text, .symbols => .array ((DocumentSymbol.ofText text).map symbolOf)
  | some text, .figures =>
    if settings.withStats then
      let figures := Figures.ofText text settings.units
      .object [("toolChanges", .int figures.toolChanges),
        ("runtimeSeconds", secondsOf figures.seconds), ("runtime", .string figures.clock),
        ("units", unitsOf figures.units)]
    else .null
  | some text, .units => .object [("units", unitsOf (settings.units.unitOf text))]

theorem toJson_figures (figures : Figures) : figures.toJson =
    .object [("toolChanges", .int figures.toolChanges),
      ("runtimeSeconds", secondsOf figures.seconds), ("runtime", .string figures.clock),
      ("units", unitsOf figures.units)] := by
  have hseconds : figures.seconds.elim .null .ofFloat = secondsOf figures.seconds := by
    cases figures.seconds <;> rfl
  have hunits : JsonValue.string figures.units.keyword = unitsOf figures.units := by
    cases figures.units <;> rfl
  rw [Figures.toJson, hseconds, hunits]

namespace Session
variable {Address : Type} [DecidableEq Address] {protocol : Protocol Address}

def run (protocol : Protocol Address) (s : Session Address) (sent : List Message) :
    Session Address :=
  sent.foldl (fun s m => (s.handle protocol m).1) s

/-- A running session that holds exactly the given texts, each with the reference it chooses. -/
structure Mirrors (s : Session Address) (registry : Registry) (settings : Settings)
    (texts : Texts Address) : Prop where
  phase_eq : s.phase = .running
  registry_eq : s.workspace.registry = registry
  settings_eq : s.workspace.settings = settings
  get_document : ∀ address, s.workspace.documents.get? address =
    (texts address).map fun text => ⟨text, registry.chosenBy text⟩

theorem handle_notice {s : Session Address} {m : Message} {told : Notice Address}
    (hs : s.phase = .running) (h : m.Says protocol (.notice told)) :
    s.handle protocol m = s.note told := by
  cases h <;> next h => simp [handle, hs, dispatch, take, h]

theorem handle_query {s : Session Address} {m : Message} {address : Address} {asked : Query}
    (hs : s.phase = .running) (h : m.Says protocol (.query address asked)) :
    s.handle protocol m = (s, ⟨s.answer address asked, []⟩) := by
  cases h <;> next h => simp [handle, hs, dispatch, respond, h]

namespace Mirrors
variable {s : Session Address} {registry : Registry} {settings : Settings} {texts : Texts Address}

/-- A stored text replaces the one before, and leaves the other documents alone. -/
theorem store (h : s.Mirrors registry settings texts) (address : Address) (text : String) :
    Mirrors { s with workspace := s.workspace.store address text } registry settings
      (Function.update texts address (some text)) where
  phase_eq := h.phase_eq
  registry_eq := h.registry_eq
  settings_eq := h.settings_eq
  get_document other := by
    simp only [Workspace.store, Table.get?_put, h.registry_eq]
    by_cases he : address = other
    · subst he
      simp
    · rw [if_neg he, Function.update_of_ne (Ne.symm he)]
      exact h.get_document other

theorem erase (h : s.Mirrors registry settings texts) (address : Address) :
    Mirrors { s with workspace := s.workspace.notice (.closed address) } registry settings
      (Function.update texts address none) where
  phase_eq := h.phase_eq
  registry_eq := h.registry_eq
  settings_eq := h.settings_eq
  get_document other := by
    simp only [Workspace.notice, Table.get?_erase]
    by_cases he : address = other
    · subst he
      simp
    · rw [if_neg he, Function.update_of_ne (Ne.symm he)]
      exact h.get_document other

theorem notice (h : s.Mirrors registry settings texts) (told : Notice Address) :
    Mirrors (s.note told).1 registry settings (texts.after (.notice told)) := by
  cases told with
  | opened address text => exact h.store address text
  | changed address changes =>
    cases hl : changes.getLast? with
    | none => simpa [note, Workspace.notice, Texts.after, hl] using h
    | some text => simpa [note, Workspace.notice, Texts.after, hl] using h.store address text
  | closed address => exact h.erase address

/-- What is cached with a document does not show in the answers. -/
theorem answer (h : s.Mirrors registry settings texts) (address : Address) (asked : Query) :
    s.answer address asked = .result (answerOf registry settings (texts address) asked) := by
  rw [Session.answer, Workspace.answer?, h.get_document address]
  cases texts address with
  | none => rfl
  | some text =>
    rw [Option.map_some, Option.bind_some]
    cases asked with
    | hover place =>
      have hhover : s.workspace.hover? ⟨text, registry.chosenBy text⟩ place =
          hoverOf? registry text place := by
        rw [Workspace.hover?, hoverOf?, Document.line?, h.registry_eq]
        cases (Line.ofText text).find? (·.index = place.line) <;> rfl
      rw [Workspace.answerFor?, answerOf, hhover]
      cases hoverOf? registry text place <;> rfl
    | symbols => rfl
    | figures =>
      rw [Workspace.answerFor?, answerOf, h.settings_eq]
      split
      · exact congrArg Response.result (toJson_figures _)
      · rfl
    | units =>
      rw [Workspace.answerFor?, answerOf, h.settings_eq]
      cases hunits : settings.units.unitOf text <;> rfl

/-- One exchange keeps a session in step with the texts. -/
theorem handle (h : s.Mirrors registry settings texts) {m : Message} {e : Exchange Address}
    (he : m.Says protocol e) :
    Mirrors (s.handle protocol m).1 registry settings (texts.after e) := by
  cases e with
  | notice told =>
    rw [handle_notice h.phase_eq he]
    exact h.notice told
  | query address asked =>
    rw [handle_query h.phase_eq he]
    exact h

theorem run {sent : List Message} {said : List (Exchange Address)}
    (h : s.Mirrors registry settings texts) (hs : List.Forall₂ (Message.Says protocol) sent said) :
    Mirrors (s.run protocol sent) registry settings (said.foldl Texts.after texts) := by
  induction hs generalizing s texts with
  | nil => exact h
  | cons he _ ih => exact ih (h.handle he)

end Mirrors

theorem contains_of_chosenBy {registry : Registry} {text name : String}
    (h : registry.chosenBy text = some name) : registry.contains name = true :=
  List.find?_some h

/-- Whatever is told and asked of a session that has just opened, it holds the latest text of
every open document and the loaded reference that this text chooses, and nothing else. Its answer to
a query comes from that text, the references and the settings alone, and changes nothing. What
editors write is served, for any protocol that reads it. -/
theorem run_latest_texts (protocol : Protocol Address) (registry : Registry) (settings : Settings)
    {sent : List Message} {said : List (Exchange Address)}
    (h : List.Forall₂ (Message.Says protocol) sent said) :
    let s := run protocol ⟨⟨registry, settings, []⟩, .running⟩ sent
    let texts := said.foldl Texts.after fun _ => none
    s.phase = .running ∧ s.workspace.registry = registry ∧ s.workspace.settings = settings ∧
      (∀ address, s.workspace.documents.get? address =
        (texts address).map fun text => ⟨text, registry.chosenBy text⟩) ∧
      (∀ address document name, s.workspace.documents.get? address = some document →
        document.reference = some name → registry.contains name = true) ∧
      (∀ m address asked, m.Says protocol (.query address asked) →
        s.handle protocol m =
          (s, ⟨.result (answerOf registry settings (texts address) asked), []⟩)) ∧
      ∀ address? : String → Option Address, protocol.Reads address? →
        ∀ (letter : Letter) (address : Address), letter.IsProper →
          address? letter.uri = some address →
            letter.message.Says protocol (letter.exchange address) := by
  intro s texts
  have hopened : Mirrors (⟨⟨registry, settings, []⟩, .running⟩ : Session Address) registry
      settings fun _ => none :=
    ⟨rfl, rfl, rfl, fun _ => rfl⟩
  have hm : s.Mirrors registry settings texts := hopened.run h
  refine ⟨hm.phase_eq, hm.registry_eq, hm.settings_eq, hm.get_document, ?_, ?_,
    fun _ hreads _ _ hproper haddress => hreads.says_message haddress hproper⟩
  · intro address document name hd hn
    rw [hm.get_document address, Option.map_eq_some_iff] at hd
    obtain ⟨text, -, rfl⟩ := hd
    exact contains_of_chosenBy hn
  · intro m address asked ha
    rw [handle_query hm.phase_eq ha, hm.answer]

/-- Two documents, one of which has two spellings of its address. -/
theorem run_latest_texts_two_spellings :
    let address? (uri : String) : Option String :=
      [("file:///a.nc", "file:///a.nc"), ("file:///x/../a.nc", "file:///a.nc"),
        ("file:///b.nc", "file:///b.nc")].lookup uri
    let protocol := Protocol.standard address?
    let registry : Registry := ⟨[("mill", ⟨"mill", none, none, []⟩)], none⟩
    let sent := [Letter.didOpen "file:///x/../a.nc" "gcode" 1 "G20",
      .didOpen "file:///b.nc" "gcode" 1 "G20", .documentSymbol "file:///b.nc",
      .didChange "file:///a.nc" 2 ["", "G21 (gcode_reference = mill)"],
      .didChange "file:///x/../a.nc" 3 [], .didClose "file:///b.nc"].map Letter.message
    let said := [Exchange.notice (.opened "file:///a.nc" "G20"),
      .notice (.opened "file:///b.nc" "G20"), .query "file:///b.nc" .symbols,
      .notice (.changed "file:///a.nc" ["", "G21 (gcode_reference = mill)"]),
      .notice (.changed "file:///a.nc" []), .notice (.closed "file:///b.nc")]
    let s := run protocol ⟨⟨registry, {}, []⟩, .running⟩ sent
    (List.Forall₂ (Message.Says protocol) sent said ∧ protocol.Reads address?) ∧
      s.workspace.documents.get? "file:///a.nc" =
        some ⟨"G21 (gcode_reference = mill)", some "mill"⟩ ∧
      s.workspace.documents.get? "file:///b.nc" = none ∧
      s.handle protocol (Letter.units "file:///x/../a.nc").message =
        (s, ⟨.result (.object [("units", .string "metric")]), []⟩) ∧
      s.handle protocol (Letter.documentSymbol "file:///b.nc").message =
        (s, ⟨.result .null, []⟩) := by
  intro address? protocol registry sent said s
  have hreads : protocol.Reads address? := Protocol.reads_standard address?
  have hsaid : List.Forall₂ (Message.Says protocol) sent said :=
    .cons (hreads.says_message rfl ⟨by decide, by decide⟩) (
      .cons (hreads.says_message rfl ⟨by decide, by decide⟩) (
      .cons (hreads.says_message rfl trivial) (
      .cons (hreads.says_message rfl ⟨by decide, by decide⟩) (
      .cons (hreads.says_message rfl ⟨by decide, by decide⟩) (
      .cons (hreads.says_message rfl trivial) .nil)))))
  obtain ⟨-, -, -, hdocuments, -, hquery, hletter⟩ := run_latest_texts protocol registry {} hsaid
  refine ⟨⟨hsaid, hreads⟩, ?_, ?_, ?_, ?_⟩
  · rw [hdocuments "file:///a.nc"]
    decide +kernel
  · rw [hdocuments "file:///b.nc"]
    decide +kernel
  · rw [hquery _ "file:///a.nc" .units
      (hletter address? hreads (.units "file:///x/../a.nc") "file:///a.nc" trivial rfl)]
    have hunits : LengthUnit.ofText "G21 (gcode_reference = mill)" = .metric := by
      decide +kernel
    show _ = (s, Reaction.mk (.result (.object [("units", unitsOf .metric)])) [])
    rw [← hunits]
    rfl
  · rw [hquery _ "file:///b.nc" .symbols
      (hletter address? hreads (.documentSymbol "file:///b.nc") "file:///b.nc" trivial rfl)]
    rfl

end Session
end Gcode

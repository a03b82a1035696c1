import CodeIndex.Engine.Report
import CodeIndex.Engine.Update
import CodeIndex.Json.Printer
import CodeIndex.Json.Reader
/-!
# Tools

The engine as a set of tools that a client calls by name with arguments in JSON. The answer
is a text, which for a call that succeeds is JSON.
-/

namespace CodeIndex

/-- A call of a tool with its arguments. -/
inductive ToolCall where
  | searchCode (request : SearchRequest)
  | getContext (request : ContextRequest)
  | indexProject (force : Bool)
  | rebuildIndex
  | indexStatus
  | fileEvent (path event : String)
  | searchRelations (symbol : String)
  deriving Repr, DecidableEq

/-- The answer to a call. -/
structure ToolAnswer where
  isError : Bool
  text : String
  deriving Repr, DecidableEq

namespace ToolCall

def required (read : Json → Option α) (arguments : Json) (name : String) : Option α :=
  (arguments.field? name).bind read

/-- An optional argument. `null` counts as absent. -/
def optional (read : Json → Option α) (arguments : Json) (name : String) : Option (Option α) :=
  match arguments.field? name with
  | none => some none
  | some .null => some none
  | some j => (read j).map some

/-- Reads a call; `none` when there is no such tool or the arguments do not fit. -/
def read? (name : String) (arguments : Json) : Option ToolCall :=
  let text := required Json.text? arguments
  let optionalText := optional Json.text? arguments
  let optionalNat := optional Json.word? arguments
  match name with
  | "search_code" => do
    let query ← text "query"
    let limit ← optionalNat "limit"
    let file ← optionalText "current_file"
    let _ ← optionalNat "cursor_line"
    return .searchCode ⟨query, limit.getD 0, file⟩
  | "get_context" => do
    let question ← text "question"
    let file ← optionalText "current_file"
    let line ← optionalNat "cursor_line"
    let budget ← optionalNat "budget"
    let diagnostics ← optional Json.texts? arguments "diagnostics"
    return .getContext ⟨question, file, line, budget.getD 0, diagnostics.getD []⟩
  | "index_project" => do
    let force ← optional Json.bool? arguments "force"
    return .indexProject (force.getD false)
  | "rebuild_index" => some .rebuildIndex
  | "index_status" => some .indexStatus
  | "file_event" => do return .fileEvent (← text "path") (← text "event")
  | "search_relations" => do return .searchRelations (← text "symbol")
  | _ => none

end ToolCall

namespace ToolAnswer

def json (fields : List (String × Json)) : ToolAnswer :=
  ⟨false, (Json.record fields).pretty⟩

def refusal (message : String) : ToolAnswer :=
  ⟨true, message⟩

def unavailable : ToolAnswer :=
  refusal "chunk store unavailable"

end ToolAnswer

namespace Tool

def resultJson (r : RankedChunk) : Json :=
  let c := r.chunk.row
  .record [("content", .text c.content), ("end_line", .nat c.endLine), ("file", .text r.chunk.path),
    ("kind", .text c.kind.word), ("name", .optionalText c.name), ("scope", .text c.scopePath),
    ("score", .float r.score), ("signals", r.signals.toJson), ("signature", .text c.signature),
    ("start_line", .nat c.startLine)]

def placeJson (c : ChunkRecord) : Json :=
  .record [("file", .text c.path), ("kind", .text c.row.kind.word), ("line", .nat c.row.startLine),
    ("name", .optionalText c.row.name), ("scope", .text c.row.scopePath)]

def importJson (i : ImportRecord) : Json :=
  .record [("file", .text i.path), ("line", .nat i.row.fact.line),
    ("source", .text i.row.fact.source)]

def scanAnswer (s : Scan) : ToolAnswer :=
  .json [("stats", s.stats.toJson), ("success", .bool true)]

def relationsAnswer (symbol : String) (r : Relations) : ToolAnswer :=
  .json [("callees", .texts r.callees), ("callers", .array (r.callers.map placeJson)),
    ("definitions", .array (r.definitions.map placeJson)),
    ("importers", .array (r.importers.map importJson)), ("symbol", .text symbol),
    ("type_definition", .ofOption placeJson r.typeDefinition),
    ("type_users", .array (r.typeUsers.map placeJson))]

/-- An editor's event; `none` when there is no such event. -/
def event? (e : Engine) (env : Surroundings) (path : String) : String → Option Engine
  | "saved" => some (e.saved path)
  | "deleted" => some (e.deleted path)
  | "opened" => some (e.opened env path)
  | _ => none

def perform (e : Engine) (env : Surroundings) : ToolCall → Engine × ToolAnswer
  | .searchCode r =>
    if Text.isBlankString r.query then (e, .refusal "query is required")
    else
      let results := (e.search env r).map resultJson
      (e, .json [("count", .nat results.length), ("results", .array results)])
  | .getContext r =>
    if Text.isBlankString r.question then (e, .refusal "question is required")
    else
      let c := e.context env r
      (e, .json [("context", .text c.text), ("metadata", c.metadata)])
  | .indexProject force =>
    if e.isAvailable then
      let (e, s) := e.index env force
      (e, scanAnswer s)
    else (e, .unavailable)
  | .rebuildIndex =>
    if e.isAvailable then
      let (e, s) := e.rebuild env
      (e, scanAnswer s)
    else (e, .unavailable)
  | .indexStatus => (e, ⟨false, e.status.toJson.pretty⟩)
  | .fileEvent path event =>
    if path == "" then (e, .refusal "path is required")
    else
      match event? e env path event with
      | some e =>
        (e, .json [("accepted", .bool true), ("event", .text event), ("path", .text path)])
      | none =>
        (e, .refusal ("unknown event: " ++ event ++ " (expected saved, opened or deleted)"))
  | .searchRelations symbol =>
    if Text.isBlankString symbol then (e, .refusal "symbol is required")
    else (e, relationsAnswer symbol (e.relations symbol))

end Tool

end CodeIndex

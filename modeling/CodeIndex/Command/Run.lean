import CodeIndex.Command.Arguments
import CodeIndex.Config.Text
import CodeIndex.Decimal.Fixed
import CodeIndex.Tool.Server
/-!
# Running actions

An action opens the project's store, does its work, and writes to the standard output. The
exit code is zero for success, one for a failure and two for wrong arguments.
-/

namespace CodeIndex

/-- Where the program runs. -/
structure Host where
  disk : Disk
  /-- The current directory. -/
  current : Place
  dataDirectory : String
  grammar : Grammar
  now : Instant

/-- What the program leaves behind. -/
structure Output where
  code : Nat
  text : String := ""
  deriving Repr, DecidableEq

namespace Command

def versionText : String := "codectx 0.3.0\n"

def helpText : String :=
  "Local code-context retrieval for editor assistants\n\n"
    ++ "Usage: codectx [OPTIONS] <COMMAND>\n\nCommands:\n"
    ++ String.join (before.actions.map fun t => "  " ++ t ++ "\n")

/-- What arguments without an action lead to. -/
def usageOutput : Usage → Output
  | .help => ⟨0, helpText⟩
  | .version => ⟨0, versionText⟩
  | .wrong => ⟨2, ""⟩

def line (s : String) : String :=
  s ++ "\n"

/-! ## Opening the project -/

def settingsAt (d : Disk) (current : Place) (path : String) : Config.Source :=
  match d.resolve current path with
  | .error _ => .absent
  | .ok at_ =>
    match d.readText (Path.ofNames at_) with
    | some s => .text s
    | none => .unreadable

def settingsPath (i : Invocation) : String :=
  i.config.getD (Path.join i.root Config.fileName)

/-- Opens the engine for an invocation. A server goes on without a store. -/
def openEngine (h : Host) (i : Invocation) : Disk × Option Engine :=
  match Config.ofSource? (settingsAt h.disk h.current (settingsPath i)) with
  | none => (h.disk, none)
  | some config =>
    match Engine.setup h.disk h.current h.dataDirectory i.root config with
    | (d, .ok e) => (d, some e)
    | (d, .error _) => (d, if i.action = .serve then some (Engine.detached i.root config) else none)

/-! ## Actions -/

def scanLine (s : ScanStats) : String :=
  line ("scanned " ++ toString s.scanned ++ " | indexed " ++ toString s.indexed
    ++ " | unchanged " ++ toString s.skipped ++ " | too large " ++ toString s.tooLarge
    ++ " | removed " ++ toString s.removed ++ " | chunks " ++ toString s.chunks)

def fileReport (path : String) : Except IndexFault Outcome → Output
  | .ok outcome =>
    let chunks :=
      match outcome with
      | .indexed n => some n
      | _ => none
    ⟨0, line (Json.record [("chunks", .ofOption .nat chunks), ("filepath", .text path),
      ("indexed", .bool chunks.isSome), ("success", .bool true)]).compact⟩
  | .error fault =>
    ⟨1, line (Json.record [("error", .text fault.message), ("filepath", .text path),
      ("success", .bool false)]).compact⟩

def checkReport (root path : String) (f : Option FileRecord) : String :=
  line (Json.record [("filepath", .text path), ("indexed", .bool f.isSome),
    ("indexed_at", .ofOption (fun f => f.row.indexedAt.toJson) f),
    ("language", .ofOption (fun f => .text f.row.facts.language) f),
    ("project_root", .ofOption (fun _ => .text root) f)]).compact

/-- A result of a search: a line with its score and place, and one with its signature. -/
def resultLines (r : RankedChunk) : String :=
  let c := r.chunk.row
  line (Decimal.fixed 3 true r.score ++ "  " ++ r.chunk.path ++ ":" ++ toString c.startLine
    ++ "-" ++ toString c.endLine ++ "  " ++ c.kind.word ++ " " ++ c.scopePath)
    ++ (if c.signature == "" then "" else line ("       " ++ c.signature))

def resultsText (rs : List RankedChunk) (json : Bool) : String :=
  if json then line (Json.array (rs.map RankedChunk.toJson)).pretty
  else if rs.isEmpty then line "No results."
  else String.join (rs.map resultLines)

/-- A context, followed by what is reported about it. -/
def contextText (c : Context) (json : Bool) : String :=
  line c.text ++ (if json then line c.metadata.pretty else "")

/-- Performs an action. A server without a client fails. -/
def perform (e : Engine) (env : Surroundings) : Action → Engine × Output
  | .index force =>
    let (e, s) := e.index env force
    (e, ⟨0, scanLine s.stats⟩)
  | .indexFile path =>
    let (e, r) := e.indexFile env path
    (e, fileReport path r)
  | .checkFile path => (e, ⟨0, checkReport e.root path (e.fileRecord env path)⟩)
  | .query text limit file json =>
    (e, ⟨0, resultsText (e.search env ⟨text, limit.getD 0, file⟩) json⟩)
  | .context question file line budget json =>
    (e, ⟨0, contextText (e.context env ⟨question, file, line, budget.getD 0, []⟩) json⟩)
  | .status => (e, ⟨0, line e.status.toJson.pretty⟩)
  | .clear => (e.clear env, ⟨0, ""⟩)
  | .serve => (e, ⟨1, ""⟩)

def surroundings (h : Host) (d : Disk) : Surroundings :=
  ⟨d, h.grammar, h.now⟩

def run (h : Host) (arguments : List String) : Disk × Output :=
  match Invocation.read arguments with
  | .error u => (h.disk, usageOutput u)
  | .ok i =>
    match openEngine h i with
    | (d, none) => (d, ⟨1, ""⟩)
    | (d, some e) =>
      let (e, out) := perform e (surroundings h d) i.action
      (e.save d, out)

/-- Takes messages one after the other; the replies are in the order of the messages. -/
def converse (env : Surroundings) (e : Engine) : List Json → Engine × List (Option Json)
  | [] => (e, [])
  | m :: ms =>
    let (e, r) := Server.take e env m
    let (e, rs) := converse env e ms
    (e, r :: rs)

/-- Runs the program as a server for a client that sends these messages. It fails if they do
not begin a session. -/
def serve (h : Host) (arguments : List String) (messages : List Json) :
    Disk × Nat × List (Option Json) :=
  match Invocation.read arguments with
  | .error u => (h.disk, (usageOutput u).code, [])
  | .ok i =>
    match openEngine h i with
    | (d, none) => (d, 1, [])
    | (d, some e) =>
      if Server.opensSession messages then
        let (e, replies) := converse (surroundings h d) e messages
        (e.save d, 0, replies)
      else (e.save d, 1, [])

end Command

end CodeIndex

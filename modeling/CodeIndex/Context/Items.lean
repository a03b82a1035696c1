import CodeIndex.Context.Section
import CodeIndex.Context.Window
import CodeIndex.Ranking.Rank
import CodeIndex.Store.Relations
/-!
# What a context is made of

The items of each section, gathered from the store and the files of the project. A chunk
that is within the window around the cursor, or in an earlier section, is left out.
-/

namespace CodeIndex

open Text

/-- A question asked at a place in the project. -/
structure ContextRequest where
  question : String
  currentFile : Option String := none
  cursorLine : Option Nat := none
  budget : Nat := 0
  diagnostics : List String := []
  deriving Repr, DecidableEq

/-- Where the items of a context come from. -/
structure ContextSource where
  store : Store
  /-- The text of a file of the project, if it can be read as text. -/
  readText : String → Option String
  weights : Signals
  searchLimit : Nat
  now : Instant

namespace ContextSource

/-! ## Chunks -/

/-- A chunk as a block of code under its place and name. -/
def renderChunk (c : ChunkRecord) : String :=
  let label :=
    match c.row.name with
    | none => ""
    | some name => " " ++ (if c.row.scopePath == "" then name else c.row.scopePath)
  "### " ++ c.path ++ ":" ++ toString c.row.startLine ++ "-" ++ toString c.row.endLine
    ++ " (" ++ c.row.kind.word ++ label ++ ")\n\x60\x60\x60\n" ++ c.row.content ++ "\n\x60\x60\x60"

def window? (src : ContextSource) (req : ContextRequest) : Option CursorWindow := do
  let path ← req.currentFile
  let text ← src.readText path
  CursorWindow.ofLines path (linesOf text) req.cursorLine

def enclosing? (src : ContextSource) (req : ContextRequest) : Option ChunkRecord := do
  let path ← req.currentFile
  let line ← req.cursorLine
  src.store.chunkAt? path line

/-! ## Names -/

def maxNames : Nat := 12

def maxPerName : Nat := 2

def lastPart (name : String) : String :=
  String.ofList (((pieces (· == '.') name.toList).getLast?).getD [])

/-- The words of a text that could be names, of three characters or more. -/
def longNames (text : String) : List String :=
  (Ranking.nameCandidates text).filter fun w => 3 ≤ w.length

/-- The names in question: what the chunk under the cursor calls, and the names around the
cursor and in the question. -/
def names (src : ContextSource) (req : ContextRequest) (window : Option CursorWindow) :
    List String :=
  let called :=
    match src.enclosing? req with
    | some c => (src.store.calleesOf c.id).map lastPart
    | none => []
  let around :=
    match window, req.cursorLine with
    | some w, some line => (w.near line).flatMap longNames
    | _, _ => []
  firstDistinct maxNames (called ++ around ++ longNames req.question)

/-! ## Sections -/

/-- The chunks, in order, whose ids are not in `seen`, each once. -/
def unseen (seen : List Nat) : List ChunkRecord → List ChunkRecord
  | [] => []
  | c :: cs => if seen.contains c.id then unseen seen cs else c :: unseen (c.id :: seen) cs

/-- The chunk lies within the window. -/
def isCovered (window : Option CursorWindow) (c : ChunkRecord) : Bool :=
  window.any (·.covers c)

/-- The definitions of the names in question, apart from what the cursor is in. -/
def definitions (src : ContextSource) (req : ContextRequest) (window : Option CursorWindow) :
    List ChunkRecord :=
  let enclosing := src.enclosing? req
  let found := (src.names req window).flatMap fun n => (src.store.named n).take maxPerName
  unseen [] (found.filter fun c => !isCovered window c && !enclosing.any (·.id == c.id))

/-- The best chunks for the question that are not shown yet. -/
def related (src : ContextSource) (req : ContextRequest) (window : Option CursorWindow)
    (seen : List Nat) : List ChunkRecord :=
  let ranked := Ranking.rank src.store req.question src.searchLimit req.currentFile src.weights
    src.now
  unseen seen ((ranked.map (·.chunk)).filter fun c => !isCovered window c)

/-- The chunk that an imported symbol is taken to stand for: the first of its name in
another file that is not shown yet. -/
def importTarget? (src : ContextSource) (path : String) (seen : List Nat) (symbol : String) :
    Option ChunkRecord :=
  (src.store.named symbol).find? fun c => c.path != path && !seen.contains c.id

def renderLine (symbol : String) (c : ChunkRecord) : String :=
  let header := if c.row.signature == "" then c.row.name.getD symbol else c.row.signature
  "- \x60" ++ header ++ "\x60 (" ++ c.path ++ ":" ++ toString c.row.startLine ++ ")"

/-- The symbols that a file imports with the chunks they stand for. -/
def imported (src : ContextSource) (req : ContextRequest) (seen : List Nat) :
    List (String × ChunkRecord) :=
  match req.currentFile with
  | none => []
  | some path =>
    let symbols := (src.store.importsOf path).map (·.row.fact.symbol)
    (distinct (symbols.filter (· != "*"))).filterMap fun n =>
      (src.importTarget? path seen n).map (n, ·)

/-- Names of files that describe a project, the preferred one first. -/
def docNames : List String :=
  ["README.md", "README", "readme.md", "README.rst"]

def docs (src : ContextSource) : List String :=
  match docNames.findSome? src.readText with
  | none => []
  | some text => if isBlankString text then [] else [trimmed text]

/-- Messages as single lines, blank ones left out. -/
def messages (diagnostics : List String) : List String :=
  (diagnostics.filter (!isBlankString ·)).map fun d => "- " ++ trimmed d

/-- The items of all sections, in the order of the sections. -/
def items (src : ContextSource) (req : ContextRequest) : List (SectionKind × List String) :=
  let window := src.window? req
  let definitions := src.definitions req window
  let seen := definitions.map (·.id)
  let related := src.related req window seen
  let seen := seen ++ related.map (·.id)
  [(.currentFile, (window.map CursorWindow.render).toList),
    (.definitions, definitions.map renderChunk),
    (.fullText, related.map renderChunk),
    (.imports, (src.imported req seen).map fun (n, c) => renderLine n c),
    (.projectDocs, src.docs),
    (.diagnostics, messages req.diagnostics)]

end ContextSource

end CodeIndex

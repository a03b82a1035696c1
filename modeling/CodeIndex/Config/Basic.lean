import CodeIndex.Chunk.Limits
import CodeIndex.Digest.Blake3
import CodeIndex.Ranking.Signal
import CodeIndex.Syntax.Language
import CodeIndex.Text.Lines
/-!
# Configuration

The settings of an index with their defaults, what makes them valid, and where the store of
a project lies.
-/

namespace CodeIndex

/-- Percentages of a token budget, one for each section of a context. -/
structure Shares where
  currentFile : Nat := 30
  definitions : Nat := 25
  fullText : Nat := 20
  imports : Nat := 10
  projectDocs : Nat := 10
  diagnostics : Nat := 5
  deriving Repr, DecidableEq

/-- The sum of the shares, of which the last 32 bits count. -/
def Shares.total (s : Shares) : Nat :=
  (s.currentFile + s.definitions + s.fullText + s.imports + s.projectDocs + s.diagnostics)
    % Nat.pow 2 32

/-- The weights that apply unless others are configured. -/
def Signals.defaultWeights : Signals where
  fts := 0.30
  name := 0.20
  kind := 0.10
  proximity := 0.10
  recency := 0.05
  importGraph := 0.15
  access := 0.10

/-- The names of the signals in a fixed order, with their numbers. -/
def Signals.named (s : Signals) : List (String × Float) :=
  [("fts", s.fts), ("name", s.name), ("kind", s.kind), ("proximity", s.proximity),
    ("recency", s.recency), ("import_graph", s.importGraph), ("access", s.access)]

namespace Config

/-- Extensions of prose and settings, which are indexed besides those of languages. -/
def proseExtensions : List String :=
  ["md", "txt", "rst", "toml"]

def defaultInclude : List String :=
  let all := (Language.knownExtensions ++ proseExtensions).mergeSort fun a b => !(b < a)
  (Text.withoutRuns all).map ("**/*." ++ ·)

/-- Patterns for files that others have produced. -/
def defaultExclude : List String :=
  (["node_modules", ".git", "__pycache__", ".venv", "venv", "dist", "build", ".next", ".nuxt",
    "target", ".idea"].map fun d => "**/" ++ d ++ "/**")
  ++ ["**/*.min.js", "**/*.min.css", "**/*.map", "**/*.lock"]

end Config

/-- The settings of an index. -/
structure Config where
  includePatterns : List String := Config.defaultInclude
  excludePatterns : List String := Config.defaultExclude
  batchSize : Nat := 50
  debounceMillis : Nat := 1000
  maxFileBytes : Nat := 1048576
  maxChunksPerFile : Nat := 200
  maxChunkChars : Nat := 4000
  windowLines : Nat := 60
  overlapLines : Nat := 10
  minModuleLines : Nat := 5
  tokenBudget : Nat := 4000
  searchLimit : Nat := 10
  storePath : Option String := none
  /-- Further extensions and the languages they stand for. -/
  extraExtensions : List (String × String) := []
  weights : Signals := Signals.defaultWeights
  shares : Shares := {}

namespace Config

def limits (c : Config) : ChunkLimits where
  maxChunks := c.maxChunksPerFile
  maxChars := c.maxChunkChars
  windowLines := c.windowLines
  overlapLines := c.overlapLines
  minModuleLines := c.minModuleLines

/-- What makes settings invalid. -/
inductive Fault where
  | notPositive (field : String)
  | overlapTooLarge
  | nothingIncluded
  | badWeight (signal : String)
  | badShares (total : Nat)
  | unknownLanguage (extension language : String)
  deriving Repr, DecidableEq

def Fault.message : Fault → String
  | notPositive field => field ++ " must be positive"
  | overlapTooLarge => "fallback_overlap_lines must be smaller than fallback_window_lines"
  | nothingIncluded => "at least one include pattern must be specified"
  | badWeight signal => "weights." ++ signal ++ " must be a non-negative number"
  | badShares total => "bucket shares must sum to 100, got " ++ toString total
  | unknownLanguage extension language =>
    "extra_extensions." ++ extension ++ ": unknown language " ++ language

/-- A weight is a finite number that is not negative. -/
def isWeight (x : Float) : Bool :=
  x.isFinite && 0.0 ≤ x

/-- The faults of the settings, in the order in which they are looked for. -/
def faults (c : Config) : List Fault :=
  let positive (n : Nat) (field : String) : List Fault :=
    if n == 0 then [.notPositive field] else []
  positive c.batchSize "batch_size"
    ++ positive c.maxFileBytes "max_file_bytes"
    ++ positive c.maxChunksPerFile "max_chunks_per_file"
    ++ positive c.maxChunkChars "max_chunk_chars"
    ++ positive c.windowLines "fallback_window_lines"
    ++ (if c.windowLines ≤ c.overlapLines then [.overlapTooLarge] else [])
    ++ positive c.tokenBudget "token_budget"
    ++ positive c.searchLimit "search_limit"
    ++ (if c.includePatterns.isEmpty then [.nothingIncluded] else [])
    ++ ((c.weights.named.filter fun (_, w) => !isWeight w).map fun (n, _) => .badWeight n)
    ++ (if c.shares.total != 100 then [.badShares c.shares.total] else [])
    ++ ((c.extraExtensions.filter fun (_, l) => (Language.canonical? l).isNone).map fun (e, l) =>
        .unknownLanguage e l)

def fault? (c : Config) : Option Fault :=
  c.faults.head?

/-- The patterns of included files, with one for each further extension. Dots at the start
of an extension are left out. -/
def allIncludes (c : Config) : List String :=
  c.includePatterns ++ c.extraExtensions.map fun (e, _) =>
    "**/*." ++ String.ofList (Text.dropStart (· == '.') e.toList)

/-! ## Languages of files -/

/-- The last component of a path, as far as it is a name. -/
def fileName? (path : String) : Option (List Char) :=
  let parts := (Text.pieces (· == '/') path.toList).filter fun p => !p.isEmpty && p != ['.']
  match parts.getLast? with
  | some p => if p == ['.', '.'] then none else some p
  | none => none

/-- What follows the last dot of a file's name; a dot at its start does not count. -/
def extension? (path : String) : Option (List Char) := do
  let name ← fileName? path
  let (stem, ext) ← Text.splitLast ['.'] name
  if stem.isEmpty then none else some ext

/-- The language of a file by its extension. A further extension wins over a known one. -/
def detectLanguage (extra : List (String × String)) (path : String) : Option String := do
  let ext := String.ofList ((← extension? path).map Char.toLower)
  match extra.find? (·.1 == ext) with
  | some (_, language) => Language.canonical? language
  | none => Language.ofExtension? ext

/-! ## Where the store lies -/

/-- The identity of a project: the start of the hash of its root. -/
def storeKey (root : String) : String :=
  String.ofList ((Digest.blake3 root.toUTF8.toList).toList.take 16)

/-- The store of the project at `root`: where it is configured, or below the directory for
data. -/
def storePathFor (c : Config) (dataDirectory root : String) : String :=
  c.storePath.getD (dataDirectory ++ "/codectx/stores/" ++ storeKey root ++ ".db")

end Config

end CodeIndex

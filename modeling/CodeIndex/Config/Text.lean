import CodeIndex.Config.Basic
import CodeIndex.Json.Printer
import CodeIndex.Json.Reader
/-!
# Settings as text

Settings are kept as a JSON record. Reading takes the fields that are given and the defaults
for the rest; a record may also be given as an array of its fields in order. Text that holds
no such record stands for the defaults.
-/

namespace CodeIndex.Config

/-- The fields of a record with these names, in order: absent ones are `none`. A record may
not repeat one of them. An array gives the first fields and may not be longer. -/
def fieldsOf (names : List String) : Json → Option (List (Option Json))
  | .record fields =>
    names.mapM fun name =>
      match fields.filter (·.1 == name) with
      | [] => some none
      | [(_, j)] => some (some j)
      | _ => none
  | .array items =>
    if items.length ≤ names.length then
      some (items.map some ++ List.replicate (names.length - items.length) none)
    else none
  | _ => none

/-- The value of a field, or its default where it is absent. -/
def given (read : Json → Option α) (dflt : α) : Option Json → Option α
  | none => some dflt
  | some j => read j

def weightNames : List String :=
  ["fts", "name", "kind", "proximity", "recency", "import_graph", "access"]

/-- Weights; `dflt` gives the absent ones. -/
def weights? (dflt : Signals) (j : Json) : Option Signals := do
  let [a, b, c, d, e, f, g] ← fieldsOf weightNames j | none
  return {
    fts := ← given Json.float? dflt.fts a
    name := ← given Json.float? dflt.name b
    kind := ← given Json.float? dflt.kind c
    proximity := ← given Json.float? dflt.proximity d
    recency := ← given Json.float? dflt.recency e
    importGraph := ← given Json.float? dflt.importGraph f
    access := ← given Json.float? dflt.access g }

def shareNames : List String :=
  ["current_file", "definitions", "full_text", "imports", "project_docs", "diagnostics"]

/-- A share is an unsigned number of 32 bits. -/
def share? (j : Json) : Option Nat :=
  j.upTo? (Nat.pow 2 32 - 1)

/-- Shares; `dflt` gives the absent ones. -/
def shares? (dflt : Shares) (j : Json) : Option Shares := do
  let [a, b, c, d, e, f] ← fieldsOf shareNames j | none
  return {
    currentFile := ← given share? dflt.currentFile a
    definitions := ← given share? dflt.definitions b
    fullText := ← given share? dflt.fullText c
    imports := ← given share? dflt.imports d
    projectDocs := ← given share? dflt.projectDocs e
    diagnostics := ← given share? dflt.diagnostics f }

/-- A text, or nothing for `null`. -/
def optionalText? : Json → Option (Option String)
  | .null => some none
  | .text s => some (some s)
  | _ => none

/-- A map from texts to texts; of a repeated key the last value counts. The keys are in
order. -/
def textMap? : Json → Option (List (String × String))
  | .record fields => do
    let pairs ← fields.mapM fun (k, j) => j.text?.map (k, ·)
    let latest := pairs.reverse.foldl
      (fun seen p => if seen.any (·.1 == p.1) then seen else p :: seen) []
    return latest.mergeSort fun a b => !(b.1 < a.1)
  | _ => none

def fieldNames : List String :=
  ["include_patterns", "exclude_patterns", "batch_size", "debounce_ms", "max_file_bytes",
    "max_chunks_per_file", "max_chunk_chars", "fallback_window_lines", "fallback_overlap_lines",
    "min_module_lines", "token_budget", "search_limit", "store_path", "extra_extensions",
    "weights", "buckets"]

def ofJson? (j : Json) : Option Config := do
  let dflt : Config := {}
  let [includes, excludes, batch, debounce, bytes, chunks, chars, window, overlap, lines, budget,
    limit, store, extra, weights, shares] ← fieldsOf fieldNames j | none
  return {
    includePatterns := ← given Json.texts? dflt.includePatterns includes
    excludePatterns := ← given Json.texts? dflt.excludePatterns excludes
    batchSize := ← given Json.word? dflt.batchSize batch
    debounceMillis := ← given Json.word? dflt.debounceMillis debounce
    maxFileBytes := ← given Json.word? dflt.maxFileBytes bytes
    maxChunksPerFile := ← given Json.word? dflt.maxChunksPerFile chunks
    maxChunkChars := ← given Json.word? dflt.maxChunkChars chars
    windowLines := ← given Json.word? dflt.windowLines window
    overlapLines := ← given Json.word? dflt.overlapLines overlap
    minModuleLines := ← given Json.word? dflt.minModuleLines lines
    tokenBudget := ← given Json.word? dflt.tokenBudget budget
    searchLimit := ← given Json.word? dflt.searchLimit limit
    storePath := ← given optionalText? dflt.storePath store
    extraExtensions := ← given textMap? dflt.extraExtensions extra
    weights := ← given (weights? dflt.weights) dflt.weights weights
    shares := ← given (shares? dflt.shares) dflt.shares shares }

/-- Settings from a text; the defaults when it holds none. -/
def ofText (s : String) : Config :=
  ((Json.read? s).bind ofJson?).getD {}

/-- What is found where settings are kept. -/
inductive Source where
  | absent
  /-- No file that can be read as text. -/
  | unreadable
  | text (s : String)

/-- The settings of a source; `none` when it cannot be read. -/
def ofSource? : Source → Option Config
  | .absent => some {}
  | .unreadable => none
  | .text s => some (ofText s)

def unreadableMessage (path : String) : String :=
  "failed to read config: " ++ path

/-- The name of the file with the settings of a project. -/
def fileName : String := ".codectx.json"

def weightsJson (w : Signals) : Json :=
  .record (w.named.map fun (n, x) => (n, .float x))

def sharesJson (s : Shares) : Json :=
  .record [("current_file", .nat s.currentFile), ("definitions", .nat s.definitions),
    ("full_text", .nat s.fullText), ("imports", .nat s.imports),
    ("project_docs", .nat s.projectDocs), ("diagnostics", .nat s.diagnostics)]

/-- Settings as a record. A store path is written only when it is set. -/
def toJson (c : Config) : Json :=
  .record ([
    ("include_patterns", .texts c.includePatterns),
    ("exclude_patterns", .texts c.excludePatterns),
    ("batch_size", .nat c.batchSize),
    ("debounce_ms", .nat c.debounceMillis),
    ("max_file_bytes", .nat c.maxFileBytes),
    ("max_chunks_per_file", .nat c.maxChunksPerFile),
    ("max_chunk_chars", .nat c.maxChunkChars),
    ("fallback_window_lines", .nat c.windowLines),
    ("fallback_overlap_lines", .nat c.overlapLines),
    ("min_module_lines", .nat c.minModuleLines),
    ("token_budget", .nat c.tokenBudget),
    ("search_limit", .nat c.searchLimit)]
    ++ (match c.storePath with
        | some p => [("store_path", .text p)]
        | none => [])
    ++ [("extra_extensions", .record (c.extraExtensions.map fun (e, l) => (e, .text l))),
      ("weights", weightsJson c.weights),
      ("buckets", sharesJson c.shares)])

def toText (c : Config) : String :=
  c.toJson.pretty

end CodeIndex.Config

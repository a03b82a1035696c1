import CodeIndex.Ranking.ModuleKey
import CodeIndex.Ranking.Signal
import CodeIndex.Store.Search
/-!
# Ranking

The chunks for a question: those the full-text search finds and those whose name is a word
of the question, ordered by score.
-/

namespace CodeIndex

/-- A chunk with its score and what the score is made of. -/
structure RankedChunk where
  chunk : ChunkRecord
  score : Float
  signals : Signals

namespace Ranking

/-- Full-text candidates fetched for each requested result. -/
def overfetch : Nat := 3

/-- The keys of an import: its module, and the symbol within it. -/
def keysOfImport (i : Import) : List String :=
  let base := importKey i.source
  if base == "" then []
  else if i.symbol == "" || i.symbol == "*" || i.symbol == base then [base]
  else [base ++ "." ++ i.symbol, base]

/-- The keys of the modules that a file imports, in order and without repeats. -/
def importedKeys (s : Store) (path : String) : List String :=
  Text.withoutRuns
    (Store.sortedBy (· < ·) ((s.importsOf path).flatMap fun i => keysOfImport i.row.fact))

/-- Adds the chunks that are not among the candidates yet. -/
def addNamed (candidates : List (ChunkRecord × Option Float)) (found : List ChunkRecord) :
    List (ChunkRecord × Option Float) :=
  found.foldl (fun cs c => if cs.any (·.1.id == c.id) then cs else cs ++ [(c, none)]) candidates

/-- The candidates for a question: what the full-text search finds, with its rank, and then
the chunks with the names in the question. -/
def candidates (s : Store) (query : String) (limit : Nat) : List (ChunkRecord × Option Float) :=
  let hits := (s.searchText query (limit * overfetch)).map fun (c, r) => (c, some r)
  (nameCandidates query).foldl (fun cs name => addNamed cs (s.named name)) hits

/-- The best rank among candidates, or zero. -/
def bestRank (cs : List (ChunkRecord × Option Float)) : Float :=
  (cs.filterMap (·.2)).foldl (fun best r => if r < best then r else best) 0.0

def signalsOf (query : String) (currentFile : Option String) (imported : List String)
    (now : Instant) (text : Float) (c : ChunkRecord) : Signals where
  fts := text
  name := nameStrength c.row.name query
  kind := kindStrength c.row.kind
  proximity := proximity c.path currentFile
  recency := fileRecency c.file.facts.mtime now
  importGraph := importStrength c.path imported
  access := accessRecency c.file.lastAccessed now

/-- Higher scores first. -/
def comesBefore (a b : RankedChunk) : Bool :=
  Decimal.place b.score ≤ Decimal.place a.score

/-- The best chunks for a question, at least one where there is any. Equal scores keep the
order of the candidates. -/
def rank (s : Store) (query : String) (limit : Nat) (currentFile : Option String)
    (weights : Signals) (now : Instant) : List RankedChunk :=
  let limit := max limit 1
  let cs := candidates s query limit
  let best := bestRank cs
  let imported := (currentFile.map (importedKeys s)).getD []
  let scored := cs.map fun (c, r) =>
    let signals := signalsOf query currentFile imported now (textStrength r best) c
    ⟨c, signals.score weights, signals⟩
  (scored.mergeSort comesBefore).take limit

end Ranking

end CodeIndex

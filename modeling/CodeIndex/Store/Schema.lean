/-!
# The schema of a store

A store's file carries the version of its schema. Opening the store brings an older schema
up to date step by step, and refuses a newer one.
-/

namespace CodeIndex

/-- The version of a store's schema and the names of its tables, indexes and triggers. -/
structure Schema where
  version : Int := 0
  objects : List String := []
  deriving Repr, DecidableEq

/-- Why a store cannot be opened. -/
inductive SchemaFault where
  | negative (version : Int)
  | tooNew (version : Int)
  /-- The second step finds no table of chunks. -/
  | chunksMissing
  deriving Repr, DecidableEq

namespace Schema

def latest : Nat := 2

/-- What the first step makes: the tables, and indexes on them. -/
def tables : List String :=
  ["calls", "chunks", "files", "idx_calls_callee", "idx_calls_chunk", "idx_chunks_file",
    "idx_chunks_kind", "idx_chunks_name", "idx_imports_file", "idx_imports_source",
    "idx_imports_symbol", "idx_type_refs_chunk", "idx_type_refs_name", "imports", "type_refs"]

/-- What the second step makes: the full-text index, and what keeps it up to date. -/
def fullText : List String :=
  ["chunks_ad", "chunks_ai", "chunks_au", "chunks_fts"]

/-- The schema with more objects; those that exist already stay. -/
def create (s : Schema) (names : List String) (version : Int) : Schema where
  version := version
  objects := (s.objects ++ names.filter (!s.objects.contains ·)).mergeSort fun a b => !(b < a)

def addTables (s : Schema) : Schema :=
  if s.version < 1 then s.create tables 1 else s

/-- The second step, which needs the table of chunks. -/
def addFullText (s : Schema) : Schema × Option SchemaFault :=
  if 2 ≤ s.version then (s, none)
  else if s.objects.contains "chunks" then (s.create fullText 2, none)
  else (s, some .chunksMissing)

/-- The schema brought up to date. A step that fails changes nothing. -/
def upgrade (s : Schema) : Schema × Option SchemaFault :=
  if s.version < 0 then (s, some (.negative s.version))
  else if latest < s.version then (s, some (.tooNew s.version))
  else s.addTables.addFullText

/-- Brings the schema up to date `n` times; what each time gave. -/
def upgrades (s : Schema) : Nat → List (Schema × Option SchemaFault)
  | 0 => []
  | n + 1 => s.upgrade :: upgrades s.upgrade.1 n

end Schema

def SchemaFault.message : SchemaFault → String
  | negative v => "sqlite error: Integer " ++ toString v ++ " out of range at index 0"
  | tooNew v =>
    "store schema v" ++ toString v ++ " is newer than supported v" ++ toString Schema.latest
  | chunksMissing => "schema migration to v2 failed: no such table: main.chunks"

end CodeIndex

import CodeIndex.Chunk.Basic
import CodeIndex.FullText.Index
import CodeIndex.Relation.Import
import CodeIndex.Store.Table
import CodeIndex.Time.Instant
/-!
# The store

What an index keeps: the files, their chunks and imports, and the names that chunks call
and refer to. Every chunk and import belongs to a file, and every call and type reference
to a chunk; what a row belongs to exists. Beside the rows stands a full-text index of the
chunks.
-/

namespace CodeIndex

/-- What is known about a file when it is indexed. -/
structure FileFacts where
  path : String
  hash : String
  mtime : Instant
  language : String
  lineCount : Nat
  deriving Repr, DecidableEq

/-- A file of the index. -/
structure FileRow where
  facts : FileFacts
  indexedAt : Instant
  lastAccessed : Option Instant
  deriving Repr, DecidableEq

/-- A chunk of a file, without the names it calls and refers to. -/
structure ChunkRow where
  fileId : Nat
  kind : ChunkKind
  name : Option String
  signature : String
  docstring : Option String
  startLine : Nat
  endLine : Nat
  content : String
  scopePath : String
  deriving Repr, DecidableEq

/-- An import of a file. -/
structure ImportRow where
  fileId : Nat
  fact : Import

/-- A name called in a chunk. -/
structure CallRow where
  chunkId : Nat
  callee : String
  deriving Repr, DecidableEq

/-- A type referred to in a chunk. -/
structure TypeRow where
  chunkId : Nat
  name : String
  deriving Repr, DecidableEq

/-- The tables of an index. -/
structure Store where
  files : Table FileRow := {}
  chunks : Table ChunkRow := {}
  /-- The full-text index of the chunks, under their ids. -/
  documents : List (FullText.Document Nat) := []
  imports : Table ImportRow := {}
  calls : Table CallRow := {}
  typeRefs : Table TypeRow := {}

def ChunkRow.ofChunk (fileId : Nat) (c : Chunk) : ChunkRow where
  fileId := fileId
  kind := c.kind
  name := c.name
  signature := c.signature
  docstring := c.docstring
  startLine := c.startLine
  endLine := c.endLine
  content := c.content
  scopePath := c.scopePath

/-- An unsigned number of 64 bits as the signed number with the same bits. Lines are
compared in this form. -/
def signedWord (n : Nat) : Int :=
  if n < Nat.pow 2 63 then n else (n : Int) - Nat.pow 2 64

namespace ChunkRow

/-- The first line as it is compared. -/
def first (c : ChunkRow) : Int :=
  signedWord c.startLine

/-- The last line as it is compared. -/
def last (c : ChunkRow) : Int :=
  signedWord c.endLine

/-- The chunk starts before another, or with it and ends before it. -/
def startsBefore (a b : ChunkRow) : Bool :=
  a.first < b.first || (a.first == b.first && a.last < b.last)

end ChunkRow

/-- Why a write is refused. -/
inductive StoreFault where
  /-- A row would belong to a file that does not exist. -/
  | unknownFile
  /-- The store has no tables. -/
  | noTables
  deriving Repr, DecidableEq

def StoreFault.message : StoreFault → String
  | unknownFile => "FOREIGN KEY constraint failed"
  | noTables => "no such table: files"

end CodeIndex

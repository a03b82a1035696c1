import CodeIndex.Decimal.Binary
import CodeIndex.Store.Basic
import CodeIndex.Store.Schema
/-!
# Reading from the store

Files, chunks and imports with what they belong to, in a definite order: by path in the
order of code points, then by line, then by id.
-/

namespace CodeIndex

/-- A file with its id. -/
structure FileRecord where
  id : Nat
  row : FileRow
  deriving Repr, DecidableEq

/-- A chunk with its id and its file. -/
structure ChunkRecord where
  id : Nat
  row : ChunkRow
  file : FileRow
  deriving Repr, DecidableEq

/-- An import with its id and its file. -/
structure ImportRecord where
  id : Nat
  row : ImportRow
  file : FileRow

def ChunkRecord.path (c : ChunkRecord) : String :=
  c.file.facts.path

def ImportRecord.path (i : ImportRecord) : String :=
  i.file.facts.path

/-- The numbers of rows of a store. -/
structure StoreStats where
  files : Nat
  chunks : Nat
  imports : Nat
  calls : Nat
  typeRefs : Nat
  /-- The number of files of each language, in the order of the languages. -/
  byLanguage : List (String × Nat)
  lastIndexed : Option Instant
  schemaVersion : Nat
  deriving Repr, DecidableEq

namespace Store

/-- Sorted by an order that a strict comparison gives; equal members keep their order. -/
def sortedBy (lt : α → α → Bool) (as : List α) : List α :=
  as.mergeSort fun a b => !lt b a

/-- Comparison first by text, then by number. -/
def textThenInt (a b : String × Int) : Bool :=
  a.1 < b.1 || (a.1 == b.1 && a.2 < b.2)

/-! ## Files -/

def file? (s : Store) (path : String) : Option FileRecord :=
  (s.files.rows.find? fun r => r.2.facts.path == path).map fun r => ⟨r.1, r.2⟩

def allFiles (s : Store) : List FileRecord :=
  sortedBy (fun a b => a.row.facts.path < b.row.facts.path)
    (s.files.rows.map fun r => ⟨r.1, r.2⟩)

/-- The store holds the file with exactly this content. -/
def isUpToDate (s : Store) (path hash : String) : Bool :=
  s.files.rows.any fun r => r.2.facts.path == path && r.2.facts.hash == hash

/-! ## Chunks -/

/-- The chunks that satisfy `p`, with their files, in the order of ids. -/
def chunkRecords (s : Store) (p : Nat → ChunkRow → Bool) : List ChunkRecord :=
  (s.chunks.rows.filter fun r => p r.1 r.2).filterMap fun r =>
    (s.files.get? r.2.fileId).map fun f => ⟨r.1, r.2, f⟩

def byPlace (cs : List ChunkRecord) : List ChunkRecord :=
  sortedBy (fun a b => textThenInt (a.path, a.row.first) (b.path, b.row.first)) cs

def chunk? (s : Store) (id : Nat) : Option ChunkRecord :=
  (s.chunkRecords fun i _ => i == id).head?

/-- The chunks of the file with that path, in the order of ids. -/
def chunksIn (s : Store) (path : String) : List ChunkRecord :=
  match s.file? path with
  | some f => s.chunkRecords fun _ c => c.fileId == f.id
  | none => []

/-- The chunks of a file in source order. -/
def chunksOf (s : Store) (path : String) : List ChunkRecord :=
  sortedBy (fun a b => a.row.first < b.row.first
    || (a.row.first == b.row.first && b.row.last < a.row.last)) (s.chunksIn path)

/-- The difference of two lines as it is compared: exact where it fits a signed number of 64
bits, and otherwise the nearest float to the difference of the nearest floats. -/
def lineGap (first last : Int) : Int :=
  let gap := last - first
  if -(Nat.pow 2 63 : Int) ≤ gap && gap < (Nat.pow 2 63 : Int) then gap
  else Decimal.nearestInt (Decimal.nearestInt last - Decimal.nearestInt first)

/-- The shortest chunk of a file that spans a line; of several the one that starts first. -/
def chunkAt? (s : Store) (path : String) (line : Nat) : Option ChunkRecord :=
  let line := signedWord line
  let spanning := (s.chunksIn path).filter fun c => c.row.first ≤ line && line ≤ c.row.last
  let length (c : ChunkRecord) : Int := lineGap c.row.first c.row.last
  (sortedBy (fun a b => length a < length b
    || (length a == length b && a.row.startsBefore b.row)) spanning).head?

def named (s : Store) (name : String) : List ChunkRecord :=
  byPlace (s.chunkRecords fun _ c => c.name == some name)

/-! ## Imports -/

/-- The imports that satisfy `p`, with their files, in the order of ids. -/
def importRecords (s : Store) (p : ImportRow → Bool) : List ImportRecord :=
  (s.imports.rows.filter fun r => p r.2).filterMap fun r =>
    (s.files.get? r.2.fileId).map fun f => ⟨r.1, r.2, f⟩

/-- The imports of a file by line. -/
def importsOf (s : Store) (path : String) : List ImportRecord :=
  match s.file? path with
  | some f =>
    sortedBy (fun a b => signedWord a.row.fact.line < signedWord b.row.fact.line)
      (s.importRecords (·.fileId == f.id))
  | none => []

/-! ## Numbers -/

def languageCounts (s : Store) : List (String × Nat) :=
  let languages := s.files.rows.map (·.2.facts.language)
  ((sortedBy (· < ·) languages).eraseDups).map fun l => (l, languages.count l)

def latest? (ts : List Instant) : Option Instant :=
  ts.foldl (fun best t =>
    match best with
    | some b => if b.isBefore t then some t else some b
    | none => some t) none

/-- The numbers of rows, and when the last file was indexed. -/
def stats (s : Store) : StoreStats where
  files := s.files.size
  chunks := s.chunks.size
  imports := s.imports.size
  calls := s.calls.size
  typeRefs := s.typeRefs.size
  byLanguage := s.languageCounts
  lastIndexed := latest? (s.files.rows.map (·.2.indexedAt))
  schemaVersion := Schema.latest

end Store

end CodeIndex

import CodeIndex.Store.Trigger
/-!
# Writing to the store

Each write happens as a whole or not at all. Rows that belong to a row that goes, go with it,
and the full-text index follows the chunks.
-/

namespace CodeIndex.Store

def fileId? (s : Store) (path : String) : Option Nat :=
  (s.files.rows.find? fun r => r.2.facts.path == path).map (·.1)

/-! ## Files -/

/-- Inserts a file, or updates the one with the same path, which keeps its id and the time
it was opened at. An id is given up in either case. -/
def upsertFile (s : Store) (now : Instant) (f : FileFacts) : Store × Nat :=
  match s.fileId? f.path with
  | some id =>
    let files := s.files.update id fun r => { r with facts := f, indexedAt := now }
    ({ s with files := files.skip }, id)
  | none =>
    let files := s.files.append [⟨f, now, none⟩]
    ({ s with files := files }, files.last)

/-- Notes when a file was opened, and whether there is such a file. -/
def markAccessed (s : Store) (path : String) (at_ : Instant) : Store × Bool :=
  match s.fileId? path with
  | some id =>
    ({ s with files := s.files.update id fun r => { r with lastAccessed := some at_ } }, true)
  | none => (s, false)

/-! ## Chunks and imports -/

def dropChunks (s : Store) (fileId : Nat) : Store :=
  let gone := s.chunks.idsOf (·.fileId == fileId)
  { s.eraseRows (·.fileId == fileId) with
    calls := s.calls.erase fun c => gone.contains c.chunkId
    typeRefs := s.typeRefs.erase fun t => gone.contains t.chunkId }

def dropImports (s : Store) (fileId : Nat) : Store :=
  { s with imports := s.imports.erase (·.fileId == fileId) }

/-- The first chunk of each range of lines. -/
def firstOfRanges (cs : List Chunk) : List Chunk :=
  cs.foldl (fun kept c => if kept.any (·.range == c.range) then kept else kept ++ [c]) []

def addChunks (s : Store) (fileId : Nat) (cs : List Chunk) : Store :=
  let ids := Table.numbered (s.chunks.last + 1) cs
  { s.insertRows (cs.map (ChunkRow.ofChunk fileId)) with
    calls := s.calls.append (ids.flatMap fun (id, c) => c.calls.map (⟨id, ·⟩))
    typeRefs := s.typeRefs.append (ids.flatMap fun (id, c) => c.typeRefs.map (⟨id, ·⟩)) }

def addImports (s : Store) (fileId : Nat) (is : List Import) : Store :=
  { s with imports := s.imports.append (is.map (⟨fileId, ·⟩)) }

/-- Replaces the chunks of a file, and says how many there are now. Of chunks with the same
lines only the first is kept. -/
def replaceChunks (s : Store) (fileId : Nat) (cs : List Chunk) :
    Except StoreFault (Store × Nat) :=
  if !cs.isEmpty && !s.files.has fileId then .error .unknownFile
  else
    let kept := firstOfRanges cs
    .ok ((s.dropChunks fileId).addChunks fileId kept, kept.length)

def replaceImports (s : Store) (fileId : Nat) (is : List Import) : Except StoreFault Store :=
  if !is.isEmpty && !s.files.has fileId then .error .unknownFile
  else .ok ((s.dropImports fileId).addImports fileId is)

/-- Writes a file with all its chunks and imports; returns its id and the number of chunks. -/
def writeIndex (s : Store) (now : Instant) (f : FileFacts) (cs : List Chunk) (is : List Import) :
    Store × Nat × Nat :=
  let (s, id) := s.upsertFile now f
  let kept := firstOfRanges cs
  let s := (s.dropChunks id).addChunks id kept
  ((s.dropImports id).addImports id is, id, kept.length)

/-! ## Removal -/

/-- Removes a file with all that belongs to it, and says whether there was one. -/
def deleteFile (s : Store) (path : String) : Store × Bool :=
  match s.fileId? path with
  | some id =>
    let s := (s.dropChunks id).dropImports id
    ({ s with files := s.files.erase (·.facts.path == path) }, true)
  | none => (s, false)

def clear (s : Store) : Store :=
  { s.eraseRows fun _ => true with
    files := s.files.erase fun _ => true
    imports := s.imports.erase fun _ => true
    calls := s.calls.erase fun _ => true
    typeRefs := s.typeRefs.erase fun _ => true }

end CodeIndex.Store

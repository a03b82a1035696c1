import CodeIndex.Store.Basic
/-!
# Keeping the full-text index

The full-text index of a store is written by triggers alone: each chunk that is inserted, removed
or changed is followed by a write to the index. What is taken out of the index is given by its old
texts, which the index itself does not keep.
-/

namespace CodeIndex.Store

open FullText

/-- The texts in which a chunk is found. -/
def columnsOf (c : ChunkRow) : List String :=
  [c.name.getD "", c.signature, c.docstring.getD "", c.content, c.scopePath]

/-- The document of a chunk. -/
def documentOf (r : Nat × ChunkRow) : Document Nat :=
  ⟨r.1, (columnsOf r.2).map wordsOf⟩

/-! ## Triggers -/

/-- The index after a chunk was inserted. -/
def afterInsert (docs : List (Document Nat)) (new : Nat × ChunkRow) : List (Document Nat) :=
  addDocument (documentOf new) docs

/-- The index after a chunk was removed. -/
def afterDelete (docs : List (Document Nat)) (old : Nat × ChunkRow) : List (Document Nat) :=
  dropDocument (documentOf old) docs

/-- The index after a chunk was changed. -/
def afterUpdate (docs : List (Document Nat)) (old new : Nat × ChunkRow) : List (Document Nat) :=
  addDocument (documentOf new) (dropDocument (documentOf old) docs)

/-! ## Rows with their triggers -/

/-- Inserts chunks one after the other. -/
def insertRows (s : Store) (rows : List ChunkRow) : Store :=
  { s with
    chunks := s.chunks.append rows
    documents := (Table.numbered (s.chunks.last + 1) rows).foldl afterInsert s.documents }

/-- Removes the chunks that satisfy `p` one after the other. -/
def eraseRows (s : Store) (p : ChunkRow → Bool) : Store :=
  { s with
    chunks := s.chunks.erase p
    documents := (s.chunks.rows.filter fun r => p r.2).foldl afterDelete s.documents }

/-- Changes the chunk under an id. The writes of a store do without: they remove the chunks of a
file and insert others. -/
def updateRow (s : Store) (id : Nat) (f : ChunkRow → ChunkRow) : Store :=
  match s.chunks.get? id with
  | some old =>
    { s with
      chunks := s.chunks.update id f
      documents := afterUpdate s.documents (id, old) (id, f old) }
  | none => s

end CodeIndex.Store

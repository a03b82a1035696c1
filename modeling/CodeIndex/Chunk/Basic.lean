import CodeIndex.Chunk.Kind
import CodeIndex.Chunk.Limits
import CodeIndex.Text.Lines
/-!
# Chunks

A chunk is a stretch of whole lines of a file, with what is known about it: the kind and
name of the definition it holds, its place among the definitions around it, and the names
it calls and refers to.
-/

namespace CodeIndex

open Text

/-- A chunk of a file. Lines are counted from one. -/
structure Chunk where
  kind : ChunkKind
  name : Option String
  signature : String
  docstring : Option String
  startLine : Nat
  endLine : Nat
  content : String
  /-- Names of the definitions around the chunk and its own, joined by dots. -/
  scopePath : String
  calls : List String
  typeRefs : List String
  deriving Repr, DecidableEq

namespace Chunk

def range (c : Chunk) : Nat × Nat :=
  (c.startLine, c.endLine)

/-- Source order: by first line, and of chunks that start together the longer one first. -/
def comesBefore (a b : Chunk) : Bool :=
  a.startLine < b.startLine || (a.startLine == b.startLine && b.endLine ≤ a.endLine)

end Chunk

/-- The rows `first` to `last` of a text, counted from zero, as far as the text has them. -/
def rowsText (ls : List String) (first last : Nat) : String :=
  joinLines ((ls.drop first).take (last + 1 - first))

end CodeIndex

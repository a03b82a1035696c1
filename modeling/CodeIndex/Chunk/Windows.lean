import CodeIndex.Chunk.Basic
import CodeIndex.Relation.CallName
/-!
# Chunks of files without structure

Overlapping windows of lines. A file that fits one window is a single chunk, and windows
without content are left out.
-/

namespace CodeIndex

open Text

/-- How far a window starts after the one before it. -/
def ChunkLimits.step (l : ChunkLimits) : Nat :=
  max (max l.windowLines 1 - l.overlapLines) 1

def windowChunk (l : ChunkLimits) (start stop : Nat) (text : String) : Chunk where
  kind := .block
  name := none
  signature := ""
  docstring := none
  startLine := start + 1
  endLine := stop
  content := l.truncate text
  scopePath := ""
  calls := CallName.inText text
  typeRefs := []

/-- The chunks of the windows that start at `start`, `start + step`, …, when `made` chunks
exist already. At most `fuel` windows are looked at. -/
def windowsFrom (l : ChunkLimits) (ls : List String) (fuel start made : Nat) : List Chunk :=
  match fuel with
  | 0 => []
  | fuel + 1 =>
    let stop := min (start + max l.windowLines 1) ls.length
    let text := joinLines ((ls.drop start).take (stop - start))
    let here := if isBlankString text then [] else [windowChunk l start stop text]
    let made := made + here.length
    if ls.length ≤ stop || l.maxChunks ≤ made then here
    else here ++ windowsFrom l ls fuel (start + l.step) made

/-- The chunks of a text without structure. -/
def windowChunks (l : ChunkLimits) (source : String) : List Chunk :=
  if isBlankString source then []
  else
    let ls := linesOf source
    windowsFrom l ls (ls.length + 1) 0 0

end CodeIndex

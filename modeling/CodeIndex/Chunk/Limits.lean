import CodeIndex.Text.Blank
import CodeIndex.Text.Search
/-!
# Limits on chunks

How many chunks a file may have, how long a chunk may be, and how files without structure
are cut. Text that is cut says so at its end.
-/

namespace CodeIndex

open Text

def truncationMark : List Char :=
  "\n... [truncated]".toList

/-- Size limits for the chunks of a file. -/
structure ChunkLimits where
  maxChunks : Nat := 200
  /-- Characters kept per chunk, blanks not counted. -/
  maxChars : Nat := 4000
  windowLines : Nat := 60
  overlapLines : Nat := 10
  /-- Lines with content that a stretch between definitions needs to be a chunk. -/
  minModuleLines : Nat := 5
  deriving Repr, DecidableEq

/-- The text up to the character that would exceed `room` characters other than blanks;
`none` when there is no such character. -/
def takeInked : Nat → List Char → Option (List Char)
  | _, [] => none
  | room, c :: cs =>
    if isBlank c then (takeInked room cs).map (c :: ·)
    else
      match room with
      | 0 => some []
      | room + 1 => (takeInked room cs).map (c :: ·)

/-- A text of at most `max` characters other than blanks, or its beginning and the mark. -/
def truncateInked (max : Nat) (cs : List Char) : List Char :=
  match takeInked max cs with
  | some head => trimEnd head ++ truncationMark
  | none => cs

def ChunkLimits.truncate (l : ChunkLimits) (s : String) : String :=
  String.ofList (truncateInked l.maxChars s.toList)

end CodeIndex

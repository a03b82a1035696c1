import CodeIndex.Store.Read
/-!
# The window around the cursor

The lines of the edited file that are shown as they are: those around the cursor, which is
moved into the file when it lies outside.
-/

namespace CodeIndex

/-- Lines of a file around the cursor. -/
structure CursorWindow where
  path : String
  first : Nat
  last : Nat
  lines : List String
  deriving Repr, DecidableEq

namespace CursorWindow

/-- Lines shown on either side of the cursor. -/
def reach : Nat := 30

/-- The cursor within a file of `count` lines. An absent cursor is on the first line. -/
def clamp (cursor : Option Nat) (count : Nat) : Nat :=
  min (max (cursor.getD 1) 1) count

/-- The window of a file with these lines; a file without lines has none. -/
def ofLines (path : String) (lines : List String) (cursor : Option Nat) : Option CursorWindow :=
  if lines.isEmpty then none
  else
    let at_ := clamp cursor lines.length
    let first := max (at_ - reach) 1
    let last := min (at_ + reach) lines.length
    some ⟨path, first, last, (lines.drop (first - 1)).take (last + 1 - first)⟩

def covers (w : CursorWindow) (c : ChunkRecord) : Bool :=
  c.path == w.path && w.first ≤ c.row.startLine && c.row.endLine ≤ w.last

/-- The lines of the window within two lines of the cursor, which need not lie in it. -/
def near (w : CursorWindow) (cursor : Nat) : List String :=
  let first := max (cursor - 2) w.first
  let last := min (cursor + 2) w.last
  (w.lines.drop (first - w.first)).take (last + 1 - first)

def render (w : CursorWindow) : String :=
  "### " ++ w.path ++ ":" ++ toString w.first ++ "-" ++ toString w.last ++ "\n\x60\x60\x60\n"
    ++ Text.joinLines w.lines ++ "\n\x60\x60\x60"

end CursorWindow

end CodeIndex

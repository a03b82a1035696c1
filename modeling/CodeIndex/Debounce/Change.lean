import CodeIndex.Disk.Path
/-!
# Changes that wait

Changes of files that have been reported and not been handled yet. Of each path only the
latest change counts.
-/

namespace CodeIndex

/-- What happened to a file. -/
inductive ChangeKind where
  | modified
  | deleted
  deriving Repr, DecidableEq

def ChangeKind.word : ChangeKind → String
  | modified => "modified"
  | deleted => "deleted"

/-- A change of a file. -/
structure Change where
  path : String
  kind : ChangeKind
  deriving Repr, DecidableEq

namespace Change

def samePath (a b : Change) : Bool :=
  Path.parts a.path == Path.parts b.path

/-- The changes with one more. A path that is there already keeps its spelling. -/
def insert (c : Change) : List Change → List Change
  | [] => [c]
  | d :: ds => if d.samePath c then { d with kind := c.kind } :: ds else d :: insert c ds

def sorted (cs : List Change) : List Change :=
  cs.mergeSort fun a b => !PathPart.allBefore (Path.parts b.path) (Path.parts a.path)

end Change

end CodeIndex

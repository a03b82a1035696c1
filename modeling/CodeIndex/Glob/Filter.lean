import CodeIndex.Glob.Match
/-!
# Path filters

Which files belong to an index: those that some pattern includes and none excludes.
-/

namespace CodeIndex

/-- Patterns on paths relative to the root of a project. -/
structure PathFilter where
  included : List Glob
  excluded : List Glob

namespace PathFilter

/-- Reads the patterns, the including ones first. -/
def read (included excluded : List String) : Except GlobError PathFilter := do
  let included ← included.mapM (Glob.read .strict)
  let excluded ← excluded.mapM (Glob.read .strict)
  return ⟨included, excluded⟩

def anyMatches (globs : List Glob) (path : String) : Bool :=
  globs.any (·.matches .ordinary path)

def accepts (f : PathFilter) (path : String) : Bool :=
  !anyMatches f.excluded path && anyMatches f.included path

/-- A name that stands for any entry of a directory. -/
def sampleEntry : String := "__entry__"

/-- Everything in the directory is taken to be excluded. -/
def prunes (f : PathFilter) (directory : String) : Bool :=
  directory != "" && anyMatches f.excluded (directory ++ "/" ++ sampleEntry)

end PathFilter

end CodeIndex

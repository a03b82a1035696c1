import CodeIndex.Disk.Ignore
import CodeIndex.Glob.Filter
/-!
# The files of a project

All files below a root that the ignore files leave and the filter accepts. Directories of
which everything is taken to be excluded are not entered, and links are not followed.
-/

namespace CodeIndex

/-- A file found below a root. -/
structure FoundFile where
  place : Place
  /-- The path from the root. -/
  path : String
  deriving Repr, DecidableEq

namespace Walk

/-- The path from a root. Backslashes count as slashes. -/
def relative (root at_ : Place) : String :=
  String.ofList (("/".intercalate (at_.drop root.length)).toList.map fun c =>
    if c == '\\' then '/' else c)

/-- The places of the files below a directory, at most `depth` directories deep. `sets`
holds the ignore files of the directory and those above it. -/
def filesIn (d : Disk) (filter : PathFilter) (root : Place) :
    (depth : Nat) → List IgnoreSet → Place → List Place
  | 0, _, _ => []
  | depth + 1, sets, directory =>
    (d.children directory).flatMap fun (name, e) =>
      let at_ := directory ++ [name]
      match e with
      | .directory =>
        if IgnoreSet.ignores sets at_ true || filter.prunes (relative root at_) then []
        else filesIn d filter root depth (.ofDirectory d at_ :: sets) at_
      | _ => if IgnoreSet.ignores sets at_ false then [] else [at_]

/-- The ignore files of a directory and of those above it, the nearest first. -/
def setsAbove (d : Disk) (directory : Place) : List IgnoreSet :=
  ((List.range (directory.length + 1)).map fun n =>
    IgnoreSet.ofDirectory d (directory.take n)).reverse

def discover (d : Disk) (filter : PathFilter) (root : Place) : List FoundFile :=
  let places :=
    match d.entry? root with
    | some .directory => filesIn d filter root (d.entries.length + 1) (setsAbove d root) root
    | _ => []
  let found := (places.map fun p => FoundFile.mk p (relative root p)).filter
    fun f => filter.accepts f.path
  found.mergeSort fun a b => !(b.path < a.path)

end Walk

end CodeIndex

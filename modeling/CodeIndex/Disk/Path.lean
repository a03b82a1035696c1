import CodeIndex.Text.Blank
import CodeIndex.Text.Search
/-!
# Paths

A path is a text of names between slashes. Two texts name the same path when their
components are equal: repeated slashes, slashes at the end, and dots that are not at the
start make no difference.
-/

namespace CodeIndex

/-- A component of a path. -/
inductive PathPart where
  /-- The slash at the start. -/
  | root
  /-- A single dot at the start. -/
  | here
  /-- Two dots. -/
  | up
  | name (s : String)
  deriving Repr, DecidableEq

namespace PathPart

def rank : PathPart → Nat
  | root => 0
  | here => 1
  | up => 2
  | name _ => 3

/-- Comparison of components, names by their characters. -/
def isBefore (a b : PathPart) : Bool :=
  match a, b with
  | name s, name t => s < t
  | a, b => a.rank < b.rank

/-- Comparison of paths, component by component. -/
def allBefore : List PathPart → List PathPart → Bool
  | _, [] => false
  | [], _ :: _ => true
  | a :: as, b :: bs => a.isBefore b || (a == b && allBefore as bs)

end PathPart

namespace Path

open Text

def segments (path : String) : List String :=
  (pieces (· == '/') path.toList).map String.ofList

def isAbsolute (path : String) : Bool :=
  path.toList.head? == some '/'

/-- The component that a segment stands for, if it is one. -/
def part? (s : String) : Option PathPart :=
  if s == "" || s == "." then none else some (if s == ".." then .up else .name s)

def parts (path : String) : List PathPart :=
  let segs := segments path
  let rest := segs.filterMap part?
  if isAbsolute path then .root :: rest
  else if segs.head? == some "." then .here :: rest
  else rest

/-- The path `path` as seen from the directory `base`. -/
def join (base path : String) : String :=
  if isAbsolute path then path
  else if base == "" || base.toList.getLast? == some '/' then base ++ path
  else base ++ "/" ++ path

/-- A reversed path without slashes and single dots at its end. -/
def withoutEnd : List Char → List Char
  | '/' :: cs => withoutEnd cs
  | '.' :: '/' :: cs => withoutEnd ('/' :: cs)
  | cs => cs

/-- The path of the directory that holds `path`; the root and the empty path have none. -/
def parent? (path : String) : Option String :=
  match (parts path).getLast? with
  | none => none
  | some .root => none
  | some _ =>
    let above := withoutEnd ((withoutEnd path.toList.reverse).dropWhile (· != '/'))
    some (if above.isEmpty && isAbsolute path then "/" else String.ofList above.reverse)

/-- The name of the file that a path leads to. -/
def fileName? (path : String) : Option String :=
  match (parts path).getLast? with
  | some (.name s) => some s
  | _ => none

/-- The text without slashes and single dots at its start. -/
def withoutStart : List Char → List Char
  | '/' :: cs => withoutStart cs
  | ['.'] => []
  | '.' :: '/' :: cs => withoutStart ('/' :: cs)
  | cs => cs

def afterNames : Nat → List Char → List Char
  | 0, cs => withoutStart cs
  | n + 1, cs => afterNames n ((withoutStart cs).dropWhile (· != '/'))

/-- What follows the directory with these names in an absolute path, if the path leads
into it. -/
def within? (directory : List String) (path : String) : Option String :=
  let start := .root :: directory.map PathPart.name
  if start.isPrefixOf (parts path) then
    let rest := afterNames directory.length path.toList
    some (String.ofList ((withoutStart rest.reverse).reverse))
  else none

def ofNames (names : List String) : String :=
  "/" ++ "/".intercalate names

end Path

end CodeIndex

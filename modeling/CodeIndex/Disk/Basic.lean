import CodeIndex.Disk.Path
import CodeIndex.Store.File
import CodeIndex.Text.Utf8
import CodeIndex.Time.Instant
/-!
# Disks

Files, directories and symbolic links under absolute paths. A path is resolved from a
current directory; links on the way are followed.
-/

namespace CodeIndex

/-- What can lie under a path. -/
inductive Entry where
  | directory
  | file (bytes : ByteArray) (mtime : Instant)
  /-- A file of a known size that may not be opened. -/
  | locked (size : Nat)
  | store (content : StoreFile)
  | link (target : String)

/-- The names from the root to an entry. -/
abbrev Place := List String

/-- The entries of a disk. The root is always there. -/
structure Disk where
  entries : List (Place × Entry) := []

/-- Why an access fails. -/
inductive DiskFault where
  | notFound
  | alreadyThere
  | notDirectory
  | isDirectory
  | tooManyLinks
  | denied
  deriving Repr, DecidableEq

def DiskFault.message : DiskFault → String
  | notFound => "No such file or directory (os error 2)"
  | alreadyThere => "File exists (os error 17)"
  | notDirectory => "Not a directory (os error 20)"
  | isDirectory => "Is a directory (os error 21)"
  | tooManyLinks => "Too many levels of symbolic links (os error 40)"
  | denied => "Permission denied (os error 13)"

namespace Disk

/-- What lies at a place, links not followed. -/
def entry? (d : Disk) (at_ : Place) : Option Entry :=
  if at_.isEmpty then some .directory else (d.entries.find? (·.1 == at_)).map (·.2)

/-! ## Resolving paths -/

/-- The steps that a path takes: names, and dots, which are steps that stay. -/
def steps (path : String) : List String :=
  let segs := Path.segments path
  let stay := if segs.getLast? == some "" then ["."] else []
  segs.filter (· != "") ++ stay

/-- The place reached by steps from a directory, following at most `links` links. -/
def walk (d : Disk) (links : Nat) (at_ : Place) : List String → Except DiskFault Place
  | [] => .ok at_
  | s :: rest =>
    if s == "." then walk d links at_ rest
    else if s == ".." then walk d links at_.dropLast rest
    else
      let next := at_ ++ [s]
      match d.entry? next with
      | none => .error .notFound
      | some .directory => walk d links next rest
      | some (.link target) =>
        match links with
        | 0 => .error .tooManyLinks
        | links + 1 =>
          walk d links (if Path.isAbsolute target then [] else at_) (steps target ++ rest)
      | some _ => if rest.isEmpty then .ok next else .error .notDirectory
termination_by ss => (links, ss.length)

def maxLinks : Nat := 40

def startOf (current : Place) (path : String) : Place :=
  if Path.isAbsolute path then [] else current

/-- The place that a path leads to from a current directory. -/
def resolve (d : Disk) (current : Place) (path : String) : Except DiskFault Place :=
  if path == "" then .error .notFound
  else walk d maxLinks (startOf current path) (steps path)

/-- The text of the place that a path leads to, when it leads anywhere. -/
def canonical? (d : Disk) (current : Place) (path : String) : Option String :=
  (d.resolve current path).toOption.map Path.ofNames

def stat (d : Disk) (path : String) : Except DiskFault Entry := do
  let at_ ← d.resolve [] path
  match d.entry? at_ with
  | some e => .ok e
  | none => .error .notFound

def isFile (d : Disk) (path : String) : Bool :=
  match d.stat path with
  | .ok (.file _ _) => true
  | .ok (.locked _) => true
  | .ok (.store _) => true
  | _ => false

def isDirectory (d : Disk) (path : String) : Bool :=
  match d.stat path with
  | .ok .directory => true
  | _ => false

/-! ## Reading -/

def directoryBytes : Nat := 4096

def sizeOf : Entry → Nat
  | .file bytes _ => bytes.size
  | .locked size => size
  | .directory => directoryBytes
  | _ => 0

/-- The bytes of a file and when it was changed, on a clock without leap seconds. -/
def contentOf : Entry → Except DiskFault (ByteArray × Instant)
  | .file bytes mtime => .ok (bytes, mtime.withoutLeap)
  | .locked _ => .error .denied
  | .directory => .error .isDirectory
  | _ => .ok (.empty, default)

def readText (d : Disk) (path : String) : Option String :=
  match d.stat path with
  | .ok e => (contentOf e).toOption.bind fun (bytes, _) => Text.decode? bytes.toList
  | .error _ => none

/-- The names in a directory with what they stand for. -/
def children (d : Disk) (directory : Place) : List (String × Entry) :=
  d.entries.filterMap fun (at_, e) =>
    match at_.getLast? with
    | some name => if at_.dropLast == directory then some (name, e) else none
    | none => none

/-! ## Writing -/

/-- The entry put at a place, instead of what was there. -/
def put (d : Disk) (at_ : Place) (e : Entry) : Disk :=
  if d.entries.any (·.1 == at_) then
    ⟨d.entries.map fun (p, old) => if p == at_ then (p, e) else (p, old)⟩
  else ⟨d.entries ++ [(at_, e)]⟩

/-- The directories at a place and above it made where there is nothing. -/
def makeAll (d : Disk) (at_ : Place) : Disk :=
  ((List.range at_.length).map fun n => at_.take (n + 1)).foldl
    (fun d p => if (d.entry? p).isSome then d else d.put p .directory) d

/-- The entry put at a place, with the directories above it. -/
def place (d : Disk) (at_ : Place) (e : Entry) : Disk :=
  (d.makeAll at_.dropLast).put at_ e

/-- The disk without what lies at a place and below it. -/
def remove (d : Disk) (at_ : Place) : Disk :=
  ⟨d.entries.filter fun (p, _) => !at_.isPrefixOf p⟩

/-- The place that steps mean, whether there is something or not. Links are followed as far
as they lead somewhere. -/
def placeFrom (d : Disk) (start : Place) (ss : List String) : Place :=
  ss.foldl (fun at_ s => (d.walk maxLinks at_ [s]).toOption.getD (at_ ++ [s])) start

def placeOf (d : Disk) (current : Place) (path : String) : Place :=
  d.placeFrom (startOf current path) (steps path)

/-- The place that a path names, without following a link there. -/
def nameOf (d : Disk) (current : Place) (path : String) : Place :=
  let ss := (steps path).filter (· != ".")
  d.placeFrom (startOf current path) ss.dropLast ++ ss.getLast?.toList

/-- Makes a directory in one that exists. -/
def makeDirectory (d : Disk) (current : Place) (path : String) : Except DiskFault Disk :=
  match d.resolve current path with
  | .ok _ => .error .alreadyThere
  | .error .notFound =>
    match Path.parent? path, Path.fileName? path with
    | some parent, some name => do
      let at_ ← d.resolve current (if parent == "" then "." else parent)
      match d.entry? at_ with
      | some .directory => .ok (d.put (at_ ++ [name]) .directory)
      | _ => .error .notDirectory
    | _, _ => .error .notFound
  | .error e => .error e

/-- Makes a directory and those above it, at most `fuel` of them. Directories that exist
already are left as they are. -/
def makeDirectories (d : Disk) (current : Place) : (fuel : Nat) → String → Except DiskFault Disk
  | 0, _ => .error .notFound
  | fuel + 1, path =>
    if path == "" then .ok d
    else
      let made (d : Disk) : Except DiskFault Disk :=
        match d.makeDirectory current path with
        | .ok d => .ok d
        | .error e =>
          match (d.resolve current path).toOption.bind d.entry? with
          | some .directory => .ok d
          | _ => .error e
      match d.makeDirectory current path with
      | .ok d => .ok d
      | .error .notFound =>
        match Path.parent? path with
        | some parent => do made (← makeDirectories d current fuel parent)
        | none => .error .notFound
      | .error _ => made d

end Disk

end CodeIndex

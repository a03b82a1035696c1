import CodeIndex.Config.Basic
import CodeIndex.Chunk.Parse
import CodeIndex.Project.Walk
import CodeIndex.Store.Read
import CodeIndex.Store.Write
/-!
# Projects

A project is a directory with settings. Its files are known by their paths from the root.
-/

namespace CodeIndex

/-- What a project is read from. -/
structure Surroundings where
  disk : Disk
  grammar : Grammar
  now : Instant

/-- A directory whose files are indexed. -/
structure Project where
  root : Place
  config : Config
  filter : PathFilter

/-- Why a file is not indexed. -/
inductive IndexFault where
  | io (fault : DiskFault)
  | store (fault : StoreFault)
  | outside (path : String)
  | unavailable
  deriving Repr, DecidableEq

def IndexFault.message : IndexFault → String
  | io fault => "io error: " ++ fault.message
  | store fault => "store error: " ++ fault.message
  | outside path => "path " ++ path ++ " is outside the project root"
  | unavailable => "store unavailable"

/-- What became of a file. -/
inductive Outcome where
  | indexed (chunks : Nat)
  | unchanged
  | tooLarge
  | removed
  | ignored
  deriving Repr, DecidableEq

namespace Project

/-- The project at a root, if the patterns of its settings can be read. -/
def ofConfig (root : Place) (config : Config) : Except GlobError Project := do
  let filter ← PathFilter.read config.allIncludes config.excludePatterns
  return ⟨root, config, filter⟩

def rootPath (p : Project) : String :=
  Path.ofNames p.root

/-- The path that a text leads to; of a missing file the directory is resolved, and where
that is missing too the text stays as it is. -/
def resolved (d : Disk) (path : String) : String :=
  match d.canonical? [] path with
  | some c => c
  | none =>
    match (Path.parent? path).bind (d.canonical? []), Path.fileName? path with
    | some parent, some name => Path.join parent name
    | _, _ => path

/-- The path from the root of a path that is absolute or starts at the root. -/
def relative (p : Project) (d : Disk) (path : String) : Except IndexFault String :=
  match Path.within? p.root (resolved d (Path.join p.rootPath path)) with
  | some rest => .ok (String.ofList (rest.toList.map fun c => if c == '\\' then '/' else c))
  | none => .error (.outside path)

/-- The tables of a store, which may lack them. -/
def tables : Option Store → Except IndexFault Store
  | some s => .ok s
  | none => .error (.store .noTables)

/-- The language of files that no language claims. -/
def plainLanguage : String := "text"

/-- Indexes the file at an absolute path under a path from the root. A file that has not
changed is left alone unless `force` says otherwise; one that is too large has no chunks. -/
def indexFile (p : Project) (env : Surroundings) (store : Option Store) (force : Bool)
    (absolute path : String) : Except IndexFault (Store × Outcome) := do
  let entry ← (env.disk.stat absolute).mapError .io
  if p.config.maxFileBytes < Disk.sizeOf entry then
    let s ← tables store
    return ((s.deleteFile path).1, .tooLarge)
  let (bytes, mtime) ← (Disk.contentOf entry).mapError .io
  let hash := Digest.blake3 bytes.toList
  let s ← tables store
  if !force && s.isUpToDate path hash then return (s, .unchanged)
  let text := Text.decodeLossy bytes.toList
  let language :=
    (Config.detectLanguage p.config.extraExtensions absolute).getD plainLanguage
  let parsed := parse env.grammar p.config.limits language text
  let facts : FileFacts := ⟨path, hash, mtime, language, (Text.linesOf text).length⟩
  let (s, _, count) := s.writeIndex env.now facts parsed.chunks parsed.imports
  return (s, .indexed count)

def dropFile (s : Store) (path : String) : Store × Outcome :=
  match s.deleteFile path with
  | (s, true) => (s, .removed)
  | (s, false) => (s, .ignored)

/-- Indexes a file after a change. What is no file any more, or does not belong to the
index, is removed from it. -/
def reindex (p : Project) (env : Surroundings) (store : Option Store) (path : String) :
    Except IndexFault (Store × Outcome) := do
  let path ← p.relative env.disk path
  let absolute := Path.join p.rootPath path
  if !env.disk.isFile absolute || !p.filter.accepts path then
    let s ← tables store
    return dropFile s path
  p.indexFile env store false absolute path

def forget (p : Project) (env : Surroundings) (store : Option Store) (path : String) :
    Except IndexFault (Store × Outcome) := do
  let path ← p.relative env.disk path
  let s ← tables store
  return dropFile s path

def markOpened (p : Project) (env : Surroundings) (store : Option Store) (path : String) :
    Except IndexFault (Store × Bool) := do
  let path ← p.relative env.disk path
  let s ← tables store
  return s.markAccessed path env.now

end Project

end CodeIndex

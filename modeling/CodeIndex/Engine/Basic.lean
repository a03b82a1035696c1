import CodeIndex.Context.Build
import CodeIndex.Debounce.Timeline
import CodeIndex.Project.Scan
/-!
# The engine

An engine serves one project: it keeps the store, the changes that wait to be handled, and
answers questions. Without a store every question has an empty answer and every change is
lost.
-/

namespace CodeIndex

/-- The store of an engine and what is due to happen to it. -/
structure OpenStore where
  /-- The path under which the store was opened. -/
  path : String
  /-- Where the store's file lies; a store in memory has none. -/
  place : Option Place := none
  /-- The tables, unless the store's file lacks them. -/
  tables : Option Store := some {}
  project : Project
  timeline : Timeline

/-- An engine for the project at `root`. -/
structure Engine where
  root : String
  config : Config
  store : Option OpenStore := none

/-- Why an engine cannot be set up. -/
inductive SetupFault where
  | root (path : String) (fault : DiskFault)
  | config (message : String)
  | storeDirectory (path : String) (fault : DiskFault)
  | store (path message : String)
  deriving Repr, DecidableEq

def SetupFault.message : SetupFault → String
  | root path fault => "cannot resolve project root " ++ path ++ ": " ++ fault.message
  | config message => "invalid configuration: " ++ message
  | storeDirectory path fault =>
    "failed to create store directory " ++ path ++ ": " ++ fault.message
  | store path message => "failed to open store " ++ path ++ ": " ++ message

namespace Engine

/-- The path that stands for a store in memory. -/
def memoryPath : String := ":memory:"

def withStore (root : Place) (config : Config) (path : String) (place : Option Place)
    (tables : Option Store) : Except SetupFault Engine := do
  let project ← (Project.ofConfig root config).mapError fun e => SetupFault.config e.message
  let timeline : Timeline := { debounce := config.debounceMillis }
  return ⟨Path.ofNames root, config, some ⟨path, place, tables, project, timeline⟩⟩

def inMemory (root : Place) (config : Config) : Except SetupFault Engine :=
  withStore root config memoryPath none (some {})

def detached (root : String) (config : Config) : Engine :=
  ⟨root, config, none⟩

/-! ## Opening a store -/

/-- Opens the store's file at a path, or makes one with empty tables. -/
def openStore (d : Disk) (current : Place) (path : String) :
    Except String (Disk × Option Place × Option Store) :=
  if path == memoryPath || path == "" then .ok (d, none, some {})
  else
    match d.resolve current path with
    | .error .notFound =>
      let at_ := d.placeOf current path
      .ok (d.put at_ (.store {}), some at_, some {})
    | .error _ => .error ("sqlite error: unable to open database file: " ++ path)
    | .ok at_ =>
      match d.entry? at_ with
      | some (.store f) =>
        match f.upgrade with
        | .ok f => .ok (d.put at_ (.store f), some at_, f.tables)
        | .error e => .error e.message
      | some (.file bytes _) =>
        if bytes.isEmpty then .ok (d.put at_ (.store {}), some at_, some {})
        else .error "sqlite error: file is not a database"
      | _ => .error ("sqlite error: unable to open database file: " ++ path)

/-- Sets up an engine for the project at a path: resolves the path, checks the settings,
makes the directory of the store and opens the store. What was made on the disk stays when
a later step fails. -/
def setup (d : Disk) (current : Place) (dataDirectory root : String) (config : Config) :
    Disk × Except SetupFault Engine :=
  match d.resolve current root with
  | .error e => (d, .error (.root root e))
  | .ok place =>
    match config.fault? with
    | some fault => (d, .error (.config fault.message))
    | none =>
      let path := config.storePathFor dataDirectory (Path.ofNames place)
      let parent := (Path.parent? path).getD ""
      match d.makeDirectories current (parent.length + 1) parent with
      | .error e => (d, .error (.storeDirectory parent e))
      | .ok d =>
        match openStore d current path with
        | .error message => (d, .error (.store path message))
        | .ok (d, at_, tables) => (d, withStore place config path at_ tables)

/-! ## The store and its file -/

/-- The engine with what the store's file holds now. -/
def reload (e : Engine) (d : Disk) : Engine :=
  match e.store with
  | none => e
  | some s =>
    match s.place.bind d.entry? with
    | some (.store f) => { e with store := some { s with tables := f.tables } }
    | _ => e

/-- The disk with the engine's tables in the store's file. -/
def save (e : Engine) (d : Disk) : Disk :=
  match e.store with
  | none => d
  | some s =>
    match s.place, s.place.bind d.entry? with
    | some at_, some (.store f) => d.put at_ (.store { f with tables := s.tables })
    | _, _ => d

def isAvailable (e : Engine) : Bool :=
  e.store.isSome

end Engine

end CodeIndex

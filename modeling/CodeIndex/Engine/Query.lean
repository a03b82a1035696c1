import CodeIndex.Engine.Basic
/-!
# Questions to the engine

Where the store has no tables, answers are as empty as those of an empty store.
-/

namespace CodeIndex

/-- A search for chunks. -/
structure SearchRequest where
  query : String
  /-- The number of results wanted; zero stands for the configured number. -/
  limit : Nat := 0
  currentFile : Option String := none
  deriving Repr, DecidableEq

/-- What the store knows about a name. -/
structure Relations where
  definitions : List ChunkRecord := []
  typeDefinition : Option ChunkRecord := none
  callers : List ChunkRecord := []
  callees : List String := []
  importers : List ImportRecord := []
  typeUsers : List ChunkRecord := []

/-- The state of an engine. -/
structure EngineStatus where
  root : String
  storePath : Option String
  available : Bool
  indexing : Bool
  pendingChanges : Nat
  stats : Option StoreStats
  deriving Repr, DecidableEq

/-- What the store knows about a name. The callees are those of its definitions. -/
def Store.relationsOf (s : Store) (name : String) : Relations :=
  let definitions := s.named name
  { definitions := definitions
    typeDefinition := s.typeDefinition? name
    callers := s.callersOf name
    callees := Text.distinct (definitions.flatMap fun d => s.calleesOf d.id)
    importers := s.importersOf name
    typeUsers := s.typeUsersOf name }

namespace Engine

/-- The tables, if there is a store and it has them. -/
def tables? (e : Engine) : Option Store :=
  e.store.bind (·.tables)

/-- The path of a file from the root, if it lies in the project. -/
def relative? (e : Engine) (d : Disk) (path : String) : Option String :=
  e.store.bind fun s => (s.project.relative d path).toOption

def search (e : Engine) (env : Surroundings) (r : SearchRequest) : List RankedChunk :=
  match e.tables? with
  | none => []
  | some s =>
    let limit := if r.limit == 0 then e.config.searchLimit else r.limit
    Ranking.rank s r.query limit (r.currentFile.bind (e.relative? env.disk)) e.config.weights
      env.now

/-- The context for a question. A budget of zero stands for the configured one. -/
def context (e : Engine) (env : Surroundings) (r : ContextRequest) : Context :=
  let budget := if r.budget == 0 then e.config.tokenBudget else r.budget
  match e.store with
  | none => ⟨budget, []⟩
  | some s =>
    let request :=
      { r with budget := budget, currentFile := r.currentFile.bind (e.relative? env.disk) }
    let source : ContextSource :=
      { store := s.tables.getD {}
        readText := fun path => env.disk.readText (Path.join e.root path)
        weights := e.config.weights
        searchLimit := e.config.searchLimit
        now := env.now }
    Context.build source e.config.shares request

def relations (e : Engine) (name : String) : Relations :=
  match e.tables? with
  | none => {}
  | some s => s.relationsOf name

def fileRecord (e : Engine) (env : Surroundings) (path : String) : Option FileRecord := do
  let s ← e.tables?
  let path ← e.relative? env.disk path
  s.file? path

def stats (e : Engine) : Option StoreStats :=
  e.tables?.map Store.stats

def status (e : Engine) : EngineStatus where
  root := e.root
  storePath := e.store.map (·.path)
  available := e.isAvailable
  indexing := e.store.any (·.timeline.coordinator.isIndexing)
  pendingChanges := (e.store.map (·.timeline.coordinator.pending.length)).getD 0
  stats := e.stats

end Engine

end CodeIndex

import CodeIndex.Engine.Basic
/-!
# Updating the index

Scans and other passes of a caller, and the changes that an editor reports. Changes that
fall due before a pass are handled before it.
-/

namespace CodeIndex

namespace OpenStore

/-- Handles the batches that came out of the timeline. -/
def settle (s : OpenStore) (env : Surroundings) : OpenStore :=
  let (batches, timeline) := s.timeline.takeFinished
  let tables := batches.foldl
    (fun tables b => (s.project.applyChanges env tables b.changes).store) s.tables
  { s with timeline := timeline, tables := tables }

/-- Waits for the caller's turn to run a pass of its own. -/
def turn (s : OpenStore) (env : Surroundings) : OpenStore :=
  { s with timeline := s.timeline.exclusive 0 }.settle env

def scan (s : OpenStore) (env : Surroundings) (force : Bool) : OpenStore × Scan :=
  let done := s.project.scan env s.tables force
  ({ s with tables := done.store }, done)

def clear (s : OpenStore) : OpenStore :=
  { s with tables := s.tables.map Store.clear }

def report (s : OpenStore) (path : String) (kind : ChangeKind) : OpenStore :=
  let absolute := Path.join s.project.rootPath path
  { s with timeline := s.timeline.notify ⟨absolute, kind⟩ true }

end OpenStore

namespace Engine

/-- Does something to the store, if there is one; `dflt` is the result if there is none. -/
def onStore (e : Engine) (dflt : α) (f : OpenStore → OpenStore × α) : Engine × α :=
  match e.store with
  | none => (e, dflt)
  | some s =>
    let (s, a) := f s
    ({ e with store := some s }, a)

def changeStore (e : Engine) (f : OpenStore → OpenStore) : Engine :=
  { e with store := e.store.map f }

/-- Indexes the whole project; files that have not changed are left alone unless `force`
says otherwise. -/
def index (e : Engine) (env : Surroundings) (force : Bool) : Engine × Scan :=
  e.onStore { store := none } fun s => (s.turn env).scan env force

/-- Forgets everything and indexes the project anew. -/
def rebuild (e : Engine) (env : Surroundings) : Engine × Scan :=
  e.onStore { store := none } fun s => (s.turn env).clear.scan env true

def clear (e : Engine) (env : Surroundings) : Engine :=
  e.changeStore fun s => (s.turn env).clear

def indexFile (e : Engine) (env : Surroundings) (path : String) :
    Engine × Except IndexFault Outcome :=
  e.onStore (.error .unavailable) fun s =>
    let s := s.turn env
    match s.project.reindex env s.tables (Path.join e.root path) with
    | .ok (store, outcome) => ({ s with tables := some store }, .ok outcome)
    | .error fault => (s, .error fault)

def saved (e : Engine) (path : String) : Engine :=
  e.changeStore fun s => s.report path .modified

def deleted (e : Engine) (path : String) : Engine :=
  e.changeStore fun s => s.report path .deleted

def opened (e : Engine) (env : Surroundings) (path : String) : Engine :=
  e.changeStore fun s =>
    match s.project.markOpened env s.tables path with
    | .ok (store, _) => { s with tables := some store }
    | .error _ => s

def flush (e : Engine) (env : Surroundings) : Engine :=
  e.changeStore fun s => { s with timeline := s.timeline.flush }.settle env

/-- Time passes, and what falls due happens. -/
def wait (e : Engine) (env : Surroundings) (ms : Nat) : Engine :=
  e.changeStore fun s => { s with timeline := s.timeline.sleep ms }.settle env

end Engine

end CodeIndex

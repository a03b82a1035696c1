import CodeIndex.Debounce.Change
import CodeIndex.Project.Basic
/-!
# Scans

A scan indexes all files of a project and removes those that are gone. A batch of reported
changes is handled file by file in the same way.
-/

namespace CodeIndex

/-- A file that could not be indexed. -/
structure FileError where
  path : String
  fault : IndexFault
  deriving Repr, DecidableEq

/-- What a scan did. -/
structure ScanStats where
  scanned : Nat := 0
  indexed : Nat := 0
  skipped : Nat := 0
  tooLarge : Nat := 0
  removed : Nat := 0
  chunks : Nat := 0
  errors : List FileError := []
  deriving Repr, DecidableEq

namespace ScanStats

def record (s : ScanStats) : Outcome → ScanStats
  | .indexed n => { s with indexed := s.indexed + 1, chunks := s.chunks + n }
  | .unchanged => { s with skipped := s.skipped + 1 }
  | .ignored => { s with skipped := s.skipped + 1 }
  | .tooLarge => { s with tooLarge := s.tooLarge + 1 }
  | .removed => { s with removed := s.removed + 1 }

def recordError (s : ScanStats) (path : String) (fault : IndexFault) : ScanStats :=
  { s with errors := s.errors ++ [⟨path, fault⟩] }

end ScanStats

/-- How far a scan has come with a file. -/
structure Progress where
  done : Nat
  total : Nat
  path : String
  deriving Repr, DecidableEq

/-- The state of a scan. -/
structure Scan where
  store : Option Store
  stats : ScanStats := {}
  progress : List Progress := []

namespace Scan

/-- What was done to a file goes into the scan. A failure leaves the store as it was. -/
def take (s : Scan) (path : String) (result : Except IndexFault (Store × Outcome)) : Scan :=
  match result with
  | .ok (store, outcome) => { s with store := some store, stats := s.stats.record outcome }
  | .error fault => { s with stats := s.stats.recordError path fault }

def file (p : Project) (env : Surroundings) (force : Bool) (total : Nat) (s : Scan)
    (f : FoundFile) : Scan :=
  let s := s.take f.path (p.indexFile env s.store force (Path.ofNames f.place) f.path)
  { s with progress := s.progress ++ [⟨s.progress.length + 1, total, f.path⟩] }

/-- The members of a list in batches of `size`, which is at least one. -/
def batches (size : Nat) (as : List α) : List (List α) :=
  match as with
  | [] => []
  | a :: rest => (a :: rest.take (size - 1)) :: batches size (rest.drop (size - 1))
termination_by as.length

/-- Files that are in the store and not among the found ones are removed. -/
def removeStale (found : List FoundFile) (s : Scan) : Scan :=
  match s.store with
  | none => s
  | some store =>
    let stale := store.allFiles.filter fun f => !found.any (·.path == f.row.facts.path)
    { s with
      store := some (stale.foldl (fun st f => (st.deleteFile f.row.facts.path).1) store)
      stats := { s.stats with removed := s.stats.removed + stale.length } }

end Scan

namespace Project

/-- Indexes all files of the project, batch by batch, and removes those that are gone. -/
def scan (p : Project) (env : Surroundings) (store : Option Store) (force : Bool) : Scan :=
  let found := Walk.discover env.disk p.filter p.root
  let begun : Scan := { store := store, stats := { scanned := found.length } }
  let done := (Scan.batches (max p.config.batchSize 1) found).foldl
    (fun s batch => batch.foldl (Scan.file p env force found.length) s) begun
  done.removeStale found

def applyChange (p : Project) (env : Surroundings) (s : Scan) (c : Change) : Scan :=
  s.take c.path (match c.kind with
    | .modified => p.reindex env s.store c.path
    | .deleted => p.forget env s.store c.path)

def applyChanges (p : Project) (env : Surroundings) (store : Option Store) (cs : List Change) :
    Scan :=
  cs.foldl (p.applyChange env) { store := store, stats := { scanned := cs.length } }

end Project

end CodeIndex

import CodeIndex.Debounce.Change
/-!
# The coordinator of indexing passes

Reported changes wait until nothing has been reported for a while. Then they are handled
together in one pass. Passes never overlap: one that cannot start yet waits for its turn,
and passes start in the order in which they were asked for.

Nothing here knows a clock. The coordinator is told when a timer fires and when a pass ends.
-/

namespace CodeIndex

/-- Who asks for a pass. -/
inductive Request where
  /-- A timer that fired, on behalf of the changes that wait. -/
  | timer
  /-- A caller who wants the waiting changes handled now. -/
  | flush
  /-- A caller who wants no pass to run meanwhile. -/
  | exclusive
  deriving Repr, DecidableEq

/-- A pass whose turn has come. -/
inductive Pass where
  /-- It has not begun to work. -/
  | entered (request : Request)
  | batch (request : Request) (changes : List Change)
  | exclusive
  deriving Repr, DecidableEq

/-- The state of the coordinator. -/
structure Coordinator where
  /-- The latest change of each path, in the order in which the paths were reported. -/
  pending : List Change := []
  /-- The number of changes reported so far. A timer carries the number at its start. -/
  generation : Nat := 0
  /-- Passes that wait for the one that runs, the next one first. -/
  waiting : List Request := []
  running : Option Pass := none
  /-- A pass says that it is at work. -/
  inFlight : Bool := false
  deriving Repr, DecidableEq

namespace Coordinator

/-- A change is put into the table. -/
def note (c : Coordinator) (change : Change) : Coordinator :=
  { c with pending := change.insert c.pending }

/-- The timers that run are overtaken. -/
def renew (c : Coordinator) : Coordinator :=
  { c with generation := c.generation + 1 }

def notify (c : Coordinator) (change : Change) : Coordinator :=
  (c.note change).renew

def ask (c : Coordinator) (r : Request) : Coordinator :=
  { c with waiting := c.waiting ++ [r] }

/-- The timer that was started with that generation fires. It asks for a pass unless a
change was reported since. -/
def fire (c : Coordinator) (generation : Nat) : Coordinator :=
  if generation == c.generation then c.ask .timer else c

/-- No pass runs or waits. -/
def isFree (c : Coordinator) : Bool :=
  c.running.isNone && c.waiting.isEmpty

/-- The turn of the next pass comes, if none runs and one waits. -/
def enter (c : Coordinator) : Coordinator :=
  match c.running, c.waiting with
  | none, r :: rest => { c with waiting := rest, running := some (.entered r) }
  | _, _ => c

/-- The pass whose turn has come begins to work. One that finds no changes is over at once. -/
def takeUp (c : Coordinator) : Coordinator :=
  match c.running with
  | some (.entered .exclusive) => { c with running := some .exclusive, inFlight := true }
  | some (.entered r) =>
    if c.pending.isEmpty then { c with running := none }
    else
      { c with
        pending := []
        running := some (.batch r (Change.sorted c.pending))
        inFlight := true }
  | _ => c

/-- The next pass starts, if none runs and one waits. -/
def start (c : Coordinator) : Coordinator :=
  c.enter.takeUp

def finish (c : Coordinator) : Coordinator :=
  { c with running := none, inFlight := false }

def isIndexing (c : Coordinator) : Bool :=
  c.inFlight

end Coordinator

end CodeIndex

import CodeIndex.Debounce.Coordinator
/-!
# The coordinator on a clock

Time in milliseconds. A reported change starts a timer of one debounce interval, and a pass
takes some time. A caller who waits until some instant goes on before anything else that is
due at that instant.
-/

namespace CodeIndex

/-- A timer that runs. -/
structure Timer where
  due : Nat
  generation : Nat
  deriving Repr, DecidableEq

/-- A batch of changes that was handled. -/
structure Batch where
  start : Nat
  stop : Nat
  changes : List Change
  deriving Repr, DecidableEq

/-- The coordinator, the clock, and what is going to happen. -/
structure Timeline where
  /-- How long nothing must be reported before changes are handled. -/
  debounce : Nat
  /-- How long a batch takes. -/
  work : Nat := 0
  now : Nat := 0
  coordinator : Coordinator := {}
  /-- In the order in which they were started. -/
  timers : List Timer := []
  /-- When the pass that runs started. -/
  started : Nat := 0
  /-- Batches handled and not looked at yet. -/
  finished : List Batch := []
  deriving Repr, DecidableEq

namespace Timeline

/-- The furthest that a timer of the clock can be set ahead: thirty years of 365 days. Whoever waits
for longer, on a timer or by sleeping, is woken then. -/
def longestPause : Nat := 946080000000

/-- The time after which the clock wakes someone who waits for `ms` milliseconds. -/
def pause (ms : Nat) : Nat :=
  min ms longestPause

def endPass (t : Timeline) : Timeline :=
  let done :=
    match t.coordinator.running with
    | some (.batch _ changes) => [⟨t.started, t.now, changes⟩]
    | _ => []
  { t with coordinator := t.coordinator.finish, finished := t.finished ++ done }

def startPass (t : Timeline) : Timeline :=
  { t with coordinator := t.coordinator.start, started := t.now }

/-- The timers without the one that is due first, and that one. -/
def nextTimer? : List Timer → Option (Timer × List Timer)
  | [] => none
  | a :: rest =>
    match nextTimer? rest with
    | some (b, others) => if b.due < a.due then some (b, a :: others) else some (a, rest)
    | none => some (a, [])

/-- What happens by itself. -/
inductive Event where
  /-- The next pass starts. -/
  | start
  /-- The batch that a timer has led to ends. -/
  | finish
  /-- A timer fires. -/
  | fire (timer : Timer) (others : List Timer)

/-- The end of the batch that runs, if a timer has led to it. The passes of callers are
ended by them. -/
def batchEnd? (t : Timeline) : Option Nat :=
  match t.coordinator.running with
  | some (.batch .timer _) => some (t.started + pause t.work)
  | _ => none

/-- The next event and when it happens. A waiting pass starts as soon as none runs. -/
def next? (t : Timeline) : Option (Nat × Event) :=
  if t.coordinator.running.isNone && !t.coordinator.waiting.isEmpty then some (t.now, .start)
  else
    match t.batchEnd?, nextTimer? t.timers with
    | some stop, some (timer, others) =>
      some (if timer.due < stop then (max t.now timer.due, .fire timer others)
        else (max t.now stop, .finish))
    | some stop, none => some (max t.now stop, .finish)
    | none, some (timer, others) => some (max t.now timer.due, .fire timer others)
    | none, none => none

def happen (t : Timeline) (at_ : Nat) : Event → Timeline
  | .start => startPass { t with now := at_ }
  | .finish => endPass { t with now := at_ }
  | .fire timer others =>
    { t with now := at_, timers := others, coordinator := t.coordinator.fire timer.generation }

/-- A bound on the number of events before something is reported or asked for again. -/
def bound (t : Timeline) : Nat :=
  3 * t.timers.length + 2 * t.coordinator.waiting.length + 1

/-- At most `fuel` events, all of them before `limit`. -/
def run (limit : Nat) : Nat → Timeline → Timeline
  | 0, t => t
  | fuel + 1, t =>
    match t.next? with
    | some (at_, e) => if at_ < limit then run limit fuel (t.happen at_ e) else t
    | none => t

/-- Everything before `limit` happens, and then it is `limit`. -/
def advance (t : Timeline) (limit : Nat) : Timeline :=
  { run limit t.bound t with now := limit }

/-! ## What callers do -/

/-- A change is reported; where there is no clock to start a timer, none is started. -/
def notify (t : Timeline) (change : Change) (timed : Bool) : Timeline :=
  let c := t.coordinator.notify change
  let timer : Timer := ⟨t.now + pause t.debounce, c.generation⟩
  { t with coordinator := c, timers := if timed then t.timers ++ [timer] else t.timers }

/-- The caller waits for a while. Waiting no time lets nothing else happen. -/
def sleep (t : Timeline) (ms : Nat) : Timeline :=
  if ms == 0 then t else t.advance (t.now + pause ms)

/-- The timers that are due fire. -/
def fireDue (t : Timeline) : Timeline :=
  let due := t.timers.filter fun x => x.due ≤ t.now
  { t with
    timers := t.timers.filter fun x => !(x.due ≤ t.now)
    coordinator := due.foldl (fun c x => c.fire x.generation) t.coordinator }

/-- Events happen, at most `fuel`, until it is the turn of the caller's pass. -/
def untilTurn (r : Request) : Nat → Timeline → Timeline
  | 0, t => t
  | fuel + 1, t =>
    if t.coordinator.running.isNone && t.coordinator.waiting.head? == some r then t.fireDue
    else
      match t.next? with
      | some (at_, e) => untilTurn r fuel (t.happen at_ e)
      | none => t

/-- The caller asks for a pass, waits for its turn, and runs it for `ms` milliseconds. -/
def pass (t : Timeline) (r : Request) (ms : Nat) : Timeline :=
  let asked := { t with coordinator := t.coordinator.ask r }
  let ready := if t.coordinator.isFree then asked else untilTurn r asked.bound asked
  let begun := ready.startPass
  if begun.coordinator.isIndexing then (begun.sleep ms).endPass else begun

/-- The caller wants the waiting changes handled now. -/
def flush (t : Timeline) : Timeline :=
  t.pass .flush t.work

/-- The caller runs a pass of its own. -/
def exclusive (t : Timeline) (ms : Nat) : Timeline :=
  t.pass .exclusive ms

/-- The batches handled since the last time, and the timeline without them. -/
def takeFinished (t : Timeline) : List Batch × Timeline :=
  (t.finished, { t with finished := [] })

end Timeline

end CodeIndex

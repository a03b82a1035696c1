import CodeIndex.Debounce.Coordinator
import CodeIndex.Proofs.Debounce.Table
/-!
# Runs of the coordinator

Whatever callers, timers and passes do, in any order: the table holds the latest reports since the
last batch was taken, each batch is the whole table of its moment, and at most one pass is at work.
-/

namespace CodeIndex

namespace Change

/-! ## Batches -/

/-- The kind of the first change at a path. -/
def kindOf? (path : String) (cs : List Change) : Option ChangeKind :=
  (cs.find? fun c => c.key == Path.parts path).map (·.kind)

/-- The changes hold what was reported latest, for each path. The latest report comes first. -/
def Latest (cs reports : List Change) : Prop :=
  ∀ path kind, Holds cs path kind ↔ kindOf? path reports = some kind

/-- The changes are those of a table, in the order of their paths. -/
structure IsBatchOf (cs table : List Change) : Prop where
  nonempty : cs ≠ []
  perm : cs.Perm table
  distinct : Distinct cs
  sorted : cs.Pairwise fun a b => PathPart.allBefore a.key b.key = true

theorem kindOf?_cons (c : Change) (cs : List Change) (path : String) :
    kindOf? path (c :: cs) = if c.key = Path.parts path then some c.kind else kindOf? path cs := by
  unfold kindOf?
  rw [List.find?_cons]
  by_cases hpath : c.key = Path.parts path
  · rw [if_pos hpath, beq_iff_eq.2 hpath]
    rfl
  · rw [if_neg hpath, beq_eq_false_iff_ne.2 hpath]

theorem latest_nil : Latest [] [] := by
  intro path kind
  simp [Holds, kindOf?]

theorem Latest.insert {cs reports : List Change} (h : Latest cs reports) (hdistinct : Distinct cs)
    (c : Change) : Latest (c.insert cs) (c :: reports) := by
  intro path kind
  rw [holds_insert hdistinct, kindOf?_cons]
  by_cases hpath : c.key = Path.parts path
  · rw [if_pos hpath, if_pos hpath, Option.some.injEq]
  · rw [if_neg hpath, if_neg hpath]
    exact h path kind

theorem Latest.perm {cs cs' reports : List Change} (h : Latest cs reports) (hperm : cs'.Perm cs) :
    Latest cs' reports := by
  intro path kind
  rw [← h path kind]
  unfold Holds
  simp only [hperm.mem_iff]

theorem isBatchOf_sorted {table : List Change} (hdistinct : Distinct table)
    (hnonempty : table ≠ []) : IsBatchOf (sorted table) table where
  nonempty hnil := hnonempty (List.nil_perm.1 (hnil ▸ perm_sorted table))
  perm := perm_sorted table
  distinct := ((perm_sorted table).map key).nodup_iff.2 hdistinct
  sorted := pairwise_sorted hdistinct

end Change

/-- The pass has begun to work. -/
def Pass.isAtWork : Pass → Bool
  | .entered _ => false
  | .batch _ _ => true
  | .exclusive => true

namespace Coordinator

/-! ## Actions and what is seen of them -/

/-- What callers, timers and passes do. The two halves of a report are actions of their own, so
that other actions can come between them. -/
inductive Action where
  | note (change : Change)
  | renew
  | fire (generation : Nat)
  | ask (request : Request)
  | enter
  | takeUp
  | finish

/-- What is seen of an action. -/
inductive Happening where
  | reported (change : Change)
  | began (pass : Pass)
  | ended (pass : Pass)
  deriving DecidableEq

/-- Only a pass that is at work can end. -/
def act (c : Coordinator) : Action → Coordinator
  | .note change => c.note change
  | .renew => c.renew
  | .fire generation => c.fire generation
  | .ask request => c.ask request
  | .enter => c.enter
  | .takeUp => c.takeUp
  | .finish => if c.running.any Pass.isAtWork then c.finish else c

def happenings (c : Coordinator) : Action → List Happening
  | .note change => [.reported change]
  | .takeUp => if c.running.any (!·.isAtWork) then c.takeUp.running.toList.map .began else []
  | .finish => (c.running.toList.filter Pass.isAtWork).map .ended
  | _ => []

namespace Happening

/-- The changes reported since a batch was last taken, the latest first. -/
def reports : List Happening → List Change
  | [] => []
  | .began (.batch _ _) :: _ => []
  | .reported change :: log => change :: reports log
  | _ :: log => reports log

/-- The passes that have begun and not ended. -/
def atWork : List Happening → List Pass
  | [] => []
  | .began pass :: log => pass :: atWork log
  | .ended pass :: log => (atWork log).erase pass
  | .reported _ :: log => atWork log

/-- Each batch holds what was reported latest since the batch before it. -/
def Delivered : List Happening → Prop
  | [] => True
  | .began (.batch _ cs) :: log => Change.Latest cs (reports log) ∧ Delivered log
  | _ :: log => Delivered log

end Happening

/-- A coordinator, and what was seen of it so far, the latest first. -/
structure Watched where
  coordinator : Coordinator := {}
  log : List Happening := []

def Watched.act (w : Watched) (a : Action) : Watched :=
  ⟨w.coordinator.act a, w.coordinator.happenings a ++ w.log⟩

/-- A new coordinator, watched during some actions. -/
def watch (as : List Action) : Watched :=
  as.foldl Watched.act {}

/-! ## Taking up work -/

/-- How the pass whose turn has come begins to work, if there is one. -/
inductive TakenUp (c : Coordinator) : Prop where
  | exclusive (hrunning : c.running = some (.entered .exclusive))
      (heq : c.takeUp = { c with running := some .exclusive, inFlight := true })
  | batch (r : Request) (hrunning : c.running = some (.entered r)) (hsome : c.pending ≠ [])
      (heq : c.takeUp = { c with
        pending := []
        running := some (.batch r (Change.sorted c.pending))
        inFlight := true })
  | nothing (r : Request) (hrunning : c.running = some (.entered r))
      (heq : c.takeUp = { c with running := none })
  | idle (hrunning : c.running.any (!·.isAtWork) = false) (heq : c.takeUp = c)

theorem takenUp (c : Coordinator) : c.TakenUp := by
  cases hrunning : c.running with
  | none =>
      refine .idle (by rw [hrunning]; rfl) ?_
      unfold takeUp
      rw [hrunning]
  | some pass =>
      cases pass with
      | entered r =>
          cases r with
          | exclusive =>
              refine .exclusive hrunning ?_
              unfold takeUp
              rw [hrunning]
          | _ =>
              cases hpending : c.pending with
              | nil =>
                  refine .nothing _ hrunning ?_
                  unfold takeUp
                  rw [hrunning, hpending]
                  rfl
              | cons change rest =>
                  refine .batch _ hrunning (by rw [hpending]; nofun) ?_
                  unfold takeUp
                  rw [hrunning, hpending]
                  rfl
      | _ =>
          refine .idle (by rw [hrunning]; rfl) ?_
          unfold takeUp
          rw [hrunning]

/-! ## What every action keeps -/

/-- A coordinator is as its log says. -/
structure Watched.Consistent (w : Watched) : Prop where
  distinct : Change.Distinct w.coordinator.pending
  latest : Change.Latest w.coordinator.pending (Happening.reports w.log)
  delivered : Happening.Delivered w.log
  atWork : Happening.atWork w.log = w.coordinator.running.toList.filter Pass.isAtWork
  inFlight : w.coordinator.inFlight = w.coordinator.running.any Pass.isAtWork

namespace Watched.Consistent

variable {c : Coordinator} {log : List Happening}

theorem empty : Consistent {} :=
  ⟨List.nodup_nil, Change.latest_nil, trivial, rfl, rfl⟩

theorem note (h : Consistent ⟨c, log⟩) (change : Change) :
    Consistent ⟨c.note change, .reported change :: log⟩ where
  distinct := h.distinct.insert change
  latest := h.latest.insert h.distinct change
  delivered := h.delivered
  atWork := h.atWork
  inFlight := h.inFlight

theorem enter (h : Consistent ⟨c, log⟩) : Consistent ⟨c.enter, log⟩ := by
  unfold Coordinator.enter
  split
  · rename_i hrunning hwaiting
    refine ⟨h.distinct, h.latest, h.delivered, ?_, ?_⟩
    · rw [h.atWork, hrunning]
      rfl
    · rw [h.inFlight, hrunning]
      rfl
  · exact h

theorem takeUp (h : Consistent ⟨c, log⟩) :
    Consistent (Watched.act ⟨c, log⟩ .takeUp) := by
  unfold Watched.act Coordinator.act happenings
  dsimp only
  have hatWork := h.atWork
  cases c.takenUp with
  | exclusive hrunning heq =>
      rw [heq, hrunning]
      refine ⟨h.distinct, h.latest, h.delivered, ?_, rfl⟩
      rw [hrunning] at hatWork
      change Pass.exclusive :: Happening.atWork log = _
      rw [hatWork]
      rfl
  | batch r hrunning hsome heq =>
      rw [heq, hrunning]
      -- the batch takes over what the table held, and both table and reports start anew
      have hbatch := h.latest.perm (Change.perm_sorted c.pending)
      refine ⟨List.nodup_nil, Change.latest_nil, ⟨hbatch, h.delivered⟩, ?_, rfl⟩
      rw [hrunning] at hatWork
      change Pass.batch r _ :: Happening.atWork log = _
      rw [hatWork]
      rfl
  | nothing r hrunning heq =>
      rw [heq, hrunning]
      refine ⟨h.distinct, h.latest, h.delivered, ?_, ?_⟩
      · rw [hrunning] at hatWork
        exact hatWork
      · have hinFlight := h.inFlight
        rw [hrunning] at hinFlight
        exact hinFlight
  | idle hrunning heq =>
      rw [heq, hrunning]
      exact h

theorem finish (h : Consistent ⟨c, log⟩) :
    Consistent (Watched.act ⟨c, log⟩ .finish) := by
  unfold Watched.act Coordinator.act happenings
  dsimp only
  have hatWork := h.atWork
  cases hrunning : c.running with
  | none =>
      exact h
  | some pass =>
      cases hpass : pass.isAtWork with
      | false =>
          rw [if_neg (by simp [hpass]), Option.toList_some, List.filter_singleton, hpass]
          exact h
      | true =>
          rw [hrunning, Option.toList_some, List.filter_singleton, hpass] at hatWork
          rw [if_pos (by simp [hpass]), Option.toList_some, List.filter_singleton, hpass]
          refine ⟨h.distinct, h.latest, h.delivered, ?_, rfl⟩
          change (Happening.atWork log).erase pass = _
          rw [hatWork]
          simp [Coordinator.finish]

/-- The step: every action keeps the coordinator as its log says. -/
theorem act {w : Watched} (h : w.Consistent) (a : Action) : (w.act a).Consistent := by
  cases a with
  | note change => exact h.note change
  | renew => exact ⟨h.distinct, h.latest, h.delivered, h.atWork, h.inFlight⟩
  | fire generation =>
      unfold Watched.act Coordinator.act fire
      dsimp only
      split
      · exact ⟨h.distinct, h.latest, h.delivered, h.atWork, h.inFlight⟩
      · exact h
  | ask request => exact ⟨h.distinct, h.latest, h.delivered, h.atWork, h.inFlight⟩
  | enter => exact h.enter
  | takeUp => exact h.takeUp
  | finish => exact h.finish

theorem foldl {w : Watched} (h : w.Consistent) (as : List Action) :
    (as.foldl Watched.act w).Consistent := by
  induction as generalizing w with
  | nil => exact h
  | cons a as ih => exact ih (h.act a)

end Watched.Consistent

theorem consistent_watch (as : List Action) : (watch as).Consistent :=
  Watched.Consistent.empty.foldl as

/-! ## No change is lost and no two passes overlap -/

theorem Watched.Consistent.batch {w : Watched} (h : w.Consistent) {a : Action} {r : Request}
    {cs : List Change} (hbegan : .began (.batch r cs) ∈ w.coordinator.happenings a) :
    Change.IsBatchOf cs w.coordinator.pending ∧ (w.coordinator.act a).pending = [] := by
  cases a with
  | takeUp =>
      unfold happenings at hbegan
      unfold Coordinator.act
      dsimp only at hbegan ⊢
      cases w.coordinator.takenUp with
      | exclusive hrunning heq =>
          rw [heq, hrunning] at hbegan
          simp [Pass.isAtWork] at hbegan
      | batch r' hrunning hsome heq =>
          rw [heq, hrunning] at hbegan
          simp only [Option.any_some, Pass.isAtWork, Bool.not_false, if_true, Option.toList_some,
            List.map_singleton, List.mem_singleton, Happening.began.injEq, Pass.batch.injEq]
            at hbegan
          rw [heq, hbegan.2]
          exact ⟨Change.isBatchOf_sorted h.distinct hsome, rfl⟩
      | nothing r' hrunning heq =>
          rw [heq, hrunning] at hbegan
          simp at hbegan
      | idle hrunning heq =>
          rw [hrunning] at hbegan
          simp at hbegan
  | _ => simp [happenings] at hbegan

/-- What is promised of a coordinator at any moment, whatever happens next. -/
structure Watched.Exact (w : Watched) : Prop where
  /-- The table holds each path once, with the latest report since a batch was last taken. -/
  pending : Change.Distinct w.coordinator.pending ∧
    Change.Latest w.coordinator.pending (Happening.reports w.log)
  /-- A batch that is handed over next is the whole table, in order. -/
  handed : ∀ a r cs, .began (.batch r cs) ∈ w.coordinator.happenings a →
    Change.IsBatchOf cs w.coordinator.pending ∧ (w.coordinator.act a).pending = []
  /-- Each batch that was handed over held what was reported since the one before. -/
  delivered : Happening.Delivered w.log
  alone : (Happening.atWork w.log).length ≤ 1
  indexing : w.coordinator.isIndexing = true ↔ Happening.atWork w.log ≠ []

/-- At every moment of every run. -/
theorem watch_exact (as : List Action) : (watch as).Exact := by
  have h := consistent_watch as
  have hatWork := h.atWork
  have hinFlight := h.inFlight
  refine ⟨⟨h.distinct, h.latest⟩, fun a r cs => h.batch, h.delivered, ?_, ?_⟩
  · rw [hatWork]
    apply Nat.le_trans (List.length_filter_le _ _)
    cases (watch as).coordinator.running <;> simp
  · unfold isIndexing
    rw [hatWork, hinFlight]
    cases (watch as).coordinator.running with
    | none => simp
    | some pass => cases hpass : pass.isAtWork <;> simp [hpass]

/-- What is reported during a pass goes into the next one, which begins after it. -/
example :
    (watch [.note ⟨"/p/a", .modified⟩, .ask .flush, .enter, .takeUp, .note ⟨"/p/a", .deleted⟩,
      .ask .flush, .enter, .takeUp, .finish, .enter, .takeUp]).log =
      [.began (.batch .flush [⟨"/p/a", .deleted⟩]), .ended (.batch .flush [⟨"/p/a", .modified⟩]),
        .reported ⟨"/p/a", .deleted⟩, .began (.batch .flush [⟨"/p/a", .modified⟩]),
        .reported ⟨"/p/a", .modified⟩] := by
  decide +kernel

end Coordinator

end CodeIndex

import CodeIndex.Debounce.Timeline
import CodeIndex.Proofs.Debounce.Passes
/-!
# The coordinator on a clock

A clock decides when timers fire and passes end. Whatever is called on it, its coordinator goes
through one of the runs of a coordinator.
-/

namespace CodeIndex.Coordinator

/-- Actions lead to the coordinator, and it is not between the turn of a pass and its work. -/
structure Reached (c : Coordinator) : Prop where
  watched : ∃ as, (watch as).coordinator = c
  settled : c.running.any (!·.isAtWork) = false

namespace Reached

variable {c : Coordinator}

theorem empty : Reached {} :=
  ⟨⟨[], rfl⟩, rfl⟩

theorem append (h : c.Reached) (as : List Action) :
    ∃ all, (watch all).coordinator = as.foldl Coordinator.act c := by
  obtain ⟨before, rfl⟩ := h.watched
  refine ⟨before ++ as, ?_⟩
  unfold watch
  rw [List.foldl_append]
  generalize before.foldl Watched.act {} = w
  induction as generalizing w with
  | nil => rfl
  | cons a as ih => exact ih (w.act a)

theorem notify (h : c.Reached) (change : Change) : (c.notify change).Reached :=
  ⟨h.append [.note change, .renew], h.settled⟩

theorem ask (h : c.Reached) (r : Request) : (c.ask r).Reached :=
  ⟨h.append [.ask r], h.settled⟩

theorem fire (h : c.Reached) (generation : Nat) : (c.fire generation).Reached := by
  refine ⟨h.append [.fire generation], ?_⟩
  unfold Coordinator.fire
  split <;> exact h.settled

theorem start (h : c.Reached) : c.start.Reached := by
  refine ⟨h.append [.enter, .takeUp], ?_⟩
  unfold Coordinator.start
  cases c.enter.takenUp with
  | exclusive hrunning heq => rw [heq]; rfl
  | batch r hrunning hsome heq => rw [heq]; rfl
  | nothing r hrunning heq => rw [heq]; rfl
  | idle hrunning heq => rw [heq]; exact hrunning

theorem inFlight (h : c.Reached) : c.inFlight = c.running.any Pass.isAtWork := by
  obtain ⟨as, rfl⟩ := h.watched
  exact (consistent_watch as).inFlight

/-- A clock may end a pass when none is at work, and then nothing changes. -/
theorem act_finish (h : c.Reached) : c.act .finish = c.finish := by
  have hinFlight := h.inFlight
  have hsettled := h.settled
  unfold Coordinator.act Coordinator.finish
  cases c with
  | mk pending generation waiting running inFlight =>
      cases running with
      | none =>
          cases hinFlight
          rfl
      | some pass =>
          have hpass : pass.isAtWork = true := by simpa using hsettled
          exact if_pos hpass

theorem finish (h : c.Reached) : c.finish.Reached :=
  ⟨h.act_finish ▸ h.append [.finish], rfl⟩

end Reached

end CodeIndex.Coordinator

namespace CodeIndex.Timeline

/-- What is called on a clock. -/
inductive Call where
  | notify (change : Change) (timed : Bool)
  | sleep (ms : Nat)
  | flush
  | exclusive (ms : Nat)
  | takeFinished

def call (t : Timeline) : Call → Timeline
  | .notify change timed => t.notify change timed
  | .sleep ms => t.sleep ms
  | .flush => t.flush
  | .exclusive ms => t.exclusive ms
  | .takeFinished => t.takeFinished.2

/-! ## What calls keep -/

theorem now_happen (t : Timeline) (at_ : Nat) (e : Event) : (t.happen at_ e).now = at_ := by
  cases e <;> rfl

theorem now_run_le {t : Timeline} {limit : Nat} (ht : t.now ≤ limit) (fuel : Nat) :
    (run limit fuel t).now ≤ limit := by
  induction fuel generalizing t with
  | zero => exact ht
  | succ fuel ih =>
      unfold run
      split
      · rename_i at_ e hnext
        split
        · rename_i hlt
          exact ih (by rw [now_happen]; exact Nat.le_of_lt hlt)
        · exact ht
      · exact ht

/-- The steps that calls are made of keep something. -/
structure Keeps (P : Timeline → Prop) : Prop where
  notify : ∀ t change timed, P t → P (t.notify change timed)
  happen : ∀ t at_ e, t.next? = some (at_, e) → P t → P (t.happen at_ e)
  setNow : ∀ t now, t.now ≤ now → P t → P { t with now := now }
  ask : ∀ t r, r ≠ .timer → P t → P { t with coordinator := t.coordinator.ask r }
  fireDue : ∀ t, P t → P t.fireDue
  startPass : ∀ t, P t → P t.startPass
  endPass : ∀ t, P t → P t.endPass
  takeFinished : ∀ t, P t → P t.takeFinished.2

namespace Keeps

variable {P : Timeline → Prop} (h : Keeps P) {t : Timeline}

include h

theorem run (ht : P t) (limit fuel : Nat) : P (run limit fuel t) := by
  induction fuel generalizing t with
  | zero => exact ht
  | succ fuel ih =>
      unfold Timeline.run
      split
      · rename_i at_ e hnext
        split
        · exact ih (h.happen t at_ e hnext ht)
        · exact ht
      · exact ht

theorem sleep (ht : P t) (ms : Nat) : P (t.sleep ms) := by
  unfold Timeline.sleep
  split
  · exact ht
  · exact h.setNow _ _ (now_run_le (Nat.le_add_right t.now _) _) (h.run ht _ _)

theorem untilTurn (ht : P t) (r : Request) (fuel : Nat) : P (untilTurn r fuel t) := by
  induction fuel generalizing t with
  | zero => exact ht
  | succ fuel ih =>
      unfold Timeline.untilTurn
      split
      · exact h.fireDue t ht
      · split
        · rename_i at_ e hnext
          exact ih (h.happen t at_ e hnext ht)
        · exact ht

theorem pass (ht : P t) {r : Request} (hr : r ≠ .timer) (ms : Nat) : P (t.pass r ms) := by
  let asked : Timeline := { t with coordinator := t.coordinator.ask r }
  let ready := if t.coordinator.isFree then asked else Timeline.untilTurn r asked.bound asked
  have hasked : P asked := h.ask t r hr ht
  have hready : P ready := by
    unfold ready
    split
    · exact hasked
    · exact h.untilTurn hasked r asked.bound
  have hbegun : P ready.startPass := h.startPass ready hready
  change P (if ready.startPass.coordinator.isIndexing then _ else _ : Timeline)
  split
  · exact h.endPass _ (h.sleep hbegun ms)
  · exact hbegun

theorem call (ht : P t) (c : Call) : P (t.call c) := by
  cases c with
  | notify change timed => exact h.notify t change timed ht
  | sleep ms => exact h.sleep ht ms
  | flush => exact h.pass ht (by decide) t.work
  | exclusive ms => exact h.pass ht (by decide) ms
  | takeFinished => exact h.takeFinished t ht

theorem calls (ht : P t) (cs : List Call) : P (cs.foldl Timeline.call t) := by
  induction cs generalizing t with
  | nil => exact ht
  | cons c cs ih => exact ih (h.call ht c)

end Keeps

/-! ## The coordinator of a clock -/

theorem keeps_reached : Keeps fun t => t.coordinator.Reached where
  notify t change timed h := h.notify change
  happen t at_ e _ h := by
    cases e with
    | start => exact h.start
    | finish => exact h.finish
    | fire timer others => exact h.fire timer.generation
  setNow t now _ h := h
  ask t r _ h := h.ask r
  fireDue t h := by
    unfold fireDue
    dsimp only
    generalize t.timers.filter _ = due
    generalize t.coordinator = c at h
    induction due generalizing c with
    | nil => exact h
    | cons timer due ih => exact ih _ (h.fire timer.generation)
  startPass t h := h.start
  endPass t h := h.finish
  takeFinished t h := h

/-- Whatever is called on a new clock, its coordinator has gone through some actions. -/
theorem exists_watch (debounce work : Nat) (calls : List Call) :
    ∃ as, (Coordinator.watch as).coordinator =
      (calls.foldl call { debounce := debounce, work := work }).coordinator :=
  (keeps_reached.calls .empty calls).watched

end CodeIndex.Timeline

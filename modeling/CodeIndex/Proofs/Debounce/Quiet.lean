import CodeIndex.Proofs.Debounce.Burst
import Mathlib.Data.List.Perm.Basic
/-!
# Quiet periods

A timer asks for a pass only when nothing was reported for one debounce interval. Between its
asking and its turn other passes may run, and nobody looks at the reports again. What is reported
meanwhile is handed over with the rest, however recent it is.
-/

namespace CodeIndex

/-! ## A coordinator among clocks and threads -/

/-- A report: when its change was put into the table, and when it was counted. -/
structure Report where
  noted : Nat
  counted : Nat
  deriving DecidableEq

/-- When a pass was asked for, and how many reports had been counted then. -/
structure Asked where
  instant : Nat
  generation : Nat
  deriving DecidableEq

/-- A coordinator, the time, the timers that run, and what has been done so far. -/
structure Clocked where
  coordinator : Coordinator := {}
  now : Nat := 0
  timers : List Timer := []
  /-- When the changes of the reports that are not counted yet were put into the table. -/
  underWay : List Nat := []
  /-- The reports that are counted, the latest first. -/
  reports : List Report := []
  /-- How the passes that wait were asked for, the next one first. -/
  asked : List Asked := []
  /-- How the pass was asked for whose turn came last. -/
  turn : Asked := ⟨0, 0⟩
  deriving DecidableEq

namespace Clocked

/-- What can happen at any time, in any order. Passes take as long as they like, timers may fire
late, and other things may come between the two halves of a report. -/
inductive Move where
  | wait (ms : Nat)
  | note (change : Change)
  /-- The report under way with that position is counted; where there is no clock to start a
  timer, none is started. -/
  | count (i : Nat) (timed : Bool)
  /-- The timer with that position fires. -/
  | fire (i : Nat)
  | ask (request : Request)
  | enter
  | takeUp
  | finish

variable (interval : Nat)

/-- Time does not run backwards, a timer does not fire before it is due, and only timers ask on
behalf of the changes that wait. -/
def move (w : Clocked) : Move → Clocked
  | .wait ms => { w with now := w.now + ms }
  | .note change =>
    { w with coordinator := w.coordinator.note change, underWay := w.underWay ++ [w.now] }
  | .count i timed =>
    match w.underWay[i]? with
    | none => w
    | some noted =>
      let c := w.coordinator.renew
      { w with
        coordinator := c
        timers := if timed then w.timers ++ [⟨w.now + interval, c.generation⟩] else w.timers
        underWay := w.underWay.eraseIdx i
        reports := ⟨noted, w.now⟩ :: w.reports }
  | .fire i =>
    match w.timers[i]? with
    | none => w
    | some x =>
      if x.due ≤ w.now then
        { w with
          coordinator := w.coordinator.fire x.generation
          timers := w.timers.eraseIdx i
          asked :=
            if x.generation = w.coordinator.generation then w.asked ++ [⟨w.now, x.generation⟩]
            else w.asked }
      else w
  | .ask r =>
    if r = .timer then w
    else
      { w with
        coordinator := w.coordinator.ask r
        asked := w.asked ++ [⟨w.now, w.coordinator.generation⟩] }
  | .enter =>
    match w.coordinator.running, w.asked with
    | none, a :: rest => { w with coordinator := w.coordinator.enter, asked := rest, turn := a }
    | _, _ => w
  | .takeUp => { w with coordinator := w.coordinator.takeUp }
  | .finish => { w with coordinator := w.coordinator.act .finish }

/-- What becomes of a new coordinator. -/
def after (moves : List Move) : Clocked :=
  moves.foldl (move interval) {}

/-- Nothing was reported during the last interval, and no report is under way. -/
def Undisturbed (w : Clocked) : Prop :=
  w.underWay = [] ∧ ∀ r ∈ w.reports, r.counted + interval ≤ w.now

/-- The first `n` reports, the latest of them first. -/
def firstReports (w : Clocked) (n : Nat) : List Report :=
  w.reports.drop (w.coordinator.generation - n)

/-- The reports after the first `n`, the latest first. -/
def laterReports (w : Clocked) (n : Nat) : List Report :=
  w.reports.take (w.coordinator.generation - n)

instance (w : Clocked) : Decidable (w.Undisturbed interval) :=
  inferInstanceAs (Decidable (_ ∧ _))

/-! ## What every move keeps -/

/-- A pass was asked for in the past. What was counted before is further back than one interval,
if a timer asked; the rest was counted since. -/
structure FromPast (w : Clocked) (r : Request) (a : Asked) : Prop where
  past : a.instant ≤ w.now
  counted : a.generation ≤ w.coordinator.generation
  first : r = .timer → ∀ x ∈ w.firstReports a.generation, x.counted + interval ≤ a.instant
  later : ∀ x ∈ w.laterReports a.generation, a.instant ≤ x.counted

/-- The timer was started by a report, and is due one interval after it. -/
structure Started (w : Clocked) (x : Timer) : Prop where
  counted : x.generation ≤ w.coordinator.generation
  first : ∀ r ∈ w.firstReports x.generation, r.counted + interval ≤ x.due

/-- The past is as it can have been. -/
structure Consistent (w : Clocked) : Prop where
  past : (∀ t ∈ w.underWay, t ≤ w.now) ∧ ∀ r ∈ w.reports, r.noted ≤ r.counted ∧ r.counted ≤ w.now
  timers : ∀ x ∈ w.timers, w.Started interval x
  asked : List.Forall₂ (w.FromPast interval) w.coordinator.waiting w.asked
  turn : ∀ r, w.coordinator.running = some (.entered r) → w.FromPast interval r w.turn

variable {interval} {w w' : Clocked}

/-- Time passes, and no report is counted. -/
structure Later (w w' : Clocked) : Prop where
  now : w.now ≤ w'.now
  generation : w'.coordinator.generation = w.coordinator.generation
  reports : w'.reports = w.reports

theorem Later.firstReports (h : Later w w') (n : Nat) : w'.firstReports n = w.firstReports n := by
  unfold Clocked.firstReports
  rw [h.generation, h.reports]

theorem Later.laterReports (h : Later w w') (n : Nat) : w'.laterReports n = w.laterReports n := by
  unfold Clocked.laterReports
  rw [h.generation, h.reports]

theorem FromPast.later_on {r : Request} {a : Asked} (hfrom : w.FromPast interval r a)
    (h : Later w w') : w'.FromPast interval r a where
  past := Nat.le_trans hfrom.past h.now
  counted := h.generation ▸ hfrom.counted
  first := h.firstReports a.generation ▸ hfrom.first
  later := h.laterReports a.generation ▸ hfrom.later

theorem Started.later_on {x : Timer} (hstarted : w.Started interval x) (h : Later w w') :
    w'.Started interval x where
  counted := h.generation ▸ hstarted.counted
  first := h.firstReports x.generation ▸ hstarted.first

/-- Another report is counted. -/
structure Counted (w w' : Clocked) (noted : Nat) : Prop where
  now : w'.now = w.now
  generation : w'.coordinator.generation = w.coordinator.generation + 1
  reports : w'.reports = ⟨noted, w.now⟩ :: w.reports

namespace Counted

variable {noted n : Nat}

theorem firstReports (h : Counted w w' noted) (hn : n ≤ w.coordinator.generation) :
    w'.firstReports n = w.firstReports n := by
  unfold Clocked.firstReports
  rw [h.generation, h.reports, Nat.succ_sub hn, List.drop_succ_cons]

theorem laterReports (h : Counted w w' noted) (hn : n ≤ w.coordinator.generation) :
    w'.laterReports n = ⟨noted, w.now⟩ :: w.laterReports n := by
  unfold Clocked.laterReports
  rw [h.generation, h.reports, Nat.succ_sub hn, List.take_succ_cons]

theorem fromPast (h : Counted w w' noted) {r : Request} {a : Asked}
    (hfrom : w.FromPast interval r a) : w'.FromPast interval r a where
  past := h.now ▸ hfrom.past
  counted := h.generation ▸ Nat.le_succ_of_le hfrom.counted
  first := h.firstReports hfrom.counted ▸ hfrom.first
  later := by
    rw [h.laterReports hfrom.counted, List.forall_mem_cons]
    exact ⟨hfrom.past, hfrom.later⟩

theorem started (h : Counted w w' noted) {x : Timer} (hstarted : w.Started interval x) :
    w'.Started interval x where
  counted := h.generation ▸ Nat.le_succ_of_le hstarted.counted
  first := h.firstReports hstarted.counted ▸ hstarted.first

end Counted

namespace Consistent

theorem empty : Consistent interval {} := by
  refine ⟨⟨?_, ?_⟩, ?_, List.Forall₂.nil, nofun⟩ <;> exact fun _ h => absurd h List.not_mem_nil

/-- A move that counts no report keeps what it does not touch. -/
theorem later_on (h : w.Consistent interval) (hlater : Later w w')
    (hunderWay : ∀ t ∈ w'.underWay, t ∈ w.underWay ∨ t = w'.now)
    (htimers : ∀ x ∈ w'.timers, x ∈ w.timers)
    (hasked : List.Forall₂ (w'.FromPast interval) w'.coordinator.waiting w'.asked)
    (hturn : ∀ r, w'.coordinator.running = some (.entered r) → w'.FromPast interval r w'.turn) :
    w'.Consistent interval where
  past := by
    refine ⟨fun t ht => ?_, fun r hr => ?_⟩
    · rcases hunderWay t ht with ht | rfl
      · exact Nat.le_trans (h.past.1 t ht) hlater.now
      · exact Nat.le_refl _
    · obtain ⟨hnoted, hcounted⟩ := h.past.2 r (hlater.reports ▸ hr)
      exact ⟨hnoted, Nat.le_trans hcounted hlater.now⟩
  timers x hx := (h.timers x (htimers x hx)).later_on hlater
  asked := hasked
  turn := hturn

theorem asked_later (h : w.Consistent interval) (hlater : Later w w') :
    List.Forall₂ (w'.FromPast interval) w.coordinator.waiting w.asked :=
  h.asked.imp fun _ _ hfrom => hfrom.later_on hlater

theorem wait (h : w.Consistent interval) (ms : Nat) :
    (w.move interval (.wait ms)).Consistent interval := by
  have hlater : Later w { w with now := w.now + ms } := ⟨Nat.le_add_right _ _, rfl, rfl⟩
  exact h.later_on hlater (fun t ht => Or.inl ht) (fun x hx => hx) (h.asked_later hlater)
    fun r hr => (h.turn r hr).later_on hlater

theorem note (h : w.Consistent interval) (change : Change) :
    (w.move interval (.note change)).Consistent interval := by
  have hlater : Later w (w.move interval (.note change)) := ⟨Nat.le_refl _, rfl, rfl⟩
  refine h.later_on hlater (fun t ht => ?_) (fun x hx => hx) (h.asked_later hlater)
    fun r hr => (h.turn r hr).later_on hlater
  rcases List.mem_append.1 ht with ht | ht
  · exact Or.inl ht
  · exact Or.inr (List.mem_singleton.1 ht)

theorem count (h : w.Consistent interval) (i : Nat) (timed : Bool) :
    (w.move interval (.count i timed)).Consistent interval := by
  unfold move
  dsimp only
  split
  · exact h
  · rename_i noted hnoted
    have hmem : noted ∈ w.underWay := List.mem_of_getElem? hnoted
    let timer : Timer := ⟨w.now + interval, w.coordinator.generation + 1⟩
    let w' : Clocked :=
      { w with
        coordinator := w.coordinator.renew
        timers := if timed then w.timers ++ [timer] else w.timers
        underWay := w.underWay.eraseIdx i
        reports := ⟨noted, w.now⟩ :: w.reports }
    have hcounted : Counted w w' noted := ⟨rfl, rfl, rfl⟩
    have hpast : ∀ r ∈ w'.reports, r.noted ≤ r.counted ∧ r.counted ≤ w.now :=
      List.forall_mem_cons.2 ⟨⟨h.past.1 noted hmem, Nat.le_refl _⟩, h.past.2⟩
    have htimer : w'.Started interval timer := by
      -- it is due one interval from now, and no report is later than now
      refine ⟨Nat.le_refl _, fun r hr => ?_⟩
      exact Nat.add_le_add_right (hpast r (List.mem_of_mem_drop hr)).2 interval
    change w'.Consistent interval
    refine ⟨⟨fun t ht => h.past.1 t (List.mem_of_mem_eraseIdx ht), hpast⟩, ?_,
      h.asked.imp fun _ _ => hcounted.fromPast, fun r hr => hcounted.fromPast (h.turn r hr)⟩
    intro x hx
    have hmem : x ∈ w.timers ∨ x = timer := by
      change x ∈ (if timed then w.timers ++ [timer] else w.timers) at hx
      split at hx
      · simpa using hx
      · exact Or.inl hx
    rcases hmem with hx | rfl
    · exact hcounted.started (h.timers x hx)
    · exact htimer

theorem fire (h : w.Consistent interval) (i : Nat) :
    (w.move interval (.fire i)).Consistent interval := by
  unfold move
  dsimp only
  split
  · exact h
  · rename_i x hx
    split
    · rename_i hdue
      have hstarted := h.timers x (List.mem_of_getElem? hx)
      have herase : ∀ y ∈ w.timers.eraseIdx i, y ∈ w.timers := fun y hy =>
        List.mem_of_mem_eraseIdx hy
      by_cases hcurrent : x.generation = w.coordinator.generation
      · have hfire : w.coordinator.fire x.generation = w.coordinator.ask .timer := by
          unfold Coordinator.fire
          rw [if_pos (beq_iff_eq.2 hcurrent)]
        rw [hfire, if_pos hcurrent]
        have hlater : Later w { w with
            coordinator := w.coordinator.ask .timer
            timers := w.timers.eraseIdx i
            asked := w.asked ++ [⟨w.now, x.generation⟩] } := ⟨Nat.le_refl _, rfl, rfl⟩
        refine h.later_on hlater (fun t ht => Or.inl ht) herase ?_
          fun r hr => (h.turn r hr).later_on hlater
        refine List.rel_append (h.asked_later hlater) (List.Forall₂.cons ?_ List.Forall₂.nil)
        -- nothing was reported since this timer was started
        refine ⟨Nat.le_refl _, hstarted.counted, fun _ r hr => ?_, fun r hr => ?_⟩
        · rw [hlater.firstReports] at hr
          exact Nat.le_trans (hstarted.first r hr) hdue
        · rw [hlater.laterReports, laterReports, hcurrent, Nat.sub_self, List.take_zero] at hr
          cases hr
      · have hfire : w.coordinator.fire x.generation = w.coordinator := by
          unfold Coordinator.fire
          rw [if_neg (mt beq_iff_eq.1 hcurrent)]
        rw [hfire, if_neg hcurrent]
        have hlater : Later w { w with timers := w.timers.eraseIdx i } :=
          ⟨Nat.le_refl _, rfl, rfl⟩
        exact h.later_on hlater (fun t ht => Or.inl ht) herase (h.asked_later hlater)
          fun r hr => (h.turn r hr).later_on hlater
    · exact h

theorem ask (h : w.Consistent interval) (r : Request) :
    (w.move interval (.ask r)).Consistent interval := by
  unfold move
  dsimp only
  split
  · exact h
  · rename_i hr
    have hlater : Later w { w with
        coordinator := w.coordinator.ask r
        asked := w.asked ++ [⟨w.now, w.coordinator.generation⟩] } := ⟨Nat.le_refl _, rfl, rfl⟩
    refine h.later_on hlater (fun t ht => Or.inl ht) (fun x hx => hx) ?_
      fun r hr => (h.turn r hr).later_on hlater
    refine List.rel_append (h.asked_later hlater) (List.Forall₂.cons ?_ List.Forall₂.nil)
    refine ⟨Nat.le_refl _, Nat.le_refl _, fun htimer => absurd htimer hr, fun x hx => ?_⟩
    rw [hlater.laterReports, laterReports, Nat.sub_self, List.take_zero] at hx
    cases hx

theorem enter (h : w.Consistent interval) : (w.move interval .enter).Consistent interval := by
  unfold move
  dsimp only
  split
  · rename_i a rest hrunning hasked
    have hwaiting := h.asked
    rw [hasked] at hwaiting
    cases hqueue : w.coordinator.waiting with
    | nil =>
        rw [hqueue] at hwaiting
        cases hwaiting
    | cons r others =>
        rw [hqueue, List.forall₂_cons] at hwaiting
        have henter : w.coordinator.enter =
            { w.coordinator with waiting := others, running := some (.entered r) } := by
          unfold Coordinator.enter
          rw [hrunning, hqueue]
        rw [henter]
        have hlater : Later w { w with
            coordinator :=
              { w.coordinator with waiting := others, running := some (.entered r) }
            asked := rest
            turn := a } := ⟨Nat.le_refl _, rfl, rfl⟩
        refine h.later_on hlater (fun t ht => Or.inl ht) (fun x hx => hx)
          (hwaiting.2.imp fun _ _ hfrom => hfrom.later_on hlater) fun r' hr' => ?_
        cases hr'
        exact hwaiting.1.later_on hlater
  · exact h

/-- A pass that begins or ends changes neither the queue nor the reports. -/
theorem setRunning (h : w.Consistent interval) {c : Coordinator}
    (hgeneration : c.generation = w.coordinator.generation)
    (hwaiting : c.waiting = w.coordinator.waiting)
    (hrunning : ∀ r, c.running = some (.entered r) → w.coordinator.running = some (.entered r)) :
    ({ w with coordinator := c } : Clocked).Consistent interval := by
  have hlater : Later w { w with coordinator := c } := ⟨Nat.le_refl _, hgeneration, rfl⟩
  refine h.later_on hlater (fun t ht => Or.inl ht) (fun x hx => hx) ?_
    fun r hr => (h.turn r (hrunning r hr)).later_on hlater
  exact hwaiting ▸ h.asked_later hlater

theorem takeUp (h : w.Consistent interval) : (w.move interval .takeUp).Consistent interval := by
  unfold move
  cases w.coordinator.takenUp with
  | exclusive hrunning heq =>
      rw [heq]
      exact h.setRunning rfl rfl nofun
  | batch r hrunning hsome heq =>
      rw [heq]
      exact h.setRunning rfl rfl nofun
  | nothing r hrunning heq =>
      rw [heq]
      exact h.setRunning rfl rfl nofun
  | idle hrunning heq =>
      rw [heq]
      exact h

theorem finish (h : w.Consistent interval) : (w.move interval .finish).Consistent interval := by
  unfold move Coordinator.act
  dsimp only
  split
  · exact h.setRunning rfl rfl nofun
  · exact h

/-- The step: every move keeps the past as it can have been. -/
theorem move (h : w.Consistent interval) (m : Move) : (w.move interval m).Consistent interval := by
  cases m with
  | wait ms => exact h.wait ms
  | note change => exact h.note change
  | count i timed => exact h.count i timed
  | fire i => exact h.fire i
  | ask r => exact h.ask r
  | enter => exact h.enter
  | takeUp => exact h.takeUp
  | finish => exact h.finish

end Consistent

theorem consistent_after (interval : Nat) (moves : List Move) :
    (after interval moves).Consistent interval := by
  unfold after
  have hstep : ∀ w : Clocked, w.Consistent interval →
      (moves.foldl (move interval) w).Consistent interval := by
    induction moves with
    | nil => exact fun w h => h
    | cons m moves ih => exact fun w h => ih _ (h.move m)
  exact hstep {} .empty

/-! ## What is called on a timeline -/

/-- The clock goes as the timeline does. -/
structure Shows (w : Clocked) (t : Timeline) : Prop where
  coordinator : w.coordinator = t.coordinator
  now : w.now = t.now
  timers : w.timers.Perm t.timers

/-- Some moves lead to where the timeline is. -/
def Follows (interval : Nat) (t : Timeline) : Prop :=
  ∃ moves, (after interval moves).Shows t

variable {t t' : Timeline}

theorem Follows.next (h : Follows interval t)
    (hstep : ∀ w : Clocked, w.Consistent interval → w.Shows t →
      ∃ more : List Move, (more.foldl (move interval) w).Shows t') : Follows interval t' := by
  obtain ⟨moves, hmoves⟩ := h
  obtain ⟨more, hmore⟩ := hstep _ (consistent_after interval moves) hmoves
  refine ⟨moves ++ more, ?_⟩
  unfold after
  rw [List.foldl_append]
  exact hmore

namespace Shows

variable (interval)

theorem wait (h : w.Shows t) {now : Nat} (hnow : t.now ≤ now) :
    (w.move interval (.wait (now - t.now))).Shows { t with now := now } where
  coordinator := h.coordinator
  now := by
    change w.now + (now - t.now) = now
    rw [h.now, Nat.add_sub_cancel' hnow]
  timers := h.timers

theorem notify (h : w.Shows t) (hinterval : Timeline.pause t.debounce = interval)
    (change : Change) (timed : Bool) :
    ([.note change, .count w.underWay.length timed].foldl (move interval) w).Shows
      (t.notify change timed) := by
  have hlast : (w.underWay ++ [w.now])[w.underWay.length]? = some w.now :=
    List.getElem?_concat_length
  rw [List.foldl_cons, List.foldl_cons, List.foldl_nil]
  unfold move
  dsimp only
  rw [hlast]
  refine ⟨?_, h.now, ?_⟩
  · change (w.coordinator.note change).renew = t.coordinator.notify change
    rw [h.coordinator]
    rfl
  · unfold Timeline.notify
    dsimp only
    rw [h.coordinator, h.now, hinterval]
    split
    · exact h.timers.append_right _
    · exact h.timers

theorem ask (h : w.Shows t) {r : Request} (hr : r ≠ .timer) :
    (w.move interval (.ask r)).Shows { t with coordinator := t.coordinator.ask r } := by
  unfold move
  dsimp only
  rw [if_neg hr, h.coordinator]
  exact ⟨rfl, h.now, h.timers⟩

theorem startPass (h : w.Shows t) (hw : w.Consistent interval) :
    ([.enter, .takeUp].foldl (move interval) w).Shows t.startPass := by
  have henter : (w.move interval .enter).coordinator = w.coordinator.enter ∧
      (w.move interval .enter).now = w.now ∧ (w.move interval .enter).timers = w.timers := by
    unfold move
    dsimp only
    split
    · exact ⟨rfl, rfl, rfl⟩
    · rename_i hnone
      refine ⟨?_, rfl, rfl⟩
      -- nobody has asked, so nobody waits
      unfold Coordinator.enter
      split
      · rename_i r rest hrunning hwaiting
        have hlength := hw.asked.length_eq
        rw [hwaiting] at hlength
        cases hasked : w.asked with
        | nil =>
            rw [hasked] at hlength
            cases hlength
        | cons a others => exact absurd hasked (hnone a others hrunning)
      · rfl
  obtain ⟨hcoordinator, hnow, htimers⟩ := henter
  refine ⟨?_, hnow.trans h.now, htimers ▸ h.timers⟩
  change (w.move interval .enter).coordinator.takeUp = t.coordinator.enter.takeUp
  rw [hcoordinator, h.coordinator]

theorem endPass (h : w.Shows t) (ht : t.coordinator.Reached) :
    (w.move interval .finish).Shows t.endPass := by
  refine ⟨?_, h.now, h.timers⟩
  change w.coordinator.act .finish = t.coordinator.finish
  rw [h.coordinator, ht.act_finish]

/-- A timer that is due fires. -/
theorem fire (h : w.Shows t) {x : Timer} {others : List Timer} (hdue : x.due ≤ t.now)
    (htimers : t.timers.Perm (x :: others)) :
    ∃ i, (w.move interval (.fire i)).Shows
      { t with timers := others, coordinator := t.coordinator.fire x.generation } := by
  have hmem : x ∈ w.timers := (h.timers.trans htimers).mem_iff.2 List.mem_cons_self
  obtain ⟨i, hi, rfl⟩ := List.mem_iff_getElem.1 hmem
  refine ⟨i, ?_⟩
  unfold move
  dsimp only
  rw [List.getElem?_eq_getElem hi]
  dsimp only
  rw [if_pos (h.now ▸ hdue), h.coordinator]
  refine ⟨rfl, h.now, ?_⟩
  have hperm := (List.getElem_cons_eraseIdx_perm hi).trans (h.timers.trans htimers)
  exact hperm.cons_inv

end Shows

/-- Events do not happen before now, nor timers before they are due. -/
theorem le_of_next? {at_ : Nat} {e : Timeline.Event} (h : t.next? = some (at_, e)) :
    t.now ≤ at_ ∧ ∀ x others, e = .fire x others → x.due ≤ at_ := by
  unfold Timeline.next? at h
  split at h
  · cases h
    exact ⟨Nat.le_refl _, nofun⟩
  · have hfire : ∀ (x : Timer) (others : List Timer) y more,
        Timeline.Event.fire x others = .fire y more → y.due ≤ max t.now x.due := by
      rintro x others _ _ ⟨⟩
      exact Nat.le_max_right _ _
    split at h
    · split at h
      · cases h
        exact ⟨Nat.le_max_left _ _, hfire _ _⟩
      · cases h
        exact ⟨Nat.le_max_left _ _, nofun⟩
    · cases h
      exact ⟨Nat.le_max_left _ _, nofun⟩
    · cases h
      exact ⟨Nat.le_max_left _ _, hfire _ _⟩
    · cases h

theorem Follows.happen (h : Follows interval t) (ht : t.coordinator.Reached) {at_ : Nat}
    {e : Timeline.Event} (hnext : t.next? = some (at_, e)) : Follows interval (t.happen at_ e) := by
  obtain ⟨hnow, hfire⟩ := le_of_next? hnext
  have hwaited : Follows interval { t with now := at_ } :=
    h.next fun w _ hshows => ⟨[.wait (at_ - t.now)], hshows.wait interval hnow⟩
  cases Timeline.next_of_next? hnext with
  | start hrunning hat =>
      exact hwaited.next fun w hw hshows => ⟨[.enter, .takeUp], hshows.startPass interval hw⟩
  | finish cs hrunning =>
      exact hwaited.next fun w _ hshows =>
        ⟨[.finish], Shows.endPass interval (t := { t with now := at_ }) hshows ht⟩
  | fire x others htimer =>
      refine hwaited.next fun w _ hshows => ?_
      obtain ⟨i, hi⟩ := hshows.fire interval (hfire x others rfl)
        (Timeline.nextTimer?_spec htimer).1
      exact ⟨[.fire i], hi⟩

/-- The timers of a list fire one after the other. -/
theorem Follows.fireAll {due rest : List Timer} (hdue : ∀ x ∈ due, x.due ≤ t.now)
    (h : Follows interval t) (htimers : t.timers.Perm (due ++ rest)) :
    Follows interval { t with
      timers := rest
      coordinator := due.foldl (fun c x => c.fire x.generation) t.coordinator } := by
  induction due generalizing t with
  | nil =>
      exact h.next fun w _ hshows =>
        ⟨[], hshows.coordinator, hshows.now, hshows.timers.trans htimers⟩
  | cons x due ih =>
      obtain ⟨hx, hdue⟩ := List.forall_mem_cons.1 hdue
      let fired : Timeline :=
        { t with timers := due ++ rest, coordinator := t.coordinator.fire x.generation }
      have hfired : Follows interval fired := h.next fun w _ hshows =>
        have ⟨i, hi⟩ := hshows.fire interval hx htimers
        ⟨[.fire i], hi⟩
      exact ih (t := fired) hdue hfired (List.Perm.refl _)

theorem keeps_follows (interval : Nat) :
    Timeline.Keeps fun t => Timeline.pause t.debounce = interval ∧ t.coordinator.Reached ∧
      Follows interval t where
  notify t change timed h :=
    ⟨h.1, Timeline.keeps_reached.notify t change timed h.2.1,
      h.2.2.next fun _ _ hshows => ⟨_, hshows.notify interval h.1 change timed⟩⟩
  happen t at_ e hnext h :=
    ⟨(Timeline.keeps_debounce t.debounce).happen t at_ e hnext rfl ▸ h.1,
      Timeline.keeps_reached.happen t at_ e hnext h.2.1, h.2.2.happen h.2.1 hnext⟩
  setNow t now hnow h :=
    ⟨h.1, h.2.1, h.2.2.next fun _ _ hshows => ⟨[.wait (now - t.now)], hshows.wait interval hnow⟩⟩
  ask t r hr h :=
    ⟨h.1, h.2.1.ask r, h.2.2.next fun _ _ hshows => ⟨[.ask r], hshows.ask interval hr⟩⟩
  fireDue t h := by
    refine ⟨h.1, Timeline.keeps_reached.fireDue t h.2.1, h.2.2.fireAll ?_ ?_⟩
    · intro x hx
      simpa using (List.mem_filter.1 hx).2
    · exact (List.filter_append_perm (fun x : Timer => decide (x.due ≤ t.now)) t.timers).symm
  startPass t h :=
    ⟨h.1, h.2.1.start, h.2.2.next fun _ hw hshows =>
      ⟨[.enter, .takeUp], hshows.startPass interval hw⟩⟩
  endPass t h :=
    ⟨h.1, h.2.1.finish, h.2.2.next fun _ _ hshows => ⟨[.finish], hshows.endPass interval h.2.1⟩⟩
  takeFinished t h :=
    ⟨h.1, h.2.1, h.2.2.next fun _ _ hshows =>
      ⟨[], hshows.coordinator, hshows.now, hshows.timers⟩⟩

/-- Whatever is called on a new timeline, it goes through some moves. -/
theorem follows_calls (debounce work : Nat) (calls : List Timeline.Call) :
    Follows (Timeline.pause debounce)
      (calls.foldl Timeline.call { debounce := debounce, work := work }) := by
  have hnew : Follows (Timeline.pause debounce) { debounce := debounce, work := work } :=
    ⟨[], rfl, rfl, List.Perm.refl _⟩
  have hkept := keeps_follows (Timeline.pause debounce)
  exact (hkept.calls (t := { debounce := debounce, work := work }) ⟨rfl, .empty, hnew⟩ calls).2.2

/-! ## Batches that timers lead to -/

/-- The turn of a pass has come that a timer asked for. What was reported before the timer fired
is further back than one interval, and the rest is what was reported while the pass waited; so
the batch is handed over undisturbed unless some report was made meanwhile and is recent, or is
still under way. -/
structure TimerTurn (interval : Nat) (w : Clocked) : Prop where
  past : w.turn.instant ≤ w.now
  split : w.reports = w.laterReports w.turn.generation ++ w.firstReports w.turn.generation
  first : ∀ r ∈ w.firstReports w.turn.generation, r.noted ≤ r.counted ∧
    r.counted + interval ≤ w.turn.instant
  later : ∀ r ∈ w.laterReports w.turn.generation, w.turn.instant ≤ r.counted ∧ r.counted ≤ w.now
  undisturbed_iff : w.Undisturbed interval ↔
    w.underWay = [] ∧ ∀ r ∈ w.laterReports w.turn.generation, r.counted + interval ≤ w.now

theorem Consistent.timerTurn (h : w.Consistent interval)
    (hturn : w.coordinator.running = some (.entered .timer)) : w.TimerTurn interval := by
  have hfrom := h.turn .timer hturn
  have hsplit : w.reports = w.laterReports w.turn.generation ++ w.firstReports w.turn.generation :=
    (List.take_append_drop _ _).symm
  have hfirst := hfrom.first rfl
  refine ⟨hfrom.past, hsplit, fun r hr => ?_, fun r hr => ?_, ?_⟩
  · exact ⟨(h.past.2 r (List.mem_of_mem_drop hr)).1, hfirst r hr⟩
  · exact ⟨hfrom.later r hr, (h.past.2 r (List.mem_of_mem_take hr)).2⟩
  · constructor
    · rintro ⟨hover, hreports⟩
      exact ⟨hover, fun r hr => hreports r (List.mem_of_mem_take hr)⟩
    · rintro ⟨hover, hlater⟩
      refine ⟨hover, fun r hr => ?_⟩
      rw [hsplit, List.mem_append] at hr
      rcases hr with hr | hr
      · exact hlater r hr
      · exact Nat.le_trans (hfirst r hr) hfrom.past

/-- A timer's batch is handed over when the turn of its pass has come. -/
theorem running_of_began {cs : List Change}
    (hbegan : .began (.batch .timer cs) ∈ w.coordinator.happenings .takeUp) :
    w.coordinator.running = some (.entered .timer) := by
  unfold Coordinator.happenings at hbegan
  dsimp only at hbegan
  cases w.coordinator.takenUp with
  | exclusive hrunning heq =>
      rw [heq, hrunning] at hbegan
      simp [Pass.isAtWork] at hbegan
  | batch r hrunning hsome heq =>
      rw [heq, hrunning] at hbegan
      simp only [Option.any_some, Pass.isAtWork, Bool.not_false, if_true, Option.toList_some,
        List.map_singleton, List.mem_singleton, Coordinator.Happening.began.injEq,
        Pass.batch.injEq] at hbegan
      rw [hrunning, ← hbegan.1]
  | nothing r hrunning heq =>
      rw [heq, hrunning] at hbegan
      simp at hbegan
  | idle hrunning heq =>
      rw [hrunning] at hbegan
      simp at hbegan

/-- Whatever happens in whatever order, whenever a timer leads to a batch: nothing was reported for
one interval when the timer fired, and the quiet period is respected exactly when no report was
made or begun since that is more recent than one interval. All that can be called on a timeline
is among what can happen. -/
theorem timer_batch_undisturbed_iff (debounce : Nat) :
    (∀ (moves : List Move) (cs : List Change), .began (.batch .timer cs) ∈
        (after (Timeline.pause debounce) moves).coordinator.happenings .takeUp →
      (after (Timeline.pause debounce) moves).TimerTurn (Timeline.pause debounce)) ∧
    ∀ (work : Nat) (calls : List Timeline.Call), Follows (Timeline.pause debounce)
      (calls.foldl Timeline.call { debounce := debounce, work := work }) := by
  refine ⟨fun moves cs hbegan => ?_, follows_calls debounce⟩
  exact (consistent_after _ moves).timerTurn (running_of_began hbegan)

/-- A report is made while a pass waits, and when its turn comes at last that report is old enough
too. -/
theorem timer_batch_undisturbed_iff_long_pass :
    let moves : List Move :=
      [.note ⟨"/p/a.py", .modified⟩, .count 0 true, .wait 1000, .fire 0, .enter, .takeUp, .wait 100,
        .note ⟨"/p/b.py", .modified⟩, .count 0 true, .wait 1000, .fire 0, .wait 300,
        .note ⟨"/p/b.py", .deleted⟩, .count 0 true, .wait 1000, .finish, .enter]
    let w := after (Timeline.pause 1000) moves
    let cs : List Change := [⟨"/p/b.py", .deleted⟩]
    .began (.batch .timer cs) ∈ w.coordinator.happenings .takeUp ∧ w.TimerTurn 1000 ∧
      w.laterReports w.turn.generation = [⟨2400, 2400⟩] ∧ w.Undisturbed 1000 := by
  intro moves w cs
  have hbegan : .began (.batch .timer cs) ∈ w.coordinator.happenings .takeUp := by
    decide +kernel
  have hturn := (timer_batch_undisturbed_iff 1000).1 moves cs hbegan
  exact ⟨hbegan, hturn, by decide +kernel, by decide +kernel⟩

/-- A batch takes longer than the interval. The next timer fires meanwhile and asks for a pass, its
file is reported again, and the pass takes that report with it 100 milliseconds after it was made.
The same on a timeline, where callers only report and wait. -/
theorem timer_batch_disturbed :
    let moves : List Move :=
      [.note ⟨"/p/a.py", .modified⟩, .count 0 true, .wait 1000, .fire 0, .enter, .takeUp, .wait 100,
        .note ⟨"/p/b.py", .modified⟩, .count 0 true, .wait 1000, .fire 0, .wait 300,
        .note ⟨"/p/b.py", .deleted⟩, .count 0 true, .wait 100, .finish, .enter]
    let w := after (Timeline.pause 1000) moves
    let cs : List Change := [⟨"/p/b.py", .deleted⟩]
    let calls : List Timeline.Call :=
      [.notify ⟨"/p/a.py", .modified⟩ true, .sleep 1100, .notify ⟨"/p/b.py", .modified⟩ true,
        .sleep 1300, .notify ⟨"/p/b.py", .deleted⟩ true, .sleep 200]
    .began (.batch .timer cs) ∈ w.coordinator.happenings .takeUp ∧ w.now = 2500 ∧
      ⟨2400, 2400⟩ ∈ w.reports ∧ ¬ w.Undisturbed (Timeline.pause 1000) ∧
      (calls.foldl Timeline.call { debounce := 1000, work := 1500 }).handed =
        [(1000, [⟨"/p/a.py", .modified⟩]), (2500, cs)] := by
  intro moves w cs calls
  refine ⟨?_, ?_, ?_, ?_, ?_⟩ <;> decide +kernel

end Clocked

end CodeIndex

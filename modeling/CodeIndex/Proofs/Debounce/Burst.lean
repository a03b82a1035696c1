import CodeIndex.Proofs.Debounce.Clock
/-!
# Bursts of reports

Reports that follow each other within the debounce interval are handled in one batch, one interval
after the last of them. Each report starts a timer, and only the timer of the last one leads to a
pass. What can spoil this is a pass that waited for its turn before the burst began: it takes up
the first reports as soon as they are there.
-/

namespace CodeIndex

namespace Change

/-- The table after some reports. -/
def insertAll (table reports : List Change) : List Change :=
  reports.foldl (fun table c => c.insert table) table

theorem insertAll_ne_nil {table : List Change} (htable : table ≠ []) (reports : List Change) :
    insertAll table reports ≠ [] := by
  induction reports generalizing table with
  | nil => exact htable
  | cons c reports ih =>
      have hinsert : c.insert table ≠ [] := by
        cases table with
        | nil => exact absurd rfl htable
        | cons d table =>
            unfold Change.insert
            split <;> exact List.cons_ne_nil _ _
      exact ih hinsert

theorem latest_insertAll {table older : List Change} (hdistinct : Distinct table)
    (hlatest : Latest table older) (reports : List Change) :
    Distinct (insertAll table reports) ∧
      Latest (insertAll table reports) (reports.reverse ++ older) := by
  induction reports generalizing table older with
  | nil => exact ⟨hdistinct, hlatest⟩
  | cons c reports ih =>
      rw [List.reverse_cons, List.append_assoc]
      exact ih (hdistinct.insert c) (hlatest.insert hdistinct c)

end Change

namespace Timeline

variable {t : Timeline}

/-! ## The next event -/

theorem exists_nextTimer? {timers : List Timer} {x : Timer} (hx : x ∈ timers) :
    ∃ timer others, nextTimer? timers = some (timer, others) := by
  cases timers with
  | nil => cases hx
  | cons a rest =>
      unfold nextTimer?
      split
      · split
        · exact ⟨_, _, rfl⟩
        · exact ⟨_, _, rfl⟩
      · exact ⟨_, _, rfl⟩

theorem nextTimer?_spec {timers : List Timer} {timer : Timer} {others : List Timer}
    (h : nextTimer? timers = some (timer, others)) :
    timers.Perm (timer :: others) ∧ ∀ x ∈ timers, timer.due ≤ x.due := by
  induction timers generalizing timer others with
  | nil => cases h
  | cons a rest ih =>
      unfold nextTimer? at h
      cases hrest : nextTimer? rest with
      | none =>
          have hnil : rest = [] := by
            rw [List.eq_nil_iff_forall_not_mem]
            intro x hx
            obtain ⟨_, _, hsome⟩ := exists_nextTimer? hx
            rw [hrest] at hsome
            cases hsome
          rw [hrest] at h
          cases h
          rw [hnil]
          exact ⟨List.Perm.refl _, by simp⟩
      | some found =>
          obtain ⟨b, left⟩ := found
          obtain ⟨hperm, hleast⟩ := ih hrest
          rw [hrest] at h
          dsimp only at h
          split at h
          · rename_i hlt
            cases h
            refine ⟨(hperm.cons a).trans (List.Perm.swap _ a left), ?_⟩
            intro x hx
            rcases List.mem_cons.1 hx with rfl | hx
            · exact Nat.le_of_lt hlt
            · exact hleast x hx
          · rename_i hle
            cases h
            refine ⟨List.Perm.refl _, ?_⟩
            intro x hx
            rcases List.mem_cons.1 hx with rfl | hx
            · exact Nat.le_refl _
            · exact Nat.le_trans (Nat.le_of_not_lt hle) (hleast x hx)

/-- What the next event can be. -/
inductive Next (t : Timeline) (at_ : Nat) : Event → Prop where
  | start (hrunning : t.coordinator.running = none) (hat : at_ = t.now) : Next t at_ .start
  | finish (cs : List Change) (hrunning : t.coordinator.running = some (.batch .timer cs)) :
      Next t at_ .finish
  | fire (timer : Timer) (others : List Timer)
      (htimer : nextTimer? t.timers = some (timer, others)) : Next t at_ (.fire timer others)

theorem next_of_next? {at_ : Nat} {e : Event} (h : t.next? = some (at_, e)) : t.Next at_ e := by
  unfold next? at h
  split at h
  · rename_i hturn
    cases h
    rw [Bool.and_eq_true, Option.isNone_iff_eq_none] at hturn
    exact .start hturn.1 rfl
  · have hbatch : ∀ stop, t.batchEnd? = some stop →
        ∃ cs, t.coordinator.running = some (.batch .timer cs) := by
      intro stop hstop
      unfold batchEnd? at hstop
      split at hstop
      · rename_i cs hrunning
        exact ⟨cs, hrunning⟩
      · cases hstop
    split at h
    · rename_i stop timer others hstop htimer
      obtain ⟨cs, hrunning⟩ := hbatch stop hstop
      split at h
      · cases h
        exact .fire timer others htimer
      · cases h
        exact .finish cs hrunning
    · rename_i stop hstop htimer
      obtain ⟨cs, hrunning⟩ := hbatch stop hstop
      cases h
      exact .finish cs hrunning
    · rename_i timer others hstop htimer
      cases h
      exact .fire timer others htimer
    · cases h

/-! ## What is handed over -/

/-- The batch that is at work, with the instant at which it was handed over. -/
def inHand (t : Timeline) : List (Nat × List Change) :=
  match t.coordinator.running with
  | some (.batch _ cs) => [(t.started, cs)]
  | _ => []

/-- The batches that were handed over and not looked at yet, each with its instant. -/
def handed (t : Timeline) : List (Nat × List Change) :=
  t.finished.map (fun b => (b.start, b.changes)) ++ t.inHand

theorem handed_endPass (t : Timeline) : t.endPass.handed = t.handed := by
  unfold handed inHand endPass Coordinator.finish
  cases t.coordinator.running with
  | none => simp
  | some pass => cases pass <;> simp

theorem handed_of_idle (hrunning : t.coordinator.running = none) :
    t.handed = t.finished.map fun b => (b.start, b.changes) := by
  unfold handed inHand
  rw [hrunning]
  exact List.append_nil _

/-- A pass that waits for changes takes up all that are there. -/
theorem startPass_of_waiting {r : Request} {rest : List Request}
    (hrunning : t.coordinator.running = none) (hwaiting : t.coordinator.waiting = r :: rest)
    (hr : r ≠ .exclusive) (hpending : t.coordinator.pending ≠ []) :
    t.startPass.coordinator.pending = [] ∧
      t.startPass.handed = t.handed ++ [(t.now, Change.sorted t.coordinator.pending)] := by
  have hempty : t.coordinator.pending.isEmpty = false := by
    simpa using hpending
  have hstart : t.coordinator.start =
      { t.coordinator with
        pending := []
        waiting := rest
        running := some (.batch r (Change.sorted t.coordinator.pending))
        inFlight := true } := by
    unfold Coordinator.start Coordinator.enter Coordinator.takeUp
    rw [hrunning, hwaiting]
    cases r with
    | exclusive => exact absurd rfl hr
    | timer => simp [hempty]
    | flush => simp [hempty]
  rw [handed_of_idle hrunning]
  unfold startPass handed inHand
  rw [hstart]
  exact ⟨rfl, rfl⟩

/-- When a pass starts, nothing is handed over, or all that waits. -/
theorem handed_startPass (hrunning : t.coordinator.running = none) :
    t.startPass.coordinator.pending = t.coordinator.pending ∧ t.startPass.handed = t.handed ∨
      t.coordinator.pending ≠ [] ∧
        t.startPass.handed = t.handed ++ [(t.now, Change.sorted t.coordinator.pending)] := by
  have hnothing : t.coordinator.start.pending = t.coordinator.pending →
      (t.coordinator.start.running = none ∨ t.coordinator.start.running = some .exclusive) →
        t.startPass.coordinator.pending = t.coordinator.pending ∧
          t.startPass.handed = t.handed := by
    intro hpending hstarted
    refine ⟨hpending, ?_⟩
    rw [handed_of_idle hrunning]
    unfold startPass handed inHand
    rcases hstarted with hstarted | hstarted <;> simp [hstarted]
  have hstart : t.coordinator.start = t.coordinator.enter.takeUp := rfl
  cases hwaiting : t.coordinator.waiting with
  | nil =>
      refine Or.inl (hnothing ?_ (Or.inl ?_)) <;>
        simp [hstart, Coordinator.enter, Coordinator.takeUp, hrunning, hwaiting]
  | cons r rest =>
      by_cases hr : r = .exclusive
      · refine Or.inl (hnothing ?_ (Or.inr ?_)) <;>
          simp [hstart, Coordinator.enter, Coordinator.takeUp, hrunning, hwaiting, hr]
      by_cases hpending : t.coordinator.pending = []
      · refine Or.inl (hnothing ?_ (Or.inl ?_)) <;> cases r <;>
          simp_all [Coordinator.enter, Coordinator.takeUp]
      · exact Or.inr ⟨hpending, (startPass_of_waiting hrunning hwaiting hr hpending).2⟩

/-! ## Events -/

/-- An event hands nothing over, or all that waits. -/
theorem handed_happen {at_ : Nat} {e : Event} (hnext : t.next? = some (at_, e)) :
    (t.happen at_ e).coordinator.pending = t.coordinator.pending ∧
        (t.happen at_ e).handed = t.handed ∨
      t.coordinator.pending ≠ [] ∧
        (t.happen at_ e).handed = t.handed ++ [(at_, Change.sorted t.coordinator.pending)] := by
  cases next_of_next? hnext with
  | start hrunning hat =>
      exact handed_startPass (t := { t with now := at_ }) hrunning
  | finish cs hrunning =>
      exact Or.inl ⟨rfl, handed_endPass { t with now := at_ }⟩
  | fire timer others htimer =>
      refine Or.inl ?_
      unfold happen handed inHand Coordinator.fire
      dsimp only
      split <;> exact ⟨rfl, rfl⟩

theorem prefix_handed_run (limit fuel : Nat) (t : Timeline) :
    t.handed <+: (run limit fuel t).handed := by
  induction fuel generalizing t with
  | zero => exact List.prefix_rfl
  | succ fuel ih =>
      unfold run
      split
      · rename_i at_ e hnext
        split
        · refine List.IsPrefix.trans ?_ (ih (t.happen at_ e))
          rcases handed_happen hnext with ⟨-, hsame⟩ | ⟨-, hmore⟩
          · exact hsame ▸ List.prefix_rfl
          · rw [hmore]
            exact List.prefix_append _ _
        · exact List.prefix_rfl
      · exact List.prefix_rfl

/-- When nothing waits, nothing is handed over. -/
theorem run_of_nothing (limit fuel : Nat) (hpending : t.coordinator.pending = []) :
    (run limit fuel t).coordinator.pending = [] ∧ (run limit fuel t).handed = t.handed := by
  induction fuel generalizing t with
  | zero => exact ⟨hpending, rfl⟩
  | succ fuel ih =>
      unfold run
      split
      · rename_i at_ e hnext
        split
        · rcases handed_happen hnext with ⟨hsame, hhanded⟩ | ⟨hsome, -⟩
          · rw [← hhanded]
            exact ih (hsame.trans hpending)
          · exact absurd hpending hsome
        · exact ⟨hpending, rfl⟩
      · exact ⟨hpending, rfl⟩

/-- A pass that waits for changes takes up all that are there before any time passes. -/
theorem run_of_waiting {r : Request} {rest : List Request}
    (hrunning : t.coordinator.running = none) (hwaiting : t.coordinator.waiting = r :: rest)
    (hr : r ≠ .exclusive) (hpending : t.coordinator.pending ≠ []) {limit : Nat}
    (hlimit : t.now < limit) {fuel : Nat} (hfuel : 0 < fuel) :
    (run limit fuel t).coordinator.pending = [] ∧
      (run limit fuel t).handed = t.handed ++ [(t.now, Change.sorted t.coordinator.pending)] := by
  obtain ⟨fuel, rfl⟩ := Nat.exists_eq_succ_of_ne_zero (Nat.ne_of_gt hfuel)
  have hnext : t.next? = some (t.now, .start) := by
    unfold next?
    rw [hrunning, hwaiting]
    rfl
  obtain ⟨hnone, hhanded⟩ := startPass_of_waiting hrunning hwaiting hr hpending
  unfold run
  rw [hnext]
  dsimp only
  rw [if_pos hlimit, ← hhanded]
  exact run_of_nothing limit fuel hnone

/-! ## The timer of the last report -/

/-- No pass runs or waits, and of the timers only the one that is due then is not overtaken. -/
structure Armed (t : Timeline) (due : Nat) : Prop where
  running : t.coordinator.running = none
  waiting : t.coordinator.waiting = []
  timer : ⟨due, t.coordinator.generation⟩ ∈ t.timers
  behind : ∀ x ∈ t.timers, x.generation ≤ t.coordinator.generation
  current : ∀ x ∈ t.timers, x.generation = t.coordinator.generation → x.due = due
  ahead : t.now ≤ due

/-- Nothing was reported or handed over meanwhile. -/
structure Quiet (t t' : Timeline) : Prop where
  pending : t'.coordinator.pending = t.coordinator.pending
  handed : t'.handed = t.handed
  debounce : t'.debounce = t.debounce

theorem Quiet.refl (t : Timeline) : Quiet t t :=
  ⟨rfl, rfl, rfl⟩

theorem Quiet.trans {t' t'' : Timeline} (h : Quiet t t') (h' : Quiet t' t'') : Quiet t t'' :=
  ⟨h'.pending.trans h.pending, h'.handed.trans h.handed, h'.debounce.trans h.debounce⟩

namespace Armed

variable {due : Nat}

/-- What happens next: an overtaken timer fires, or the one of the last report does. -/
inductive Tick (t : Timeline) (due : Nat) : Prop where
  | overtaken (at_ : Nat) (e : Event) (hnext : t.next? = some (at_, e)) (hat : at_ ≤ due)
      (hlength : (t.happen at_ e).timers.length + 1 = t.timers.length)
      (harmed : (t.happen at_ e).Armed due) (hquiet : Quiet t (t.happen at_ e))
  | due (e : Event) (hnext : t.next? = some (due, e)) (hquiet : Quiet t (t.happen due e))
      (hnow : (t.happen due e).now = due)
      (hrunning : (t.happen due e).coordinator.running = none)
      (hwaiting : (t.happen due e).coordinator.waiting = [.timer])

theorem tick (h : t.Armed due) : Tick t due := by
  obtain ⟨timer, others, htimer⟩ := exists_nextTimer? h.timer
  obtain ⟨hperm, hleast⟩ := nextTimer?_spec htimer
  have hdue : timer.due ≤ due := hleast _ h.timer
  have hmem : timer ∈ t.timers := hperm.mem_iff.2 List.mem_cons_self
  have hnext : t.next? = some (max t.now timer.due, .fire timer others) := by
    unfold next? batchEnd?
    rw [h.running, h.waiting, htimer]
    rfl
  have hinHand : ∀ c : Coordinator, c.running = none →
      ({ t with now := max t.now timer.due, timers := others, coordinator := c } :
        Timeline).handed = t.handed := by
    intro c hc
    rw [handed_of_idle hc, handed_of_idle h.running]
  by_cases hcurrent : timer.generation = t.coordinator.generation
  · have hat : max t.now timer.due = due := by
      rw [h.current timer hmem hcurrent]
      exact Nat.max_eq_right h.ahead
    have hfire : t.coordinator.fire timer.generation = t.coordinator.ask .timer := by
      unfold Coordinator.fire
      rw [if_pos (beq_iff_eq.2 hcurrent)]
    have hasked : t.happen (max t.now timer.due) (.fire timer others) =
        { t with
          now := max t.now timer.due
          timers := others
          coordinator := t.coordinator.ask .timer } := by
      unfold happen
      dsimp only
      rw [hfire]
    rw [hat] at hnext
    refine .due _ hnext ?_ rfl ?_ ?_
    · rw [← hat, hasked]
      exact ⟨rfl, hinHand _ h.running, rfl⟩
    · rw [← hat, hasked]
      exact h.running
    · rw [← hat, hasked]
      show t.coordinator.waiting ++ [.timer] = [.timer]
      rw [h.waiting]
      rfl
  · have hfire : t.coordinator.fire timer.generation = t.coordinator := by
      unfold Coordinator.fire
      rw [if_neg (mt beq_iff_eq.1 hcurrent)]
    have hleft : t.happen (max t.now timer.due) (.fire timer others) =
        { t with now := max t.now timer.due, timers := others } := by
      unfold happen
      dsimp only
      rw [hfire]
    have hothers : ∀ x ∈ others, x ∈ t.timers := fun x hx =>
      hperm.mem_iff.2 (List.mem_cons_of_mem timer hx)
    refine .overtaken _ _ hnext (Nat.max_le.2 ⟨h.ahead, hdue⟩) ?_ ?_ ?_
    · rw [hleft]
      exact hperm.length_eq.symm
    · rw [hleft]
      refine ⟨h.running, h.waiting, ?_, ?_, ?_, ?_⟩
      · have hstill := hperm.mem_iff.1 h.timer
        rcases List.mem_cons.1 hstill with heq | hstill
        · exact absurd (congrArg Timer.generation heq).symm hcurrent
        · exact hstill
      · exact fun x hx => h.behind x (hothers x hx)
      · exact fun x hx => h.current x (hothers x hx)
      · exact Nat.max_le.2 ⟨h.ahead, hdue⟩
    · rw [hleft]
      exact ⟨rfl, hinHand _ h.running, rfl⟩

/-- Until the timer of the last report is due, nothing is handed over. -/
theorem run_before (h : t.Armed due) {limit : Nat} (hlimit : limit ≤ due) (fuel : Nat) :
    (run limit fuel t).Armed due ∧ Quiet t (run limit fuel t) := by
  induction fuel generalizing t with
  | zero => exact ⟨h, .refl t⟩
  | succ fuel ih =>
      unfold run
      cases h.tick with
      | overtaken at_ e hnext hat hlength harmed hquiet =>
          rw [hnext]
          dsimp only
          split
          · obtain ⟨hlater, hquiet'⟩ := ih harmed
            exact ⟨hlater, hquiet.trans hquiet'⟩
          · exact ⟨h, .refl t⟩
      | due e hnext hquiet hnow hrunning hwaiting =>
          rw [hnext]
          dsimp only
          rw [if_neg (Nat.not_lt.2 hlimit)]
          exact ⟨h, .refl t⟩

/-- When the timer of the last report is due, all that waits is handed over, and then nothing. -/
theorem run_after (h : t.Armed due) {limit : Nat} (hlimit : due < limit)
    (hpending : t.coordinator.pending ≠ []) {fuel : Nat} (hfuel : 3 * t.timers.length ≤ fuel) :
    (run limit fuel t).coordinator.pending = [] ∧
      (run limit fuel t).handed = t.handed ++ [(due, Change.sorted t.coordinator.pending)] := by
  -- an overtaken timer that fires is gone, so that three steps for each timer are enough
  induction fuel generalizing t with
  | zero =>
      have hpos := List.length_pos_of_mem h.timer
      omega
  | succ fuel ih =>
      unfold run
      cases h.tick with
      | overtaken at_ e hnext hat hlength harmed hquiet =>
          rw [hnext]
          dsimp only
          rw [if_pos (Nat.lt_of_le_of_lt hat hlimit), ← hquiet.pending, ← hquiet.handed]
          exact ih harmed (hquiet.pending ▸ hpending) (by omega)
      | due e hnext hquiet hnow hrunning hwaiting =>
          rw [hnext]
          dsimp only
          have hsome : (t.happen due e).coordinator.pending ≠ [] := hquiet.pending ▸ hpending
          have hpos := List.length_pos_of_mem h.timer
          have hbegun : (t.happen due e).now < limit := by
            rw [hnow]
            exact hlimit
          have hleft : 0 < fuel := by omega
          have hchanges : Request.timer ≠ .exclusive := by decide
          have hstarted := run_of_waiting hrunning hwaiting hchanges hsome hbegun hleft
          rw [hnow, hquiet.pending, hquiet.handed] at hstarted
          rw [if_pos hlimit]
          exact hstarted

/-- Sleeping until before the timer of the last report is due changes nothing but the clock. -/
theorem sleep (h : t.Armed due) {ms : Nat} (hms : t.now + pause ms ≤ due) :
    (t.sleep ms).Armed due ∧ Quiet t (t.sleep ms) := by
  unfold Timeline.sleep advance
  split
  · exact ⟨h, .refl t⟩
  · obtain ⟨hlater, hquiet⟩ := h.run_before hms t.bound
    refine ⟨⟨hlater.running, hlater.waiting, hlater.timer, hlater.behind, hlater.current, hms⟩, ?_⟩
    exact ⟨hquiet.pending, hquiet.handed, hquiet.debounce⟩

end Armed

/-! ## Reports one after the other -/

/-- Reports, each of them some time after the one before. -/
def burst (t : Timeline) (first : Change) (rest : List (Nat × Change)) : Timeline :=
  rest.foldl (fun t r => (t.sleep r.1).notify r.2 true) (t.notify first true)

/-- No timer is ahead of the reports. -/
def Behind (t : Timeline) : Prop :=
  ∀ x ∈ t.timers, x.generation ≤ t.coordinator.generation

theorem generation_start (c : Coordinator) : c.start.generation = c.generation := by
  have hentered : c.enter.generation = c.generation := by
    unfold Coordinator.enter
    split <;> rfl
  have htaken : c.enter.takeUp.generation = c.enter.generation := by
    cases c.enter.takenUp with
    | exclusive hrunning heq => rw [heq]
    | batch r hrunning hsome heq => rw [heq]
    | nothing r hrunning heq => rw [heq]
    | idle hrunning heq => rw [heq]
  exact htaken.trans hentered

theorem generation_fire (c : Coordinator) (generation : Nat) :
    (c.fire generation).generation = c.generation := by
  unfold Coordinator.fire
  split <;> rfl

theorem keeps_behind : Keeps Behind where
  notify t change timed h := by
    have holder : ∀ x ∈ t.timers, x.generation ≤ t.coordinator.generation + 1 := fun x hx =>
      Nat.le_succ_of_le (h x hx)
    unfold Behind Timeline.notify
    dsimp only
    split
    · intro x hx
      rcases List.mem_append.1 hx with hx | hx
      · exact holder x hx
      · exact Nat.le_of_eq (congrArg Timer.generation (List.mem_singleton.1 hx))
    · exact holder
  happen t at_ e hnext h := by
    cases next_of_next? hnext with
    | start hrunning hat =>
        intro x hx
        exact le_of_le_of_eq (h x hx) (generation_start t.coordinator).symm
    | finish cs hrunning => exact h
    | fire timer others htimer =>
        intro x hx
        have hmem := (nextTimer?_spec htimer).1.mem_iff.2 (List.mem_cons_of_mem timer hx)
        exact le_of_le_of_eq (h x hmem) (generation_fire t.coordinator timer.generation).symm
  setNow t now _ h := h
  ask t r _ h := h
  fireDue t h := by
    have hsame : ∀ (due : List Timer) (c : Coordinator),
        (due.foldl (fun c x => c.fire x.generation) c).generation = c.generation := by
      intro due
      induction due with
      | nil => exact fun c => rfl
      | cons x due ih => exact fun c => (ih _).trans (generation_fire c x.generation)
    intro x hx
    exact le_of_le_of_eq (h x (List.mem_filter.1 hx).1) (hsame _ t.coordinator).symm
  startPass t h x hx := le_of_le_of_eq (h x hx) (generation_start t.coordinator).symm
  endPass t h := h
  takeFinished t h := h

/-- After a report the timer that it started is the one that counts. -/
theorem Behind.armed_notify (h : t.Behind) (hrunning : t.coordinator.running = none)
    (hwaiting : t.coordinator.waiting = []) (change : Change) :
    (t.notify change true).Armed (t.now + pause t.debounce) where
  running := hrunning
  waiting := hwaiting
  timer := List.mem_append_right _ (List.mem_singleton.2 rfl)
  behind := keeps_behind.notify t change true h
  current x hx hcurrent := by
    rcases List.mem_append.1 hx with hx | hx
    · have hbehind := h x hx
      have hnew : x.generation = t.coordinator.generation + 1 := hcurrent
      omega
    · rw [List.mem_singleton.1 hx]
  ahead := Nat.le_add_right _ _

/-- Reports within the interval of each other only put off the timer that counts. -/
theorem Armed.reports {due : Nat} (h : t.Armed due) (hdue : due = t.now + pause t.debounce)
    (rest : List (Nat × Change)) (hgaps : ∀ r ∈ rest, r.1 < t.debounce) :
    let b := rest.foldl (fun t r => (t.sleep r.1).notify r.2 true) t
    b.Armed (b.now + pause t.debounce) ∧ b.handed = t.handed ∧ b.debounce = t.debounce ∧
      b.coordinator.pending =
        Change.insertAll t.coordinator.pending (rest.map (·.2)) := by
  -- by each report the clock is armed anew, for one interval after that report
  induction rest generalizing t due with
  | nil => exact ⟨hdue ▸ h, rfl, rfl, rfl⟩
  | cons r rest ih =>
      have hgap : t.now + pause r.1 ≤ due := by
        have hlt := hgaps r List.mem_cons_self
        rw [hdue]
        unfold pause
        omega
      obtain ⟨hslept, hquiet⟩ := h.sleep hgap
      have hnotified := Behind.armed_notify hslept.behind hslept.running hslept.waiting r.2
      have hhanded : ((t.sleep r.1).notify r.2 true).handed = t.handed := hquiet.handed
      have hdebounce : ((t.sleep r.1).notify r.2 true).debounce = t.debounce := hquiet.debounce
      have hpending : ((t.sleep r.1).notify r.2 true).coordinator.pending =
          r.2.insert t.coordinator.pending := congrArg r.2.insert hquiet.pending
      have hrest := ih hnotified rfl fun x hx =>
        lt_of_lt_of_eq (hgaps x (List.mem_cons_of_mem r hx)) hdebounce.symm
      rw [hhanded, hdebounce, hpending] at hrest
      exact hrest

/-- What was reported until `b` is handed over in one batch when it is due, and nothing else is
handed over after `t`. -/
structure Coalesced (t b : Timeline) (due : Nat) (reports : List Change) : Prop where
  before : ∀ limit ≤ due, (b.advance limit).handed = t.handed
  after : ∃ cs, Change.IsBatchOf cs b.coordinator.pending ∧
    Change.Latest cs reports.reverse ∧
      ∀ limit > due, (b.advance limit).coordinator.pending = [] ∧
        (b.advance limit).handed = t.handed ++ [(due, cs)]

/-- From a clock on which no pass runs or waits. -/
theorem coalesced_burst {t : Timeline} (hbehind : t.Behind)
    (hpending : t.coordinator.pending = []) (hrunning : t.coordinator.running = none)
    (hwaiting : t.coordinator.waiting = []) (first : Change) (rest : List (Nat × Change))
    (hgaps : ∀ r ∈ rest, r.1 < t.debounce) :
    Coalesced t (t.burst first rest) ((t.burst first rest).now + pause t.debounce)
      (first :: rest.map (·.2)) := by
  have hfirst := hbehind.armed_notify hrunning hwaiting first
  obtain ⟨harmed, hhanded, -, htable⟩ := hfirst.reports rfl rest hgaps
  have hnotified : (t.notify first true).handed = t.handed := rfl
  have htabled : (t.burst first rest).coordinator.pending =
      Change.insertAll t.coordinator.pending (first :: rest.map (·.2)) := htable
  have hempty : Change.Distinct [] ∧ Change.Latest [] [] := ⟨List.nodup_nil, Change.latest_nil⟩
  rw [← hpending] at hempty
  obtain ⟨hdistinct, hlatest⟩ :=
    Change.latest_insertAll hempty.1 hempty.2 (first :: rest.map (·.2))
  rw [← htabled] at hdistinct hlatest
  rw [hpending, List.append_nil] at hlatest
  have hsome : (t.burst first rest).coordinator.pending ≠ [] := by
    rw [htabled, hpending]
    exact Change.insertAll_ne_nil (List.cons_ne_nil first []) (rest.map (·.2))
  refine ⟨?_, ?_⟩
  · intro limit hlimit
    obtain ⟨-, hquiet⟩ := harmed.run_before hlimit (t.burst first rest).bound
    exact hquiet.handed.trans (hhanded.trans hnotified)
  · refine ⟨_, Change.isBatchOf_sorted hdistinct hsome,
      hlatest.perm (Change.perm_sorted _), ?_⟩
    intro limit hlimit
    have hfuel : 3 * (t.burst first rest).timers.length ≤ (t.burst first rest).bound := by
      unfold bound
      omega
    obtain ⟨hnone, hbatch⟩ := harmed.run_after hlimit hsome hfuel
    rw [hhanded.trans hnotified] at hbatch
    exact ⟨hnone, hbatch⟩

/-! ## A pass that waits -/

theorem prefix_handed_sleep (t : Timeline) (ms : Nat) : t.handed <+: (t.sleep ms).handed := by
  unfold sleep advance
  split
  · exact List.prefix_rfl
  · exact prefix_handed_run (t.now + pause ms) t.bound t

theorem prefix_handed_reports (t : Timeline) (rest : List (Nat × Change)) :
    t.handed <+: (rest.foldl (fun t r => (t.sleep r.1).notify r.2 true) t).handed := by
  induction rest generalizing t with
  | nil => exact List.prefix_rfl
  | cons r rest ih =>
      have hslept := prefix_handed_sleep t r.1
      exact hslept.trans (ih ((t.sleep r.1).notify r.2 true))

/-- A pass that waits for changes takes up the first reports as soon as any time passes. -/
theorem taken_by_waiting {t : Timeline} {r : Request} {others : List Request}
    (hrunning : t.coordinator.running = none) (hwaiting : t.coordinator.waiting = r :: others)
    (hr : r ≠ .exclusive) (hpending : t.coordinator.pending ≠ []) (rest : List (Nat × Change)) :
    let b := rest.foldl (fun t r => (t.sleep r.1).notify r.2 true) t
    ∃ cs, cs ≠ [] ∧ ∀ limit > b.now, t.handed ++ [(t.now, cs)] <+: (b.advance limit).handed := by
  have hsorted : ∀ table : List Change, table ≠ [] → Change.sorted table ≠ [] := by
    intro table htable hnil
    exact htable (List.nil_perm.1 (hnil ▸ Change.perm_sorted table))
  have hbound : ∀ t : Timeline, 0 < t.bound := fun t => Nat.succ_pos _
  induction rest generalizing t with
  | nil =>
      refine ⟨_, hsorted _ hpending, ?_⟩
      intro limit hlimit
      obtain ⟨-, hhanded⟩ := run_of_waiting hrunning hwaiting hr hpending hlimit (hbound t)
      exact hhanded ▸ List.prefix_rfl
  | cons next rest ih =>
      obtain ⟨ms, change⟩ := next
      by_cases hms : ms = 0
      · -- nothing happens between two reports at one instant
        rw [hms]
        have hmore : change.insert t.coordinator.pending ≠ [] :=
          Change.insertAll_ne_nil hpending [change]
        have hnotified : (t.sleep 0).notify change true = t.notify change true := rfl
        rw [List.foldl_cons, hnotified]
        exact @ih (t.notify change true) hrunning hwaiting hmore
      · refine ⟨_, hsorted _ hpending, ?_⟩
        intro limit _
        have hlater : t.now < t.now + pause ms := by
          unfold pause longestPause
          omega
        have hslept : (t.sleep ms).handed =
            t.handed ++ [(t.now, Change.sorted t.coordinator.pending)] := by
          unfold sleep
          rw [if_neg (by simpa using hms)]
          exact (run_of_waiting hrunning hwaiting hr hpending hlater (hbound t)).2
        have hreports := prefix_handed_reports ((t.sleep ms).notify change true) rest
        have hnotified : ((t.sleep ms).notify change true).handed = (t.sleep ms).handed := rfl
        rw [hnotified, hslept] at hreports
        exact hreports.trans (prefix_handed_run limit _ _)

theorem keeps_debounce (debounce : Nat) : Keeps fun t => t.debounce = debounce where
  notify t change timed h := h
  happen t at_ e _ h := by cases e <;> exact h
  setNow t now _ h := h
  ask t r _ h := h
  fireDue t h := h
  startPass t h := h
  endPass t h := h
  takeFinished t h := h

/-! ## Bursts on a clock in use -/

/-- Whatever was called on a clock before, when nothing is pending and no pass runs: a burst is
handed over in one batch, one interval after its last report, unless a pass waits for its turn. A
pass that waits for changes takes up the beginning of the burst at the instant of its first
report. -/
theorem burst_coalesces (debounce work : Nat) (calls : List Call) (first : Change)
    (rest : List (Nat × Change)) :
    let t := calls.foldl call { debounce := debounce, work := work }
    let b := t.burst first rest
    t.coordinator.pending = [] → t.coordinator.running = none →
    (∀ r ∈ rest, r.1 < debounce) →
      (t.coordinator.waiting = [] →
        Coalesced t b (b.now + pause debounce) (first :: rest.map (·.2))) ∧
      (∀ r others, t.coordinator.waiting = r :: others → r ≠ .exclusive →
        ∃ cs, cs ≠ [] ∧
          ∀ limit > b.now, t.handed ++ [(t.now, cs)] <+: (b.advance limit).handed) := by
  intro t b hpending hrunning hgaps
  have hbehind : t.Behind := keeps_behind.calls (fun x hx => absurd hx List.not_mem_nil) calls
  have hdebounce : t.debounce = debounce := (keeps_debounce debounce).calls rfl calls
  rw [← hdebounce] at hgaps ⊢
  refine ⟨fun hwaiting => coalesced_burst hbehind hpending hrunning hwaiting first rest hgaps, ?_⟩
  intro r others hwaiting hr
  have hreported : first.insert t.coordinator.pending ≠ [] := by
    rw [hpending]
    exact List.cons_ne_nil first []
  exact @taken_by_waiting (t.notify first true) r others hrunning hwaiting hr hreported rest

/-- The timer of a report that was flushed is still live when a burst begins, and has no effect. -/
theorem burst_coalesces_after_flush :
    let t := [Call.notify ⟨"/p/a.py", .modified⟩ true, .sleep 400, .flush].foldl call
      { debounce := 1000 }
    let rest := [(999, ⟨"/p/b.py", .modified⟩), (500, ⟨"/p/b.py", .deleted⟩)]
    let b := t.burst ⟨"/p/b.py", .modified⟩ rest
    t.coordinator.pending = [] ∧ t.coordinator.running = none ∧ t.coordinator.waiting = [] ∧
      t.timers = [⟨1000, 1⟩] ∧ b.now = 1899 ∧
      Coalesced t b (b.now + pause 1000) (⟨"/p/b.py", .modified⟩ :: rest.map (·.2)) ∧
      (b.advance 2900).handed = t.handed ++ [(2899, [⟨"/p/b.py", .deleted⟩])] := by
  intro t rest b
  have hidle : t.coordinator.pending = [] ∧ t.coordinator.running = none ∧
      t.coordinator.waiting = [] := by decide +kernel
  have hgaps : ∀ r ∈ rest, r.1 < 1000 := by decide
  have hburst := burst_coalesces 1000 0
    [.notify ⟨"/p/a.py", .modified⟩ true, .sleep 400, .flush] ⟨"/p/b.py", .modified⟩ rest
    hidle.1 hidle.2.1 hgaps
  exact ⟨hidle.1, hidle.2.1, hidle.2.2, by decide +kernel, by decide +kernel,
    hburst.1 hidle.2.2, by decide +kernel⟩

/-- A flush takes longer than the interval, so the timer of a report that it took fires meanwhile
and waits for its turn. A report made right after the flush is handed over at once, and not one
interval later. -/
theorem burst_taken_by_waiting_pass :
    let t := [Call.notify ⟨"/p/a.py", .modified⟩ true, .flush].foldl call
      { debounce := 1000, work := 1500 }
    let b := t.burst ⟨"/p/b.py", .modified⟩ []
    t.coordinator.pending = [] ∧ t.coordinator.running = none ∧ b.now + pause 1000 = 2500 ∧
      ¬ Coalesced t b (b.now + pause 1000) [⟨"/p/b.py", .modified⟩] := by
  intro t b
  refine ⟨by decide +kernel, by decide +kernel, by decide +kernel, ?_⟩
  intro h
  have hbefore := h.before 2400 (by decide +kernel)
  have htaken : (b.advance 2400).handed = t.handed ++ [(1500, [⟨"/p/b.py", .modified⟩])] := by
    decide +kernel
  rw [htaken] at hbefore
  simp at hbefore

end Timeline

end CodeIndex

import CodeIndex.Proofs.Project.Saving
import CodeIndex.Proofs.Project.Scanning
/-!
# Batches of changes

A change of a file is handled under the path of the file alone, by what lies there and what was
stored there. The changes of different files can therefore be handled in any order.
-/

namespace CodeIndex.Project

/-! ## Where a change leads -/

/-- A path is its own resolution when no link lies on it, whether there is something or not. -/
theorem resolved_ofNames {d : Disk} {names : List String} (hne : names ≠ [])
    (hnames : ∀ name ∈ names, Path.IsName name) (hlinks : d.Unlinked [] names) :
    resolved d (Path.ofNames names) = Path.ofNames names := by
  unfold resolved
  split
  · next text htext => exact Disk.eq_of_canonical?_unlinked hnames hlinks htext
  · -- only the directory is resolved, and the name put back behind it
    obtain ⟨init, last, rfl⟩ : ∃ init last, names = init ++ [last] :=
      ⟨names.dropLast, names.getLast hne, (List.dropLast_append_getLast hne).symm⟩
    have hdirectory : ∀ name ∈ init, Path.IsName name := fun name hname =>
      hnames name (List.mem_append_left _ hname)
    have habove : d.Unlinked [] init := fun above habove =>
      hlinks above (habove.trans (List.prefix_append _ _))
    have hjoin := Path.join_ofNames (List.cons_ne_nil last []) fun name hname =>
      And.intro (hnames name hname).ne_empty (hnames name hname).not_mem_slash
    rw [String.intercalate_singleton] at hjoin
    rw [Path.parent?_ofNames hnames, Path.fileName?_ofNames hnames]
    split
    · next parent name hparent hname =>
      cases hname
      rw [Disk.eq_of_canonical?_unlinked hdirectory habove hparent, hjoin]
    · rfl

/-- A change of the file with these names below the root. -/
def changeOf (p : Project) (c : ChangeKind × List String) : Change :=
  ⟨Path.ofNames (p.root ++ c.2), c.1⟩

/-- The file with these names below the root. -/
def fileOf (p : Project) (rest : List String) : FoundFile :=
  ⟨p.root ++ rest, p.pathTo rest⟩

/-- Names below the root whose paths lead to them, if anywhere. -/
structure IsDirect (p : Project) (d : Disk) (rest : List String) : Prop extends p.IsPlain rest where
  unlinked : d.Unlinked [] (p.root ++ rest)

theorem IsDirect.relative_ofNames {p : Project} {d : Disk} {rest : List String}
    (h : p.IsDirect d rest) :
    p.relative d (Path.ofNames (p.root ++ rest)) = .ok (p.pathTo rest) := by
  apply h.relative_eq
  have habsolute : Path.join p.rootPath (Path.ofNames (p.root ++ rest)) =
      Path.ofNames (p.root ++ rest) := if_pos (Path.isAbsolute_ofNames _)
  rw [habsolute]
  exact resolved_ofNames (by simp [h.ne_nil]) h.names h.unlinked

/-! ## One change -/

section Changes

variable (p : Project) (env : Surroundings)

/-- The change takes the file out of the index: it is reported as deleted, or no file is there any
more, or none that the filter accepts. -/
def takesOut (d : Disk) (c : ChangeKind × List String) : Bool :=
  c.1 == .deleted || !d.isFile (Path.ofNames (p.root ++ c.2)) || !p.filter.accepts (p.pathTo c.2)

/-- What is done about a change. -/
def handle (s : Store) (c : ChangeKind × List String) : Except IndexFault (Store × Outcome) :=
  if p.takesOut env.disk c then .ok (dropFile s (p.pathTo c.2))
  else p.attempt env false s (p.fileOf c.2)

theorem applyChange_eq {sc : Scan} {s : Store} (hs : sc.store = some s)
    {c : ChangeKind × List String} (hc : p.IsDirect env.disk c.2) :
    p.applyChange env sc (p.changeOf c) =
      sc.take (Path.ofNames (p.root ++ c.2)) (p.handle env s c) := by
  have hrelative := hc.relative_ofNames
  obtain ⟨kind, rest⟩ := c
  unfold applyChange changeOf handle takesOut
  dsimp only at hrelative ⊢
  rw [hs]
  cases kind with
  | deleted =>
      unfold forget
      rw [hrelative]
      rfl
  | modified =>
      unfold reindex
      rw [hrelative]
      simp only [bind, Except.bind]
      rw [hc.join_pathTo]
      rfl

/-- The view of a path after a change of it was handled, given the view before. -/
def reviewedBy (d : Disk) (grammar : Grammar) (c : ChangeKind × List String)
    (v : Option FileView) : Option FileView :=
  if p.takesOut d c then none
  else p.reviewed grammar false (p.languageOf (Path.ofNames (p.root ++ c.2))) v
    (p.readingOf d (p.fileOf c.2))

/-- What is reported of a file that is indexed unless it is unchanged, given the view before. -/
def reported (d : Disk) (grammar : Grammar) (f : FoundFile) (v : Option FileView) :
    Except IndexFault Outcome :=
  match p.fault? d (Path.ofNames f.place), p.readingOf d f with
  | some fault, _ => .error (.io fault)
  | none, .content bytes =>
    .ok (if v.any (·.hash == Digest.blake3 bytes.toList) then .unchanged
      else .indexed (p.viewOf grammar (p.languageOf (Path.ofNames f.place)) bytes).chunks.length)
  | none, _ => .ok .tooLarge

theorem length_viewOf (grammar : Grammar) (language : String) (bytes : ByteArray) :
    (p.viewOf grammar language bytes).chunks.length =
      (Store.firstOfRanges (parse grammar p.config.limits language
        (Text.decodeLossy bytes.toList)).chunks).length :=
  (Store.sortedBy_perm _ _).length_eq

theorem reported_attempt {s : Store} (h : s.Sound) (f : FoundFile) :
    (p.attempt env false s f).map (·.2) =
      p.reported env.disk env.grammar f (s.view f.path) := by
  unfold reported attempt
  cases hread : p.readingOf env.disk f with
  | failed =>
      obtain ⟨fault, hfault, heq⟩ := indexFile_of_failed hread s false f.path
      rw [heq, hfault]
      rfl
  | tooLarge =>
      rw [indexFile_of_tooLarge hread, fault?_of_readable (hread.trans_ne nofun)]
      rfl
  | content bytes =>
      obtain ⟨mtime, heq⟩ := indexFile_of_content hread s false f.path
      rw [heq, fault?_of_readable (hread.trans_ne nofun), isUpToDate_eq h]
      dsimp only
      rw [length_viewOf, Bool.not_false, Bool.true_and]
      split <;> rfl

/-- What is reported of a change, given the view before. -/
def reportedBy (d : Disk) (grammar : Grammar) (c : ChangeKind × List String)
    (v : Option FileView) : Except IndexFault Outcome :=
  if p.takesOut d c then .ok (if v.isSome then .removed else .ignored)
  else p.reported d grammar (p.fileOf c.2) v

/-- A change is handled by what lies under its path and what was stored there. -/
theorem handle_spec {s : Store} (h : s.Sound) (c : ChangeKind × List String) :
    (after s (p.handle env s c)).Sound ∧
      (∀ path, (after s (p.handle env s c)).view path =
        if path = p.pathTo c.2 then
          p.reviewedBy env.disk env.grammar c (s.view (p.pathTo c.2))
        else s.view path) ∧
      (p.handle env s c).map (·.2) =
        p.reportedBy env.disk env.grammar c (s.view (p.pathTo c.2)) := by
  unfold handle reviewedBy reportedBy
  cases hout : p.takesOut env.disk c with
  | true =>
      rw [if_pos rfl, if_pos rfl, if_pos rfl, dropFile_eq]
      exact ⟨(h.deleteFile _).1, h.view_deleteFile _, rfl⟩
  | false =>
      rw [if_neg Bool.false_ne_true, if_neg Bool.false_ne_true, if_neg Bool.false_ne_true]
      obtain ⟨hsound, hview⟩ := p.indexFile_spec env h false (Path.ofNames (p.root ++ c.2))
        (p.pathTo c.2)
      exact ⟨hsound, hview, p.reported_attempt env h (p.fileOf c.2)⟩

theorem sameAt_handle {s : Store} (h : s.Sound) {c : ChangeKind × List String} {path : String}
    (hne : path ≠ p.pathTo c.2) : Store.SameAt s (after s (p.handle env s c)) path := by
  unfold handle
  split
  · rw [dropFile_eq]
    exact h.sameAt_deleteFile hne
  · exact p.sameAt_attempt env h false fun hpath => absurd hpath.symm hne

end Changes

/-! ## One change after the other -/

section Runs

variable (p : Project) (env : Surroundings)

/-- The store after some changes were handled. -/
def afterChanges (s : Store) (cs : List (ChangeKind × List String)) : Store :=
  cs.foldl (fun s c => after s (p.handle env s c)) s

/-- A pass after some changes were handled. -/
def passed (sc : Scan) (cs : List (ChangeKind × List String)) : Scan :=
  cs.foldl (fun sc c => p.applyChange env sc (p.changeOf c)) sc

theorem applyChanges_eq (store : Option Store) (cs : List (ChangeKind × List String)) :
    p.applyChanges env store (cs.map p.changeOf) =
      p.passed env { store := store, stats := { scanned := cs.length } } cs := by
  unfold applyChanges passed
  rw [List.foldl_map, List.length_map]

theorem sound_afterChanges (cs : List (ChangeKind × List String)) {s : Store} (h : s.Sound) :
    (p.afterChanges env s cs).Sound := by
  induction cs generalizing s with
  | nil => exact h
  | cons c cs ih => exact ih (p.handle_spec env h c).1

theorem sameAt_afterChanges (cs : List (ChangeKind × List String)) {path : String}
    (hothers : ∀ c ∈ cs, path ≠ p.pathTo c.2) {s : Store} (h : s.Sound) :
    Store.SameAt s (p.afterChanges env s cs) path := by
  induction cs generalizing s with
  | nil => exact .refl s path
  | cons c cs ih =>
      have hhere := p.sameAt_handle env h (hothers c List.mem_cons_self)
      have hrest := ih (fun d hd => hothers d (List.mem_cons_of_mem c hd))
        (p.handle_spec env h c).1
      exact hhere.trans hrest

theorem store_passed (cs : List (ChangeKind × List String))
    (hdirect : ∀ c ∈ cs, p.IsDirect env.disk c.2) {sc : Scan} {s : Store}
    (hs : sc.store = some s) : (p.passed env sc cs).store = some (p.afterChanges env s cs) := by
  induction cs generalizing sc s with
  | nil => exact hs
  | cons c cs ih =>
      apply ih fun d hd => hdirect d (List.mem_cons_of_mem c hd)
      dsimp only
      rw [p.applyChange_eq env hs (hdirect c List.mem_cons_self)]
      exact store_take sc hs _ _

/-- What is reported of a change that fails. -/
def refusal? (d : Disk) (c : ChangeKind × List String) : Option FileError :=
  if p.takesOut d c then none
  else (p.fault? d (Path.ofNames (p.root ++ c.2))).map fun fault =>
    ⟨Path.ofNames (p.root ++ c.2), .io fault⟩

end Runs

end CodeIndex.Project

namespace CodeIndex.ScanStats

/-! ## Counts -/

/-- The statistics with the report of one more file. -/
def noted (stats : ScanStats) (path : String) : Except IndexFault Outcome → ScanStats
  | .ok outcome => stats.record outcome
  | .error fault => stats.recordError path fault

/-- The same counts, and the same errors in any order. -/
structure Agrees (a b : ScanStats) : Prop where
  counts : { a with errors := [] } = { b with errors := [] }
  errors : a.errors.Perm b.errors

theorem Agrees.refl (a : ScanStats) : a.Agrees a :=
  ⟨rfl, .refl _⟩

theorem Agrees.trans {a b c : ScanStats} (h : a.Agrees b) (h' : b.Agrees c) : a.Agrees c :=
  ⟨h.counts.trans h'.counts, h.errors.trans h'.errors⟩

theorem Agrees.noted {a b : ScanStats} (h : a.Agrees b) (path : String)
    (r : Except IndexFault Outcome) : (a.noted path r).Agrees (b.noted path r) := by
  obtain ⟨hcounts, herrors⟩ := h
  obtain ⟨scanned, indexed, skipped, tooLarge, removed, chunks, errors⟩ := a
  obtain ⟨scanned', indexed', skipped', tooLarge', removed', chunks', errors'⟩ := b
  cases hcounts
  -- a report changes the counts by itself and puts an error behind the others
  cases r with
  | error fault => exact ⟨rfl, herrors.append_right _⟩
  | ok outcome => cases outcome <;> exact ⟨rfl, herrors⟩

/-- Reports may be noted in either order. -/
theorem noted_comm (stats : ScanStats) (path path' : String) (r r' : Except IndexFault Outcome) :
    ((stats.noted path r).noted path' r').Agrees ((stats.noted path' r').noted path r) := by
  cases r with
  | error fault =>
      cases r' with
      | error fault' =>
          refine ⟨rfl, ?_⟩
          simp only [ScanStats.noted, recordError, List.append_assoc]
          exact (List.perm_append_comm).append_left _
      | ok outcome => cases outcome <;> exact .refl _
  | ok outcome =>
      cases r' with
      | error fault => cases outcome <;> exact .refl _
      | ok outcome' =>
          refine ⟨?_, ?_⟩ <;> cases outcome <;> cases outcome' <;>
            simp [ScanStats.noted, record, Nat.add_right_comm]

end CodeIndex.ScanStats

namespace CodeIndex.Project

/-! ## Changes in another order -/

theorem stats_take (sc : Scan) (path : String) (r : Except IndexFault (Store × Outcome)) :
    (sc.take path r).stats = sc.stats.noted path (r.map (·.2)) := by
  cases r <;> rfl

/-- Two passes after which the same is stored, ids and times aside, and the same was reported. -/
structure Agree (a b : Scan) : Prop where
  stores : ∃ s s', a.store = some s ∧ b.store = some s' ∧ s.Sound ∧ s'.Sound ∧
    ∀ path, s.view path = s'.view path
  stats : a.stats.Agrees b.stats

theorem Agree.refl {a : Scan} {s : Store} (hs : a.store = some s) (h : s.Sound) : Agree a a :=
  ⟨⟨s, s, hs, hs, h, h, fun _ => rfl⟩, .refl _⟩

theorem Agree.trans {a b c : Scan} (h : Agree a b) (h' : Agree b c) : Agree a c := by
  obtain ⟨s, s', hs, hs', hsound, -, hviews⟩ := h.stores
  obtain ⟨t, t', ht, ht', -, hsound', hviews'⟩ := h'.stores
  rw [hs', Option.some.injEq] at ht
  rw [← ht] at hviews'
  exact ⟨⟨s, t', hs, ht', hsound, hsound', fun path => (hviews path).trans (hviews' path)⟩,
    h.stats.trans h'.stats⟩

section Orders

variable {p : Project} {env : Surroundings}

variable (env) in
/-- A pass with one more change that is handled. -/
theorem applyChange_spec {sc : Scan} {s : Store} (hs : sc.store = some s) (h : s.Sound)
    {c : ChangeKind × List String} (hc : p.IsDirect env.disk c.2) :
    (p.applyChange env sc (p.changeOf c)).stats =
        sc.stats.noted (Path.ofNames (p.root ++ c.2))
          (p.reportedBy env.disk env.grammar c (s.view (p.pathTo c.2))) ∧
      ∃ s', (p.applyChange env sc (p.changeOf c)).store = some s' ∧ s'.Sound ∧
        ∀ path, s'.view path =
          if path = p.pathTo c.2 then
            p.reviewedBy env.disk env.grammar c (s.view (p.pathTo c.2))
          else s.view path := by
  obtain ⟨hsound, hviews, hreport⟩ := p.handle_spec env h c
  rw [p.applyChange_eq env hs hc, stats_take, hreport]
  exact ⟨rfl, _, store_take sc hs _ _, hsound, hviews⟩

theorem Agree.change {a b : Scan} (h : Agree a b) {c : ChangeKind × List String}
    (hc : p.IsDirect env.disk c.2) (now : Instant) :
    Agree (p.applyChange env a (p.changeOf c))
      (p.applyChange { env with now := now } b (p.changeOf c)) := by
  obtain ⟨s, s', hs, hs', hsound, hsound', hviews⟩ := h.stores
  obtain ⟨hstats, t, ht, htsound, htviews⟩ := applyChange_spec env hs hsound hc
  obtain ⟨hstats', t', ht', htsound', htviews'⟩ :=
    applyChange_spec { env with now := now } hs' hsound' hc
  refine ⟨⟨t, t', ht, ht', htsound, htsound', fun path => ?_⟩, ?_⟩
  · rw [htviews, htviews', hviews, hviews]
  · rw [hstats, hstats', hviews]
    exact h.stats.noted _ _

theorem Agree.passed (cs : List (ChangeKind × List String))
    (hdirect : ∀ c ∈ cs, p.IsDirect env.disk c.2) (now : Instant) {a b : Scan} (h : Agree a b) :
    Agree (p.passed env a cs) (p.passed { env with now := now } b cs) := by
  induction cs generalizing a b with
  | nil => exact h
  | cons c cs ih =>
      exact ih (fun d hd => hdirect d (List.mem_cons_of_mem c hd))
        (h.change (hdirect c List.mem_cons_self) now)

/-- Changes of different files may be handled in either order. -/
theorem agree_swap {sc : Scan} {s : Store} (hs : sc.store = some s) (h : s.Sound)
    {c d : ChangeKind × List String} (hc : p.IsDirect env.disk c.2) (hd : p.IsDirect env.disk d.2)
    (hne : p.pathTo c.2 ≠ p.pathTo d.2) :
    Agree (p.applyChange env (p.applyChange env sc (p.changeOf c)) (p.changeOf d))
      (p.applyChange env (p.applyChange env sc (p.changeOf d)) (p.changeOf c)) := by
  obtain ⟨hstats, t, ht, htsound, htviews⟩ := applyChange_spec env hs h hc
  obtain ⟨hstats', t', ht', htsound', htviews'⟩ := applyChange_spec env hs h hd
  obtain ⟨hboth, u, hu, husound, huviews⟩ := applyChange_spec env ht htsound hd
  obtain ⟨hboth', u', hu', husound', huviews'⟩ := applyChange_spec env ht' htsound' hc
  have hother : t.view (p.pathTo d.2) = s.view (p.pathTo d.2) := by
    rw [htviews, if_neg hne.symm]
  have hother' : t'.view (p.pathTo c.2) = s.view (p.pathTo c.2) := by
    rw [htviews', if_neg hne]
  refine ⟨⟨u, u', hu, hu', husound, husound', fun path => ?_⟩, ?_⟩
  · rw [huviews, huviews', hother, hother', htviews, htviews']
    by_cases hpath : path = p.pathTo d.2
    · rw [if_pos hpath, if_pos hpath, if_neg (hpath ▸ hne.symm)]
    · rw [if_neg hpath, if_neg hpath]
  · rw [hboth, hboth', hstats, hstats', hother, hother']
    exact sc.stats.noted_comm _ _ _ _

theorem agree_perm {cs cs' : List (ChangeKind × List String)} (hperm : cs.Perm cs')
    (hdirect : ∀ c ∈ cs, p.IsDirect env.disk c.2) (hdistinct : (cs.map (·.2)).Nodup) {sc : Scan}
    {s : Store} (hs : sc.store = some s) (h : s.Sound) :
    Agree (p.passed env sc cs) (p.passed env sc cs') := by
  induction hperm generalizing sc s with
  | nil => exact .refl hs h
  | cons c _ ih =>
      obtain ⟨-, t, ht, htsound, -⟩ := applyChange_spec env hs h (hdirect c List.mem_cons_self)
      exact ih (fun d hd => hdirect d (List.mem_cons_of_mem c hd))
        (List.nodup_cons.1 hdistinct).2 ht htsound
  | swap c d cs =>
      -- different names below the root have different paths, so neither change sees the other
      have hc := hdirect c (List.mem_cons_of_mem d List.mem_cons_self)
      have hd := hdirect d List.mem_cons_self
      have hne : p.pathTo d.2 ≠ p.pathTo c.2 := by
        intro heq
        have hnames := hc.pathTo_inj hd.toIsPlain heq
        exact (List.nodup_cons.1 hdistinct).1
          (List.mem_map.2 ⟨c, List.mem_cons_self, hnames.symm⟩)
      exact (agree_swap hs h hd hc hne).passed cs (fun e he =>
        hdirect e (List.mem_cons_of_mem d (List.mem_cons_of_mem c he))) env.now
  | trans hperm hperm' ih ih' =>
      -- the list in the middle is of changes on distinct plain paths too
      have hfirst := ih hdirect hdistinct hs h
      have hsecond := ih' (fun c hc => hdirect c (hperm.mem_iff.2 hc))
        ((hperm.map _).nodup_iff.1 hdistinct) hs h
      exact hfirst.trans hsecond

end Orders

/-! ## What a batch comes to -/

section Applied

variable {p : Project} {env : Surroundings}

/-- Of the changes of a batch, the others leave the path of one of them alone. -/
theorem handled_of_mem {cs : List (ChangeKind × List String)}
    (hplain : ∀ c ∈ cs, p.IsPlain c.2) (hdistinct : (cs.map (·.2)).Nodup)
    {c : ChangeKind × List String} (hc : c ∈ cs) {s : Store} (h : s.Sound) :
    ∃ t, t.Sound ∧ Store.SameAt s t (p.pathTo c.2) ∧
      Store.SameAt (after t (p.handle env t c)) (p.afterChanges env s cs) (p.pathTo c.2) := by
  -- what is stored under the path is as before until the change, and as it leaves it afterwards
  obtain ⟨before, later, rfl⟩ := List.append_of_mem hc
  have hothers : ∀ d ∈ before ++ later, p.pathTo c.2 ≠ p.pathTo d.2 := by
    intro d hd heq
    have hmem : d ∈ before ++ c :: later := by
      rw [List.mem_append, List.mem_cons]
      exact (List.mem_append.1 hd).imp_right Or.inr
    have hnames := (hplain d hmem).pathTo_inj (hplain c hc) heq
    rw [List.map_append, List.map_cons, List.nodup_middle, List.nodup_cons, ← List.map_append]
      at hdistinct
    exact hdistinct.1 (List.mem_map.2 ⟨d, hd, hnames.symm⟩)
  have hsound := p.sound_afterChanges env before h
  refine ⟨p.afterChanges env s before, hsound, ?_, ?_⟩
  · exact p.sameAt_afterChanges env before
      (fun d hd => hothers d (List.mem_append_left _ hd)) h
  · have hlater := p.sameAt_afterChanges env later
      (fun d hd => hothers d (List.mem_append_right _ hd)) (p.handle_spec env hsound c).1
    unfold afterChanges at hlater ⊢
    rw [List.foldl_append, List.foldl_cons]
    exact hlater

theorem errors_record (stats : ScanStats) (outcome : Outcome) :
    (stats.record outcome).errors = stats.errors := by
  cases outcome <;> rfl

theorem errors_noted (stats : ScanStats) (d : Disk) (grammar : Grammar)
    (c : ChangeKind × List String) (v : Option FileView) :
    (stats.noted (Path.ofNames (p.root ++ c.2)) (p.reportedBy d grammar c v)).errors =
      stats.errors ++ (p.refusal? d c).toList := by
  unfold reportedBy refusal? reported
  cases p.takesOut d c with
  | true => exact (errors_record _ _).trans (List.append_nil _).symm
  | false =>
      rw [if_neg Bool.false_ne_true, if_neg Bool.false_ne_true]
      have hplace : (p.fileOf c.2).place = p.root ++ c.2 := rfl
      rw [hplace]
      cases p.fault? d (Path.ofNames (p.root ++ c.2)) with
      | some fault => rfl
      | none =>
          cases p.readingOf d (p.fileOf c.2) <;>
            exact (errors_record _ _).trans (List.append_nil _).symm

/-- The errors of a pass are those of the changes that fail, in their order. -/
theorem errors_passed (cs : List (ChangeKind × List String))
    (hdirect : ∀ c ∈ cs, p.IsDirect env.disk c.2) {sc : Scan} {s : Store}
    (hs : sc.store = some s) (h : s.Sound) :
    (p.passed env sc cs).stats.errors =
      sc.stats.errors ++ cs.filterMap (p.refusal? env.disk) := by
  induction cs generalizing sc s with
  | nil => exact (List.append_nil _).symm
  | cons c cs ih =>
      obtain ⟨hstats, t, ht, htsound, -⟩ := applyChange_spec env hs h (hdirect c List.mem_cons_self)
      have hrest := ih (fun d hd => hdirect d (List.mem_cons_of_mem c hd)) ht htsound
      rw [hstats, errors_noted] at hrest
      unfold passed at hrest ⊢
      rw [List.foldl_cons, hrest, List.append_assoc]
      cases hrefusal : p.refusal? env.disk c with
      | none => rw [List.filterMap_cons_none hrefusal]; rfl
      | some e => rw [List.filterMap_cons_some hrefusal]; rfl

/-- What a batch of changes has done when it is through. -/
structure Applied (p : Project) (d : Disk) (s : Store) (cs : List (ChangeKind × List String))
    (done : Scan) (s' : Store) : Prop where
  store : done.store = some s'
  deleted : ∀ rest, (.deleted, rest) ∈ cs → s'.file? (p.pathTo rest) = none
  /-- What is no regular file, or not accepted by the filter, is not stored. -/
  unwanted : ∀ rest, (.modified, rest) ∈ cs →
    d.isFile (Path.ofNames (p.root ++ rest)) = false ∨ p.filter.accepts (p.pathTo rest) = false →
      s'.file? (p.pathTo rest) = none
  tooLarge : ∀ rest, (.modified, rest) ∈ cs → p.readingOf d (p.fileOf rest) = .tooLarge →
    s'.file? (p.pathTo rest) = none
  content : ∀ rest, (.modified, rest) ∈ cs →
    d.isFile (Path.ofNames (p.root ++ rest)) = true → p.filter.accepts (p.pathTo rest) = true →
    ∀ bytes, p.readingOf d (p.fileOf rest) = .content bytes →
      ∃ r, s'.file? (p.pathTo rest) = some r ∧ r.row.facts.hash = Digest.blake3 bytes.toList
  /-- What cannot be read is stored as it was, and reported. -/
  unread : ∀ rest, (.modified, rest) ∈ cs →
    d.isFile (Path.ofNames (p.root ++ rest)) = true → p.filter.accepts (p.pathTo rest) = true →
    p.readingOf d (p.fileOf rest) = .failed →
      Store.SameAt s s' (p.pathTo rest) ∧
        ∃ fault, p.fault? d (Path.ofNames (p.root ++ rest)) = some fault ∧
          ⟨Path.ofNames (p.root ++ rest), .io fault⟩ ∈ done.stats.errors
  others : ∀ path, (∀ c ∈ cs, path ≠ p.pathTo c.2) → Store.SameAt s s' path

theorem reviewedBy_of_takesOut {d : Disk} {c : ChangeKind × List String}
    (hout : p.takesOut d c = true) (grammar : Grammar) (v : Option FileView) :
    p.reviewedBy d grammar c v = none := by
  unfold reviewedBy
  rw [if_pos hout]

theorem takesOut_eq_false {d : Disk} {rest : List String}
    (hfile : d.isFile (Path.ofNames (p.root ++ rest)) = true)
    (haccepts : p.filter.accepts (p.pathTo rest) = true) :
    p.takesOut d (.modified, rest) = false := by
  unfold takesOut
  rw [hfile, haccepts]
  rfl

section Batch

variable (env) {cs : List (ChangeKind × List String)} (hplain : ∀ c ∈ cs, p.IsPlain c.2)
  (hdistinct : (cs.map (·.2)).Nodup) {s : Store} (h : s.Sound) {c : ChangeKind × List String}
  (hc : c ∈ cs)

include hplain hdistinct h hc

theorem view_afterChanges :
    (p.afterChanges env s cs).view (p.pathTo c.2) =
      p.reviewedBy env.disk env.grammar c (s.view (p.pathTo c.2)) := by
  obtain ⟨t, htsound, hbefore, hlater⟩ := handled_of_mem hplain hdistinct hc h
  have hhandled := (p.handle_spec env htsound c).2.1 (p.pathTo c.2)
  rw [if_pos rfl, hbefore.view_eq] at hhandled
  rw [hlater.view_eq, hhandled]

theorem file?_afterChanges_eq_none
    (hnone : p.reviewedBy env.disk env.grammar c (s.view (p.pathTo c.2)) = none) :
    (p.afterChanges env s cs).file? (p.pathTo c.2) = none := by
  rw [← Store.view_eq_none_iff, view_afterChanges env hplain hdistinct h hc, hnone]

theorem sameAt_afterChanges_of_failed (hkept : p.takesOut env.disk c = false)
    (hread : p.readingOf env.disk (p.fileOf c.2) = .failed) :
    Store.SameAt s (p.afterChanges env s cs) (p.pathTo c.2) := by
  obtain ⟨t, -, hbefore, hlater⟩ := handled_of_mem hplain hdistinct hc h
  obtain ⟨fault, -, heq⟩ := indexFile_of_failed hread t false (p.pathTo c.2)
  have hhandle : p.handle env t c = .error (.io fault) := by
    unfold handle
    rw [hkept, if_neg Bool.false_ne_true]
    exact heq
  rw [hhandle] at hlater
  exact hbefore.trans hlater

end Batch

theorem applied_changes (p : Project) (env : Surroundings) {cs : List (ChangeKind × List String)}
    (hdirect : ∀ c ∈ cs, p.IsDirect env.disk c.2) (hdistinct : (cs.map (·.2)).Nodup) {s : Store}
    (h : s.Sound) :
    p.Applied env.disk s cs (p.applyChanges env (some s) (cs.map p.changeOf))
      (p.afterChanges env s cs) := by
  have hplain : ∀ c ∈ cs, p.IsPlain c.2 := fun c hc => (hdirect c hc).toIsPlain
  have hview := fun c hc => view_afterChanges env hplain hdistinct h (c := c) hc
  have hnone := fun c hc => file?_afterChanges_eq_none env hplain hdistinct h (c := c) hc
  rw [applyChanges_eq]
  refine ⟨p.store_passed env cs hdirect rfl, ?_, ?_, ?_, ?_, ?_, ?_⟩
  · intro rest hc
    have hout : p.takesOut env.disk (.deleted, rest) = true := rfl
    exact hnone (.deleted, rest) hc (reviewedBy_of_takesOut hout _ _)
  · intro rest hc hunwanted
    have hout : p.takesOut env.disk (.modified, rest) = true := by
      unfold takesOut
      rcases hunwanted with hfile | haccepts
      · rw [hfile]
        rfl
      · rw [haccepts]
        exact Bool.or_true _
    exact hnone (.modified, rest) hc (reviewedBy_of_takesOut hout _ _)
  · intro rest hc hread
    have hgone : p.reviewedBy env.disk env.grammar (.modified, rest)
        (s.view (p.pathTo rest)) = none := by
      unfold reviewedBy
      rw [hread, reviewed_tooLarge, ite_self]
    exact hnone (.modified, rest) hc hgone
  · intro rest hc hfile haccepts bytes hread
    have hfound := hview (.modified, rest) hc
    unfold reviewedBy at hfound
    rw [takesOut_eq_false hfile haccepts, if_neg Bool.false_ne_true, hread] at hfound
    obtain ⟨v, hv, hhash⟩ := hash_of_reviewed
    rw [hv] at hfound
    obtain ⟨r, hr, rfl⟩ := Option.map_eq_some_iff.1 hfound
    exact ⟨r, hr, hhash⟩
  · intro rest hc hfile haccepts hread
    have hkept := takesOut_eq_false hfile haccepts
    have hsame := sameAt_afterChanges_of_failed env hplain hdistinct h hc hkept hread
    refine ⟨hsame, ?_⟩
    obtain ⟨fault, hfault, -⟩ := indexFile_of_failed hread s false (p.pathTo rest)
    refine ⟨fault, hfault, ?_⟩
    have hrefusal : p.refusal? env.disk (.modified, rest) =
        some ⟨Path.ofNames (p.root ++ rest), .io fault⟩ := by
      unfold refusal?
      rw [hkept, if_neg Bool.false_ne_true]
      exact congrArg (Option.map _) hfault
    rw [errors_passed cs hdirect rfl h]
    exact List.mem_append_right _ (List.mem_filterMap.2 ⟨_, hc, hrefusal⟩)
  · intro path hothers
    exact p.sameAt_afterChanges env cs hothers h

/-- A batch of changes of any store, on distinct paths that lead straight to where they name:
afterwards what was deleted is not stored, nor what is no regular file, not accepted or too large;
what can be read is stored with its hash; what cannot be read is stored as it was and reported;
and every other path is stored as it was. The same changes in another order, at another time,
store the same, ids and times aside, and report the same, the order of errors aside. -/
theorem changes_applied (p : Project) (env : Surroundings) (ops : List Store.Operation)
    {cs : List (ChangeKind × List String)} (hdirect : ∀ c ∈ cs, p.IsDirect env.disk c.2)
    (hdistinct : (cs.map (·.2)).Nodup) :
    let done := p.applyChanges env (some (Store.history ops)) (cs.map p.changeOf)
    (∃ s', p.Applied env.disk (Store.history ops) cs done s') ∧
      ∀ cs' now, cs.Perm cs' → Agree done (p.applyChanges { env with now := now }
        (some (Store.history ops)) (cs'.map p.changeOf)) := by
  intro done
  have hsound := Store.sound_history ops
  refine ⟨⟨_, p.applied_changes env hdirect hdistinct hsound⟩, fun cs' now hperm => ?_⟩
  have hdirect' : ∀ c ∈ cs', p.IsDirect env.disk c.2 := fun c hc =>
    hdirect c (hperm.mem_iff.2 hc)
  have hbegun : Agree
      { store := some (Store.history ops), stats := { scanned := cs.length } }
      { store := some (Store.history ops), stats := { scanned := cs'.length } } := by
    rw [hperm.length_eq]
    exact .refl rfl hsound
  change Agree (p.applyChanges env (some (Store.history ops)) (cs.map p.changeOf)) _
  rw [applyChanges_eq, applyChanges_eq]
  exact (agree_perm hperm hdirect hdistinct rfl hsound).trans (hbegun.passed cs' hdirect' now)

end Applied

/-! ## A change of each kind -/

/-- A file that is read, one that is too large, and one that may not be opened. -/
def changedDisk : Disk :=
  ⟨[(["a.txt"], .file "x".toUTF8 default), (["b.txt"], .file "too large".toUTF8 default),
    (["c.txt"], .locked 1)]⟩

def changedHistory : List Store.Operation :=
  ["b.txt", "c.txt", "d.txt", "e.txt"].map fun path =>
    .upsertFile default ⟨path, "h", default, "text", 1⟩

theorem isDirect_changed {name : String} (hname : Path.IsName name)
    (hbackslash : '\\' ∉ name.toList) : mixedProject.IsDirect changedDisk [name] where
  ne_nil := List.cons_ne_nil _ _
  names := by
    intro other hother
    rw [List.mem_singleton.1 hother]
    exact hname
  noBackslash := by
    intro other hother
    rw [List.mem_singleton.1 hother]
    exact hbackslash
  unlinked := Disk.unlinked_of_entries (by simp [changedDisk]) _ _

theorem stat_changed :
    changedDisk.stat "/a.txt" = .ok (.file "x".toUTF8 default) ∧
      changedDisk.stat "/b.txt" = .ok (.file "too large".toUTF8 default) ∧
      changedDisk.stat "/c.txt" = .ok (.locked 1) := by
  have hleads : changedDisk.Leads [] [] := trivial
  exact ⟨Disk.stat_file rfl hleads (by decide) rfl rfl,
    Disk.stat_file rfl hleads (by decide) rfl rfl,
    Disk.stat_of_isFile rfl hleads (by decide) rfl rfl rfl⟩

theorem readingOf_changed :
    mixedProject.readingOf changedDisk (mixedProject.fileOf ["a.txt"]) = .content "x".toUTF8 ∧
      mixedProject.readingOf changedDisk (mixedProject.fileOf ["b.txt"]) = .tooLarge ∧
      mixedProject.readingOf changedDisk (mixedProject.fileOf ["c.txt"]) = .failed ∧
      mixedProject.fault? changedDisk "/c.txt" = some .denied := by
  have hplaces : Path.ofNames ["a.txt"] = "/a.txt" ∧ Path.ofNames ["b.txt"] = "/b.txt" ∧
      Path.ofNames ["c.txt"] = "/c.txt" := by decide +kernel
  obtain ⟨ha, hb, hc⟩ := stat_changed
  unfold readingOf reading fault? fileOf
  dsimp only [mixedProject, List.nil_append]
  rw [hplaces.1, hplaces.2.1, hplaces.2.2, ha, hb, hc]
  exact ⟨rfl, rfl, rfl, rfl⟩

/-- One file is modified and read, one is too large, one may not be opened, and one is deleted. -/
theorem changes_applied_mixed :
    let env : Surroundings := ⟨changedDisk, fun _ _ => none, default⟩
    let s := Store.history changedHistory
    let cs : List (ChangeKind × List String) := [(.modified, ["a.txt"]), (.modified, ["b.txt"]),
      (.modified, ["c.txt"]), (.deleted, ["d.txt"])]
    let done := mixedProject.applyChanges env (some s) (cs.map mixedProject.changeOf)
    (∀ c ∈ cs, mixedProject.IsDirect env.disk c.2) ∧ (cs.map (·.2)).Nodup ∧
      ∃ s', done.store = some s' ∧
        (∃ r, s'.file? "a.txt" = some r ∧ r.row.facts.hash = Digest.blake3 "x".toUTF8.toList) ∧
        s'.file? "b.txt" = none ∧ s'.file? "c.txt" = s.file? "c.txt" ∧
        ⟨"/c.txt", .io .denied⟩ ∈ done.stats.errors ∧ s'.file? "d.txt" = none ∧
        s'.file? "e.txt" = s.file? "e.txt" ∧
        Agree done
          (mixedProject.applyChanges env (some s) (cs.reverse.map mixedProject.changeOf)) := by
  intro env s cs done
  have hpaths : mixedProject.pathTo ["a.txt"] = "a.txt" ∧ mixedProject.pathTo ["b.txt"] = "b.txt" ∧
      mixedProject.pathTo ["c.txt"] = "c.txt" ∧ mixedProject.pathTo ["d.txt"] = "d.txt" := by
    decide +kernel
  have hplaces : Path.ofNames (mixedProject.root ++ ["a.txt"]) = "/a.txt" ∧
      Path.ofNames (mixedProject.root ++ ["c.txt"]) = "/c.txt" := by decide +kernel
  have haccepts : mixedProject.filter.accepts "a.txt" = true ∧
      mixedProject.filter.accepts "c.txt" = true := by decide +kernel
  obtain ⟨hpathA, hpathB, hpathC, hpathD⟩ := hpaths
  obtain ⟨hplaceA, hplaceC⟩ := hplaces
  obtain ⟨hstatA, -, hstatC⟩ := stat_changed
  obtain ⟨hreadA, hreadB, hreadC, hfault⟩ := readingOf_changed
  have hdirect : ∀ c ∈ cs, mixedProject.IsDirect env.disk c.2 := by
    intro c hmem
    simp only [cs, List.mem_cons, List.not_mem_nil, or_false] at hmem
    rcases hmem with rfl | rfl | rfl | rfl <;>
      exact isDirect_changed ⟨by decide, by decide, by decide, by decide⟩ (by decide)
  obtain ⟨⟨s', happlied⟩, hagree⟩ :=
    changes_applied mixedProject env changedHistory hdirect (by decide)
  have hcontent := happlied.content ["a.txt"] (by decide)
  have htooLarge := happlied.tooLarge ["b.txt"] (by decide) hreadB
  have hunread := happlied.unread ["c.txt"] (by decide)
  have hdeleted := happlied.deleted ["d.txt"] (by decide)
  rw [hplaceA, hpathA] at hcontent
  rw [hpathB] at htooLarge
  rw [hplaceC, hpathC] at hunread
  rw [hpathD] at hdeleted
  obtain ⟨hkept, fault, hsome, hreported⟩ :=
    hunread (Disk.isFile_of_stat hstatC) haccepts.2 hreadC
  rw [show fault = .denied from Option.some.inj (hsome.symm.trans hfault)] at hreported
  refine ⟨hdirect, by decide, s', happlied.store, ?_, htooLarge, hkept.file, hreported, hdeleted,
    (happlied.others "e.txt" (by decide +kernel)).file, ?_⟩
  · exact hcontent (Disk.isFile_of_stat hstatA) haccepts.1 _ hreadA
  · exact hagree cs.reverse env.now (List.reverse_perm cs).symm

-- the stored path of a name with a backslash is that of another file
/-- A file in a directory goes out of the store when another one, with a backslash in its name, is
reported as deleted. -/
theorem change_reaches_other :
    let d : Disk := ⟨[(["a"], .directory), (["a", "b.txt"], .file "x".toUTF8 default)]⟩
    let env : Surroundings := ⟨d, fun _ _ => none, default⟩
    let s := Store.history [.upsertFile default ⟨"a/b.txt", "h", default, "text", 1⟩]
    Path.IsName "a\\b.txt" ∧ d.Unlinked [] ["a\\b.txt"] ∧
      (s.file? "a/b.txt").isSome = true ∧
      ∃ s', (mixedProject.applyChanges env (some s)
          [⟨Path.ofNames ["a\\b.txt"], .deleted⟩]).store = some s' ∧
        s'.file? "a/b.txt" = none := by
  intro d env s
  have hname : Path.IsName "a\\b.txt" := ⟨by decide, by decide, by decide, by decide⟩
  have hlinks : d.Unlinked [] ["a\\b.txt"] := Disk.unlinked_of_entries (by simp [d]) _ _
  have hresolved : resolved d (Path.ofNames ["a\\b.txt"]) = Path.ofNames ["a\\b.txt"] :=
    resolved_ofNames (List.cons_ne_nil _ _) (by simpa using hname) hlinks
  have hjoin : Path.join mixedProject.rootPath (Path.ofNames ["a\\b.txt"]) =
      Path.ofNames ["a\\b.txt"] := if_pos (Path.isAbsolute_ofNames _)
  have hrelative : mixedProject.relative d (Path.ofNames ["a\\b.txt"]) = .ok "a/b.txt" := by
    unfold relative
    rw [hjoin, hresolved]
    decide +kernel
  have hsound : s.Sound := Store.sound_history _
  have hforget : mixedProject.forget env (some s) (Path.ofNames ["a\\b.txt"]) =
      .ok (dropFile s "a/b.txt") := by
    unfold forget
    rw [hrelative]
    rfl
  rw [dropFile_eq] at hforget
  refine ⟨hname, hlinks, by decide +kernel, (s.deleteFile "a/b.txt").1, ?_,
    hsound.file?_deleteFile "a/b.txt"⟩
  unfold applyChanges applyChange
  dsimp only [List.foldl_cons, List.foldl_nil]
  rw [hforget]
  rfl

end CodeIndex.Project

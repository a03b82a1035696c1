import CodeIndex.Engine.Update
import CodeIndex.Proofs.Disk.Walk
import CodeIndex.Proofs.Project.Views
/-!
# Incremental scans

A scan leaves a file alone when it is stored with the hash of its bytes. Along every history of an
engine each stored view is the one of some bytes, so that the hash stands for them. What an
incremental scan leaves behind is therefore what a rebuild makes, except for a file that is still
stored in the language of another one.
-/

namespace CodeIndex

namespace Project

/-! ## Where views come from -/

/-- One of the disks has a file with these bytes. -/
def Occurs (p : Project) (disks : List Disk) (bytes : ByteArray) : Prop :=
  ∃ d ∈ disks, ∃ absolute, p.reading d absolute = .content bytes

/-- The language of the place that a path leads to, or of one where a file was found under it. -/
def IsLanguageOf (p : Project) (disks : List Disk) (path language : String) : Prop :=
  language = p.languageOf (Path.join p.rootPath path) ∨
    ∃ d ∈ disks, ∃ f ∈ p.foundAt d path, language = p.languageOf (Path.ofNames f.place)

/-- Where the found files have plain names, a path has one language. -/
theorem language_of_plain {p : Project} {disks : List Disk}
    (hplain : ∀ d ∈ disks, ∀ f ∈ Walk.discover d p.filter p.root,
      Walk.HasPlainNames p.root f) {path language : String}
    (hlang : p.IsLanguageOf disks path language) :
    language = p.languageOf (Path.join p.rootPath path) := by
  rcases hlang with hpath | ⟨d, hd, f, hf, hplace⟩
  · exact hpath
  · obtain ⟨hfound, hfpath⟩ := List.mem_filter.1 hf
    rw [hplace, Walk.ofNames_eq_join hfound (hplain d hd f hfound), beq_iff_eq.1 hfpath]
    rfl

/-- The view is that of some bytes, in some language of its path. -/
def IsView (p : Project) (grammar : Grammar) (disks : List Disk) (path : String)
    (v : FileView) : Prop :=
  ∃ language bytes, p.IsLanguageOf disks path language ∧ p.Occurs disks bytes ∧
    v = p.viewOf grammar language bytes

/-- Each view that is stored is the one of some bytes. -/
structure Traced (p : Project) (grammar : Grammar) (disks : List Disk) (s : Store) : Prop where
  sound : s.Sound
  views : ∀ path v, s.view path = some v → p.IsView grammar disks path v

variable {p : Project} {grammar : Grammar} {disks : List Disk}

theorem traced_empty : p.Traced grammar disks {} := by
  refine ⟨Store.sound_empty, fun path v hv => ?_⟩
  rw [Store.view_empty] at hv
  cases hv

theorem isView_reviewed {d : Disk} (hd : d ∈ disks) {path absolute : String}
    (hlang : p.IsLanguageOf disks path (p.languageOf absolute)) {force : Bool}
    {old : Option FileView} (hold : ∀ v, old = some v → p.IsView grammar disks path v)
    {v : FileView}
    (hv : p.reviewed grammar force (p.languageOf absolute) old (p.reading d absolute) = some v) :
    p.IsView grammar disks path v := by
  cases hread : p.reading d absolute with
  | failed =>
      rw [hread] at hv
      exact hold v hv
  | tooLarge =>
      rw [hread] at hv
      cases hv
  | content bytes =>
      rw [hread] at hv
      dsimp only [reviewed] at hv
      split at hv
      · exact hold v hv
      · cases hv
        exact ⟨p.languageOf absolute, bytes, hlang, ⟨d, hd, absolute, hread⟩, rfl⟩

theorem isView_reviewedAll {d : Disk} (hd : d ∈ disks) {path : String} {force : Bool}
    {fs : List FoundFile} (hfs : ∀ f ∈ fs, f ∈ p.foundAt d path) {old : Option FileView}
    (hold : ∀ v, old = some v → p.IsView grammar disks path v) {v : FileView}
    (hv : p.reviewedAll d grammar force old fs = some v) : p.IsView grammar disks path v := by
  induction fs generalizing old with
  | nil => exact hold v hv
  | cons f fs ih =>
      have hfound := hfs f List.mem_cons_self
      refine ih (fun g hg => hfs g (List.mem_cons_of_mem f hg)) (fun w hw => ?_) hv
      exact isView_reviewed hd (Or.inr ⟨d, hd, f, hfound, rfl⟩) hold hw

namespace Traced

variable {s : Store} (h : p.Traced grammar disks s)

include h

theorem deleteFile (path : String) : p.Traced grammar disks (s.deleteFile path).1 := by
  refine ⟨(h.sound.deleteFile path).1, fun other v hv => ?_⟩
  rw [h.sound.view_deleteFile] at hv
  split at hv
  · cases hv
  · exact h.views other v hv

theorem clear : p.Traced grammar disks s.clear := by
  refine ⟨h.sound.clear.1, fun path v hv => ?_⟩
  rw [Store.view_clear] at hv
  cases hv

theorem markAccessed (path : String) (at_ : Instant) :
    p.Traced grammar disks (s.markAccessed path at_).1 := by
  refine ⟨h.sound.markAccessed path at_, fun other v hv => ?_⟩
  rw [h.sound.view_markAccessed] at hv
  exact h.views other v hv

theorem indexFile {env : Surroundings} (hd : env.disk ∈ disks) (hg : env.grammar = grammar)
    {path absolute : String} (hlang : p.IsLanguageOf disks path (p.languageOf absolute))
    (force : Bool) :
    p.Traced grammar disks (after s (p.indexFile env (some s) force absolute path)) := by
  obtain ⟨hsound, hview⟩ := p.indexFile_spec env h.sound force absolute path
  refine ⟨hsound, fun other v hv => ?_⟩
  rw [hview, hg] at hv
  split at hv
  · rename_i hother
    rw [hother]
    exact isView_reviewed hd hlang (h.views path) hv
  · exact h.views other v hv

theorem dropFile (path : String) : p.Traced grammar disks (Project.dropFile s path).1 := by
  unfold Project.dropFile
  have hdeleted := h.deleteFile path
  split <;> rename_i heq <;> rw [heq] at hdeleted <;> exact hdeleted

theorem reindex {env : Surroundings} (hd : env.disk ∈ disks) (hg : env.grammar = grammar)
    (path : String) : p.Traced grammar disks (after s (p.reindex env (some s) path)) := by
  unfold Project.reindex
  cases p.relative env.disk path with
  | error fault => exact h
  | ok rel =>
      simp only [bind, Except.bind]
      split
      · exact h.dropFile rel
      · exact h.indexFile hd hg (Or.inl rfl) false

theorem forget (env : Surroundings) (path : String) :
    p.Traced grammar disks (after s (p.forget env (some s) path)) := by
  unfold Project.forget
  cases p.relative env.disk path with
  | error fault => exact h
  | ok rel => exact h.dropFile rel

theorem markOpened (env : Surroundings) (path : String) :
    p.Traced grammar disks (after s (p.markOpened env (some s) path)) := by
  unfold Project.markOpened
  cases p.relative env.disk path with
  | error fault => exact h
  | ok rel => exact h.markAccessed rel env.now

theorem applyChange {env : Surroundings} (hd : env.disk ∈ disks) (hg : env.grammar = grammar)
    {sc : Scan} (hs : sc.store = some s) (c : Change) :
    ∃ s', (p.applyChange env sc c).store = some s' ∧ p.Traced grammar disks s' := by
  unfold Project.applyChange
  rw [hs]
  cases c.kind with
  | modified => exact ⟨_, store_take sc hs c.path _, h.reindex hd hg c.path⟩
  | deleted => exact ⟨_, store_take sc hs c.path _, h.forget env c.path⟩

omit h in
theorem applyChanges {env : Surroundings} (hd : env.disk ∈ disks) (hg : env.grammar = grammar)
    (changes : List Change) {sc : Scan} (hs : ∃ s, sc.store = some s ∧ p.Traced grammar disks s) :
    ∃ s', (changes.foldl (p.applyChange env) sc).store = some s' ∧
      p.Traced grammar disks s' := by
  induction changes generalizing sc with
  | nil => exact hs
  | cons c changes ih =>
      obtain ⟨s, hstore, h⟩ := hs
      exact ih (h.applyChange hd hg hstore c)

theorem scan {env : Surroundings} (hd : env.disk ∈ disks) (hg : env.grammar = grammar)
    (force : Bool) :
    ∃ s', (p.scan env (some s) force).store = some s' ∧ p.Traced grammar disks s' := by
  obtain ⟨s', hs', hsound, hview⟩ := p.scan_spec env force h.sound
  refine ⟨s', hs', hsound, fun path v hv => ?_⟩
  rw [hview, hg] at hv
  unfold scanned at hv
  split at hv
  · cases hv
  · exact isView_reviewedAll hd (fun f hf => hf) (h.views path) hv

end Traced

/-! ## Two scans of one disk -/

/-- The hash tells apart the contents that occur. -/
def HashFree (p : Project) (disks : List Disk) : Prop :=
  ∀ b b', p.Occurs disks b → p.Occurs disks b' →
    Digest.blake3 b.toList = Digest.blake3 b'.toList → b = b'

/-- When a scan comes to the last file found under a path, the path holds the hash of its bytes,
but not its language. -/
def Stale (p : Project) (d : Disk) (grammar : Grammar) (v : Option FileView) (path : String) :
    Prop :=
  ∃ before last w bytes, p.foundAt d path = before ++ [last] ∧
    p.reviewedAll d grammar false v before = some w ∧
    p.reading d (Path.ofNames last.place) = .content bytes ∧
    w.hash = Digest.blake3 bytes.toList ∧ w.language ≠ p.languageOf (Path.ofNames last.place)

theorem stale_iff {d : Disk} {v : Option FileView} {path : String} {before : List FoundFile}
    {last : FoundFile} (hfound : p.foundAt d path = before ++ [last]) :
    p.Stale d grammar v path ↔ ∃ w bytes, p.reviewedAll d grammar false v before = some w ∧
      p.reading d (Path.ofNames last.place) = .content bytes ∧
      w.hash = Digest.blake3 bytes.toList ∧
      w.language ≠ p.languageOf (Path.ofNames last.place) := by
  constructor
  · rintro ⟨before', last', w, bytes, hfound', hstale⟩
    obtain ⟨rfl, hlast⟩ := List.append_inj' (hfound.symm.trans hfound') rfl
    obtain rfl : last = last' := by simpa using hlast
    exact ⟨w, bytes, hstale⟩
  · rintro ⟨w, bytes, hstale⟩
    exact ⟨before, last, w, bytes, hfound, hstale⟩

theorem reviewedAll_concat {d : Disk} {force : Bool} {v : Option FileView}
    {before : List FoundFile} {last : FoundFile} {bytes : ByteArray}
    (hread : p.reading d (Path.ofNames last.place) = .content bytes) :
    p.reviewedAll d grammar force v (before ++ [last]) =
      if !force && (p.reviewedAll d grammar force v before).any
        (·.hash == Digest.blake3 bytes.toList) then p.reviewedAll d grammar force v before
      else some (p.viewOf grammar (p.languageOf (Path.ofNames last.place)) bytes) := by
  unfold reviewedAll
  rw [List.foldl_append, List.foldl_cons, List.foldl_nil, hread]
  rfl

theorem reviewedAll_tooLarge {d : Disk} {force : Bool} {v : Option FileView}
    {before : List FoundFile} {last : FoundFile}
    (hread : p.reading d (Path.ofNames last.place) = .tooLarge) :
    p.reviewedAll d grammar force v (before ++ [last]) = none := by
  unfold reviewedAll
  rw [List.foldl_append, List.foldl_cons, List.foldl_nil, hread]
  rfl

/-- The last file of a path is the one whose hash counts, and the view that is kept for its hash
is that of its bytes. -/
theorem reviewedAll_cases {d : Disk} (hd : d ∈ disks) (hfree : p.HashFree disks) {path : String}
    {before : List FoundFile} {last : FoundFile} (hfound : p.foundAt d path = before ++ [last])
    {bytes : ByteArray} (hread : p.reading d (Path.ofNames last.place) = .content bytes)
    {v : Option FileView} (hv : ∀ w, v = some w → p.IsView grammar disks path w) :
    ∃ language, p.IsLanguageOf disks path language ∧
      p.reviewedAll d grammar false v (before ++ [last]) =
        some (p.viewOf grammar language bytes) ∧
      (p.Stale d grammar v path ↔ language ≠ p.languageOf (Path.ofNames last.place)) := by
  have hlast : p.IsLanguageOf disks path (p.languageOf (Path.ofNames last.place)) :=
    Or.inr ⟨d, hd, last, by simp [hfound], rfl⟩
  have hbefore : ∀ w, p.reviewedAll d grammar false v before = some w →
      p.IsView grammar disks path w := by
    intro w hw
    exact isView_reviewedAll hd (fun f hf => by simp [hfound, hf]) hv hw
  rw [stale_iff hfound, reviewedAll_concat hread, hread]
  cases hw : p.reviewedAll d grammar false v before with
  | none => exact ⟨_, hlast, rfl, by simp⟩
  | some w =>
      by_cases hhash : w.hash = Digest.blake3 bytes.toList
      · obtain ⟨language, bytes', hlang, hoccurs, rfl⟩ := hbefore w hw
        have hbytes : bytes' = bytes := hfree bytes' bytes hoccurs ⟨d, hd, _, hread⟩ hhash
        refine ⟨language, hlang, ?_, ?_⟩
        · rw [Option.any_some, hhash, beq_self_eq_true, hbytes]
          rfl
        · constructor
          · rintro ⟨w, bytes'', heq, -, -, hne⟩
            cases heq
            exact hne
          · exact fun hne => ⟨_, bytes, rfl, rfl, hhash, hne⟩
      · refine ⟨_, hlast, ?_, ?_⟩
        · rw [Option.any_some, beq_false_of_ne hhash]
          rfl
        · constructor
          · rintro ⟨w, bytes'', heq, hread', hhash', -⟩
            cases heq
            cases hread'
            exact absurd hhash' hhash
          · exact fun hne => absurd rfl hne

/-- An incremental scan leaves what a scan of everything makes, or the same bytes in another
language of the path. -/
theorem scanned_cases {d : Disk} (hd : d ∈ disks) (hfree : p.HashFree disks) {path : String}
    (hread : ∀ f ∈ p.foundAt d path, p.reading d (Path.ofNames f.place) ≠ .failed)
    {v : Option FileView} (hv : ∀ w, v = some w → p.IsView grammar disks path w)
    (v' : Option FileView) :
    (p.scanned d grammar false v path = none ∧ p.scanned d grammar true v' path = none ∧
      ¬ p.Stale d grammar v path) ∨
    ∃ bytes language language', p.IsLanguageOf disks path language ∧
      p.IsLanguageOf disks path language' ∧
      p.scanned d grammar false v path = some (p.viewOf grammar language bytes) ∧
      p.scanned d grammar true v' path = some (p.viewOf grammar language' bytes) ∧
      (p.Stale d grammar v path ↔ language ≠ language') := by
  rcases List.eq_nil_or_concat (p.foundAt d path) with hnone | ⟨before, last, hfound⟩
  · left
    unfold scanned
    rw [hnone]
    refine ⟨rfl, rfl, ?_⟩
    rintro ⟨before, last, w, bytes, hfound, -⟩
    rw [hnone] at hfound
    simp at hfound
  · rw [List.concat_eq_append] at hfound
    have hscanned : ∀ force v, p.scanned d grammar force v path =
        p.reviewedAll d grammar force v (before ++ [last]) := by
      intro force v
      unfold scanned
      rw [hfound, if_neg (by simp)]
    rw [hscanned, hscanned]
    cases hlast : p.reading d (Path.ofNames last.place) with
    | failed => exact absurd hlast (hread last (by simp [hfound]))
    | tooLarge =>
        left
        refine ⟨reviewedAll_tooLarge hlast, reviewedAll_tooLarge hlast, ?_⟩
        rw [stale_iff hfound, hlast]
        rintro ⟨w, bytes, -, hread', -⟩
        cases hread'
    | content bytes =>
        right
        obtain ⟨language, hlang, hviews, hstale⟩ :=
          reviewedAll_cases hd hfree hfound hlast hv
        refine ⟨bytes, language, _, hlang, Or.inr ⟨d, hd, last, by simp [hfound], rfl⟩, hviews,
          ?_, hstale⟩
        rw [reviewedAll_concat hlast]
        rfl

end Project

/-! ## Open stores -/

namespace OpenStore

/-- The tables are there, and each view in them is the one of some bytes. -/
def Traced (o : OpenStore) (p : Project) (grammar : Grammar) (disks : List Disk) : Prop :=
  o.project = p ∧ ∃ s, o.tables = some s ∧ p.Traced grammar disks s

namespace Traced

variable {o : OpenStore} {p : Project} {grammar : Grammar} {disks : List Disk}
  (h : o.Traced p grammar disks) {env : Surroundings} (hd : env.disk ∈ disks)
  (hg : env.grammar = grammar)

include h

theorem withTimeline (t : Timeline) : Traced { o with timeline := t } p grammar disks := h

theorem clear : o.clear.Traced p grammar disks := by
  obtain ⟨hp, s, hs, htraced⟩ := h
  refine ⟨hp, s.clear, ?_, htraced.clear⟩
  unfold OpenStore.clear
  rw [hs]
  rfl

include hd hg

omit h in
theorem batches (hp : o.project = p) (bs : List Batch) {tables : Option Store}
    (htables : ∃ s, tables = some s ∧ p.Traced grammar disks s) :
    ∃ s', bs.foldl (fun tables b => (o.project.applyChanges env tables b.changes).store) tables =
      some s' ∧ p.Traced grammar disks s' := by
  induction bs generalizing tables with
  | nil => exact htables
  | cons b bs ih =>
      apply ih
      rw [hp]
      exact Project.Traced.applyChanges hd hg b.changes htables

theorem settle : (o.settle env).Traced p grammar disks := by
  obtain ⟨hp, htables⟩ := h
  exact ⟨hp, batches hd hg hp o.timeline.finished htables⟩

theorem turn : (o.turn env).Traced p grammar disks :=
  (h.withTimeline _).settle hd hg

theorem scan (force : Bool) : (o.scan env force).1.Traced p grammar disks := by
  obtain ⟨hp, s, hs, htraced⟩ := h
  refine ⟨hp, ?_⟩
  obtain ⟨s', hs', htraced'⟩ := htraced.scan hd hg force
  refine ⟨s', ?_, htraced'⟩
  unfold OpenStore.scan
  rw [hp, hs]
  exact hs'

end Traced

end OpenStore

/-! ## Histories of an engine -/

namespace Engine

/-- What is asked of an engine, or reported to it. -/
inductive Event where
  | index (force : Bool)
  | rebuild
  | clear
  | indexFile (path : String)
  | saved (path : String)
  | deleted (path : String)
  | opened (path : String)
  | flush
  | wait (ms : Nat)

/-- The engine after an event. -/
def handle (e : Engine) (env : Surroundings) : Event → Engine
  | .index force => (e.index env force).1
  | .rebuild => (e.rebuild env).1
  | .clear => e.clear env
  | .indexFile path => (e.indexFile env path).1
  | .saved path => e.saved path
  | .deleted path => e.deleted path
  | .opened path => e.opened env path
  | .flush => e.flush env
  | .wait ms => e.wait env ms

/-- An event with the disk and the time at which it is handled. -/
structure Moment where
  disk : Disk
  now : Instant
  event : Event

/-- The engine after events, between which the disk may change in any way. -/
def handleAll (e : Engine) (grammar : Grammar) (moments : List Moment) : Engine :=
  moments.foldl (fun e m => e.handle ⟨m.disk, grammar, m.now⟩ m.event) e

/-- The view of a path in the engine's store. -/
def view (e : Engine) (path : String) : Option FileView :=
  (e.store.bind (·.tables)).bind (·.view path)

/-- The engine has a store, and each view in it is the one of some bytes. -/
def Traced (e : Engine) (p : Project) (grammar : Grammar) (disks : List Disk) : Prop :=
  ∃ o, e.store = some o ∧ o.Traced p grammar disks

namespace Traced

variable {e : Engine} {p : Project} {grammar : Grammar} {disks : List Disk}

theorem changeStore (h : e.Traced p grammar disks) {f : OpenStore → OpenStore}
    (hf : ∀ o, o.Traced p grammar disks → (f o).Traced p grammar disks) :
    (e.changeStore f).Traced p grammar disks := by
  obtain ⟨o, ho, htraced⟩ := h
  refine ⟨f o, ?_, hf o htraced⟩
  unfold Engine.changeStore
  rw [ho]
  rfl

theorem onStore {α : Type} {dflt : α} (h : e.Traced p grammar disks)
    {f : OpenStore → OpenStore × α}
    (hf : ∀ o, o.Traced p grammar disks → (f o).1.Traced p grammar disks) :
    (e.onStore dflt f).1.Traced p grammar disks := by
  obtain ⟨o, ho, htraced⟩ := h
  refine ⟨(f o).1, ?_, hf o htraced⟩
  unfold Engine.onStore
  rw [ho]

theorem handle (h : e.Traced p grammar disks) {env : Surroundings} (hd : env.disk ∈ disks)
    (hg : env.grammar = grammar) (ev : Event) : (e.handle env ev).Traced p grammar disks := by
  cases ev with
  | index force => exact h.onStore fun o ho => (ho.turn hd hg).scan hd hg force
  | rebuild => exact h.onStore fun o ho => (ho.turn hd hg).clear.scan hd hg true
  | clear => exact h.changeStore fun o ho => (ho.turn hd hg).clear
  | indexFile path =>
      apply h.onStore
      intro o ho
      obtain ⟨hp, s, hs, htraced⟩ := ho.turn hd hg
      have hafter := htraced.reindex hd hg (Path.join e.root path)
      rw [← hp, ← hs] at hafter
      dsimp only
      split
      · rename_i store outcome heq
        rw [heq] at hafter
        exact ⟨hp, store, rfl, hp ▸ hafter⟩
      · exact ⟨hp, s, hs, htraced⟩
  | saved path => exact h.changeStore fun o ho => ho.withTimeline _
  | deleted path => exact h.changeStore fun o ho => ho.withTimeline _
  | opened path =>
      apply h.changeStore
      intro o ho
      obtain ⟨hp, s, hs, htraced⟩ := ho
      have hafter := htraced.markOpened env path
      rw [← hp, ← hs] at hafter
      split
      · rename_i store known heq
        rw [heq] at hafter
        exact ⟨hp, store, rfl, hp ▸ hafter⟩
      · exact ⟨hp, s, hs, htraced⟩
  | flush => exact h.changeStore fun o ho => (ho.withTimeline _).settle hd hg
  | wait ms => exact h.changeStore fun o ho => (ho.withTimeline _).settle hd hg

theorem handleAll (h : e.Traced p grammar disks) {moments : List Moment}
    (hd : ∀ m ∈ moments, m.disk ∈ disks) :
    (e.handleAll grammar moments).Traced p grammar disks := by
  induction moments generalizing e with
  | nil => exact h
  | cons m moments ih =>
      apply ih (h.handle (hd m List.mem_cons_self) rfl m.event)
      exact fun m' hm' => hd m' (List.mem_cons_of_mem m hm')

end Traced

theorem view_of_scan {o : OpenStore} {s : Store} (hs : o.tables = some s) (hsound : s.Sound)
    (env : Surroundings) (force : Bool) (path : String) :
    (o.scan env force).1.tables.bind (·.view path) =
      o.project.scanned env.disk env.grammar force (s.view path) path := by
  obtain ⟨s', hs', -, hview⟩ := o.project.scan_spec env force hsound
  unfold OpenStore.scan
  rw [hs]
  dsimp only
  rw [hs', Option.bind_some, hview]

theorem traced_of_empty {e : Engine} {o : OpenStore} (hstore : e.store = some o)
    (hempty : o.tables = some {}) (grammar : Grammar) (disks : List Disk) :
    e.Traced o.project grammar disks :=
  ⟨o, hstore, rfl, {}, hempty, Project.traced_empty⟩

/-- After an incremental scan the view of a path is made from the one before; after a rebuild
it is made from nothing. -/
theorem Traced.views {e : Engine} {p : Project} {grammar : Grammar} {disks : List Disk}
    (h : e.Traced p grammar disks) {d : Disk} (hd : d ∈ disks) (now now' : Instant)
    (path : String) :
    (e.index ⟨d, grammar, now⟩ false).1.view path = p.scanned d grammar false
        ((e.changeStore (·.turn ⟨d, grammar, now⟩)).view path) path ∧
      (e.rebuild ⟨d, grammar, now'⟩).1.view path = p.scanned d grammar true none path ∧
      ∀ w, (e.changeStore (·.turn ⟨d, grammar, now⟩)).view path = some w →
        p.IsView grammar disks path w := by
  obtain ⟨o, ho, htraced⟩ := h
  have hdisk : ∀ t, (⟨d, grammar, t⟩ : Surroundings).disk ∈ disks := fun _ => hd
  obtain ⟨hp, s, hs, hviews⟩ := htraced.turn (hdisk now) rfl
  obtain ⟨hp', s', hs', hviews'⟩ := htraced.turn (hdisk now') rfl
  have hcleared : (o.turn ⟨d, grammar, now'⟩).clear.tables = some s'.clear := by
    unfold OpenStore.clear
    rw [hs']
    rfl
  have hturn : (e.changeStore (·.turn ⟨d, grammar, now⟩)).view path = s.view path := by
    unfold Engine.changeStore Engine.view
    rw [ho, Option.map_some, Option.bind_some, hs, Option.bind_some]
  have hindex := view_of_scan hs hviews.sound ⟨d, grammar, now⟩ false path
  have hrebuild := view_of_scan hcleared hviews'.clear.sound ⟨d, grammar, now'⟩ true path
  rw [hturn]
  refine ⟨?_, ?_, hviews.views path⟩
  · unfold Engine.index Engine.onStore Engine.view
    rw [ho, ← hp]
    exact hindex
  · unfold Engine.rebuild Engine.onStore Engine.view
    rw [ho, ← hp']
    rw [Store.view_clear] at hrebuild
    exact hrebuild

/-- Along every history that starts from an empty store, an incremental scan gives each path the
hash and the number of lines that a rebuild gives it, and the same chunks and imports where the
language is the same. They differ exactly where the file that was found last under the path has
the bytes that are stored for it and another language, and nowhere as long as no file is found
whose name holds a backslash. -/
theorem index_agrees_with_rebuild {e : Engine} {o : OpenStore} (hstore : e.store = some o)
    (hempty : o.tables = some {}) (grammar : Grammar) (moments : List Moment) (d : Disk)
    (now now' : Instant) (hfree : o.project.HashFree (d :: moments.map (·.disk)))
    (hread : ∀ f ∈ Walk.discover d o.project.filter o.project.root,
      o.project.reading d (Path.ofNames f.place) ≠ .failed) (path : String) :
    let reached := e.handleAll grammar moments
    let before := (reached.changeStore (·.turn ⟨d, grammar, now⟩)).view path
    let indexed := (reached.index ⟨d, grammar, now⟩ false).1.view path
    let rebuilt := (reached.rebuild ⟨d, grammar, now'⟩).1.view path
    indexed.map (fun v => (v.hash, v.lineCount)) = rebuilt.map (fun v => (v.hash, v.lineCount)) ∧
      (indexed = rebuilt ↔ indexed.map (·.language) = rebuilt.map (·.language)) ∧
      (indexed ≠ rebuilt ↔ o.project.Stale d grammar before path) ∧
      ((∀ d' ∈ d :: moments.map (·.disk), ∀ f ∈ Walk.discover d' o.project.filter o.project.root,
        Walk.HasPlainNames o.project.root f) → indexed = rebuilt) := by
  intro reached before indexed rebuilt
  have hreached : reached.Traced o.project grammar (d :: moments.map (·.disk)) := by
    apply (traced_of_empty hstore hempty grammar _).handleAll
    exact fun m hm => List.mem_cons_of_mem d (List.mem_map_of_mem hm)
  obtain ⟨hindexed, hrebuilt, hbefore⟩ := hreached.views List.mem_cons_self now now' path
  have hfound : ∀ f ∈ o.project.foundAt d path,
      o.project.reading d (Path.ofNames f.place) ≠ .failed :=
    fun f hf => hread f (List.mem_filter.1 hf).1
  have hcases := Project.scanned_cases List.mem_cons_self hfree hfound hbefore none
  rw [← hindexed, ← hrebuilt] at hcases
  change (indexed = none ∧ rebuilt = none ∧ ¬ o.project.Stale d grammar before path) ∨ _ at hcases
  rcases hcases with ⟨hnone, hnone', hfresh⟩ |
    ⟨bytes, language, language', hlang, hlang', hi, hr, hstale⟩
  · rw [hnone, hnone']
    simp [hfresh]
  · change indexed = _ at hi
    change rebuilt = _ at hr
    change o.project.Stale d grammar before path ↔ _ at hstale
    have heq : indexed = rebuilt ↔ language = language' := by
      rw [hi, hr]
      constructor
      · exact fun h => congrArg FileView.language (Option.some.inj h)
      · exact fun h => by rw [h]
    refine ⟨?_, ?_, ?_, ?_⟩
    · rw [hi, hr]
      rfl
    · rw [heq, hi, hr]
      simp [Project.viewOf]
    · rw [hstale, ne_eq, heq]
    · intro hplain
      rw [heq, Project.language_of_plain hplain hlang,
        Project.language_of_plain hplain hlang']

/-! ## A file in the language of another -/

/-- What the moved file holds. -/
def movedBytes : ByteArray := "x".toUTF8

/-- The file has a name with a backslash. -/
def diskBefore : Disk := ⟨[(["a\\.java"], .file movedBytes default)]⟩

/-- The file lies in a directory, under the same path. -/
def diskAfter : Disk := ⟨[(["a"], .directory), (["a", ".java"], .file movedBytes default)]⟩

/-- Everything is indexed. -/
def movedConfig : Config := { includePatterns := ["**"], excludePatterns := [] }

def movedProject : Project := ⟨[], movedConfig, ⟨[⟨[.anyStart]⟩], []⟩⟩

def movedEngine : Engine :=
  ⟨"/", movedConfig, some ⟨memoryPath, none, some {}, movedProject, { debounce := 1000 }⟩⟩

theorem inMemory_moved : inMemory [] movedConfig = .ok movedEngine := by
  rfl

theorem bare_before : IgnoreSet.ofDirectory diskBefore [] = IgnoreSet.bare [] := by
  have hleads : diskBefore.Leads [] [] := trivial
  exact IgnoreSet.ofDirectory_eq_bare_of_missing hleads (by simp)
    (by simp [diskBefore, Disk.entry?])

theorem bare_after : IgnoreSet.ofDirectory diskAfter [] = IgnoreSet.bare [] ∧
    IgnoreSet.ofDirectory diskAfter ["a"] = IgnoreSet.bare ["a"] := by
  have hroot : diskAfter.Leads [] [] := trivial
  have hleads : diskAfter.Leads [] ["a"] := ⟨by decide, rfl, trivial⟩
  have hname : ∀ name ∈ ["a"], Path.IsName name := by
    intro name hname
    rw [List.mem_singleton.1 hname]
    exact ⟨by decide, by decide, by decide, by decide⟩
  constructor
  · exact IgnoreSet.ofDirectory_eq_bare_of_missing hroot (by simp)
      (by simp [diskAfter, Disk.entry?])
  · exact IgnoreSet.ofDirectory_eq_bare_of_missing hleads hname
      (by simp [diskAfter, Disk.entry?])

theorem discover_before :
    Walk.discover diskBefore movedProject.filter [] = [⟨["a\\.java"], "a/.java"⟩] := by
  have hsets : Walk.setsAbove diskBefore [] = [[]].map IgnoreSet.bare := by
    simp [Walk.setsAbove, bare_before]
  have hchildren : diskBefore.children [] = [("a\\.java", .file movedBytes default)] := rfl
  have hpath : Walk.relative [] ["a\\.java"] = "a/.java" := by decide +kernel
  have haccepts : movedProject.filter.accepts "a/.java" = true := by decide +kernel
  rw [← hpath]
  apply Walk.discover_of_filesIn rfl
  · rw [hsets]
    unfold Walk.filesIn
    rw [hchildren]
    simp only [List.flatMap_cons, List.flatMap_nil, IgnoreSet.ignores_bare]
    rfl
  · rw [hpath, haccepts]

theorem filesIn_after :
    Walk.filesIn diskAfter movedProject.filter [] 2 ([["a"], []].map IgnoreSet.bare) ["a"] =
      [["a", ".java"]] := by
  have hchildren : diskAfter.children ["a"] = [(".java", .file movedBytes default)] := rfl
  unfold Walk.filesIn
  rw [hchildren]
  simp only [List.flatMap_cons, List.flatMap_nil, IgnoreSet.ignores_bare]
  rfl

theorem discover_after :
    Walk.discover diskAfter movedProject.filter [] = [⟨["a", ".java"], "a/.java"⟩] := by
  have hsets : Walk.setsAbove diskAfter [] = [[]].map IgnoreSet.bare := by
    simp [Walk.setsAbove, bare_after.1]
  have hchildren : diskAfter.children [] = [("a", .directory)] := rfl
  have hpath : Walk.relative [] ["a", ".java"] = "a/.java" := by decide +kernel
  have haccepts : movedProject.filter.accepts "a/.java" = true := by decide +kernel
  have hprunes : movedProject.filter.prunes (Walk.relative [] ["a"]) = false := by decide +kernel
  rw [← hpath]
  apply Walk.discover_of_filesIn rfl
  · rw [hsets]
    unfold Walk.filesIn
    rw [hchildren]
    simp only [List.flatMap_cons, List.flatMap_nil, IgnoreSet.ignores_bare, List.nil_append,
      hprunes, bare_after.2, Bool.or_false, Bool.false_eq_true, if_false, List.append_nil]
    exact filesIn_after
  · rw [hpath, haccepts]

theorem reading_before : movedProject.reading diskBefore "/a\\.java" = .content movedBytes := by
  have hleads : diskBefore.Leads [] [] := trivial
  have hstat : diskBefore.stat "/a\\.java" = .ok (.file movedBytes default) :=
    Disk.stat_file rfl hleads (by decide) rfl rfl
  unfold Project.reading
  rw [hstat]
  rfl

theorem reading_after : movedProject.reading diskAfter "/a/.java" = .content movedBytes := by
  have hleads : diskAfter.Leads [] ["a"] := ⟨by decide, rfl, trivial⟩
  have hstat : diskAfter.stat "/a/.java" = .ok (.file movedBytes default) :=
    Disk.stat_file rfl hleads (by decide) rfl rfl
  unfold Project.reading
  rw [hstat]
  rfl

theorem foundAt_before :
    movedProject.foundAt diskBefore "a/.java" = [] ++ [⟨["a\\.java"], "a/.java"⟩] := by
  unfold Project.foundAt
  change (Walk.discover diskBefore movedProject.filter []).filter _ = _
  rw [discover_before]
  rfl

theorem foundAt_after :
    movedProject.foundAt diskAfter "a/.java" = [] ++ [⟨["a", ".java"], "a/.java"⟩] := by
  unfold Project.foundAt
  change (Walk.discover diskAfter movedProject.filter []).filter _ = _
  rw [discover_after]
  rfl

theorem scanned_before (grammar : Grammar) :
    movedProject.scanned diskBefore grammar false none "a/.java" =
      some (movedProject.viewOf grammar "java" movedBytes) := by
  have hlanguage : movedProject.languageOf "/a\\.java" = "java" := by decide +kernel
  have hplace : Path.ofNames ["a\\.java"] = "/a\\.java" := by decide +kernel
  unfold Project.scanned
  rw [foundAt_before, if_neg (by simp), Project.reviewedAll_concat (by rw [hplace, reading_before]),
    hplace, hlanguage]
  rfl

theorem scanned_after (grammar : Grammar) (force : Bool) {v : Option FileView}
    (hv : v.any (·.hash == Digest.blake3 movedBytes.toList) = !force) :
    movedProject.scanned diskAfter grammar force v "a/.java" =
      if force then some (movedProject.viewOf grammar "text" movedBytes) else v := by
  have hlanguage : movedProject.languageOf "/a/.java" = "text" := by decide +kernel
  have hplace : Path.ofNames ["a", ".java"] = "/a/.java" := by decide +kernel
  unfold Project.scanned
  rw [foundAt_after, if_neg (by simp), Project.reviewedAll_concat (by rw [hplace, reading_after]),
    hplace, hlanguage]
  cases force with
  | true => rfl
  | false =>
      change (if (true && v.any _) = true then v else _) = v
      rw [hv]
      rfl

theorem view_turn {e : Engine} {o : OpenStore} (hstore : e.store = some o) (env : Surroundings)
    (hquiet : (o.timeline.exclusive 0).finished = []) (path : String) :
    (e.changeStore (·.turn env)).view path = e.view path := by
  have htables : (o.turn env).tables = o.tables := by
    unfold OpenStore.turn OpenStore.settle Timeline.takeFinished
    rw [hquiet]
    rfl
  unfold Engine.changeStore Engine.view
  rw [hstore, Option.map_some, Option.bind_some, htables]
  rfl

/-- The timeline of the moved engine between its passes. -/
def idle : Timeline := { ({ debounce := 1000 } : Timeline).exclusive 0 with finished := [] }

theorem view_moved (grammar : Grammar) :
    (movedEngine.handle ⟨diskBefore, grammar, default⟩ (.index false)).view "a/.java" =
      some (movedProject.viewOf grammar "java" movedBytes) := by
  have hstart : movedEngine.Traced movedProject grammar [diskBefore] :=
    ⟨_, rfl, rfl, {}, rfl, Project.traced_empty⟩
  obtain ⟨hindexed, -, -⟩ := hstart.views List.mem_cons_self default default "a/.java"
  have hquiet := view_turn (e := movedEngine) rfl ⟨diskBefore, grammar, default⟩
    (by decide +kernel) "a/.java"
  rw [hquiet] at hindexed
  exact hindexed.trans (scanned_before grammar)

/-- The moved file is still stored in the language of its old name, and a rebuild gives it that
of its new one. -/
theorem index_keeps_language :
    let grammar : Grammar := fun _ _ => none
    let reached := movedEngine.handleAll grammar [⟨diskBefore, default, .index false⟩]
    inMemory [] movedConfig = .ok movedEngine ∧
      ((reached.index ⟨diskAfter, grammar, default⟩ false).1.view "a/.java").map (·.language) =
        some "java" ∧
      ((reached.rebuild ⟨diskAfter, grammar, default⟩).1.view "a/.java").map (·.language) =
        some "text" := by
  intro grammar reached
  have hstart : movedEngine.Traced movedProject grammar [diskAfter, diskBefore] :=
    ⟨_, rfl, rfl, {}, rfl, Project.traced_empty⟩
  have hdisk : (⟨diskBefore, grammar, default⟩ : Surroundings).disk ∈ [diskAfter, diskBefore] := by
    simp
  have hreached : reached.Traced movedProject grammar [diskAfter, diskBefore] :=
    hstart.handle hdisk rfl (.index false)
  obtain ⟨hindexed, hrebuilt, -⟩ := hreached.views List.mem_cons_self default default "a/.java"
  have hstore : ∃ o, reached.store = some o ∧ o.timeline = idle := ⟨_, rfl, rfl⟩
  obtain ⟨o, ho, hidle⟩ := hstore
  have hquiet := view_turn ho ⟨diskAfter, grammar, default⟩
    (by rw [hidle]; decide +kernel) "a/.java"
  have hview : reached.view "a/.java" = some (movedProject.viewOf grammar "java" movedBytes) :=
    view_moved grammar
  rw [hquiet, hview, scanned_after grammar false (by simp [Project.viewOf])] at hindexed
  rw [scanned_after grammar true rfl] at hrebuilt
  refine ⟨inMemory_moved, ?_, ?_⟩
  · rw [hindexed]
    rfl
  · rw [hrebuilt]
    rfl

theorem occurs_moved {bytes : ByteArray}
    (hoccurs : movedProject.Occurs [diskAfter, diskBefore] bytes) : bytes = movedBytes := by
  obtain ⟨d, hd, absolute, hread⟩ := hoccurs
  obtain ⟨e, mtime, hstat, -, hcontent⟩ := Project.reading_content hread
  have hentries : ∀ r ∈ d.entries, r.2 = .directory ∨ r.2 = .file movedBytes default := by
    rcases List.mem_pair.1 hd with rfl | rfl
    · simp [diskAfter]
    · simp [diskBefore]
  have he : e = .directory ∨ e = .file movedBytes default := by
    rcases Disk.stat_cases hstat with hdirectory | ⟨at_, hmem⟩
    · exact Or.inl hdirectory
    · exact hentries (at_, e) hmem
  rcases he with rfl | rfl
  · cases hcontent
  · cases hcontent
    rfl

theorem index_agrees_with_rebuild_moved :
    let grammar : Grammar := fun _ _ => none
    let reached := movedEngine.handleAll grammar [⟨diskBefore, default, .index false⟩]
    movedProject.HashFree [diskAfter, diskBefore] ∧
      (∀ f ∈ Walk.discover diskAfter movedProject.filter [],
        movedProject.reading diskAfter (Path.ofNames f.place) ≠ .failed) ∧
      ((reached.index ⟨diskAfter, grammar, default⟩ false).1.view "a/.java").map
          (fun v => (v.hash, v.lineCount)) =
        ((reached.rebuild ⟨diskAfter, grammar, default⟩).1.view "a/.java").map
          fun v => (v.hash, v.lineCount) := by
  intro grammar reached
  have hfree : movedProject.HashFree [diskAfter, diskBefore] := by
    intro b b' hb hb' _
    rw [occurs_moved hb, occurs_moved hb']
  have hread : ∀ f ∈ Walk.discover diskAfter movedProject.filter [],
      movedProject.reading diskAfter (Path.ofNames f.place) ≠ .failed := by
    have hplace : Path.ofNames ["a", ".java"] = "/a/.java" := by decide +kernel
    intro f hf
    rw [discover_after, List.mem_singleton] at hf
    rw [hf, hplace, reading_after]
    simp
  exact ⟨hfree, hread, (index_agrees_with_rebuild (e := movedEngine) rfl rfl grammar
    [⟨diskBefore, default, .index false⟩] diskAfter default default hfree hread "a/.java").1⟩

end Engine

end CodeIndex

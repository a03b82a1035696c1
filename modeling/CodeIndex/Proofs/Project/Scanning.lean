import CodeIndex.Proofs.Disk.Walk
import CodeIndex.Proofs.Project.Views
import CodeIndex.Proofs.Store.History
/-!
# What a full scan comes to

Every found file is tried once, and each attempt is counted once. When the files have distinct
paths, an attempt decides what is stored under its path, and a second scan of the same files finds
nothing left to do.
-/

namespace CodeIndex.Project

open Text

/-! ## One attempt -/

section Attempts

variable (p : Project) (env : Surroundings)

/-- The files of a disk that a scan of the project finds. -/
def found (d : Disk) : List FoundFile :=
  Walk.discover d p.filter p.root

/-- What can be read of a found file. -/
def readingOf (d : Disk) (f : FoundFile) : Reading :=
  p.reading d (Path.ofNames f.place)

/-- What is reported of a found file that cannot be read. -/
def errorOf? (d : Disk) (f : FoundFile) : Option FileError :=
  (p.fault? d (Path.ofNames f.place)).map fun fault => ⟨f.path, .io fault⟩

def attempt (force : Bool) (s : Store) (f : FoundFile) : Except IndexFault (Store × Outcome) :=
  p.indexFile env (some s) force (Path.ofNames f.place) f.path

theorem fault?_of_readable {p : Project} {d : Disk} {absolute : String}
    (hread : p.reading d absolute ≠ .failed) : p.fault? d absolute = none := by
  unfold reading at hread
  unfold fault?
  split at hread
  · exact absurd rfl hread
  · split at hread
    · rename_i hsize
      rw [if_pos hsize]
    · rename_i hsize
      rw [if_neg hsize]
      split at hread
      · rename_i hcontent
        rw [hcontent]
      · exact absurd rfl hread

/-- How an attempt ends, by what can be read of the file. -/
inductive Attempted (force : Bool) (s : Store) (f : FoundFile) : Prop where
  | failed (e : FileError) (hread : p.readingOf env.disk f = .failed)
      (herror : p.errorOf? env.disk f = some e) (hpath : e.path = f.path)
      (heq : p.attempt env force s f = .error e.fault)
  | tooLarge (hread : p.readingOf env.disk f = .tooLarge)
      (herror : p.errorOf? env.disk f = none)
      (heq : p.attempt env force s f = .ok ((s.deleteFile f.path).1, .tooLarge))
  | unchanged (bytes : ByteArray) (hread : p.readingOf env.disk f = .content bytes)
      (herror : p.errorOf? env.disk f = none)
      (heq : p.attempt env force s f = .ok (s, .unchanged))
  | indexed (bytes : ByteArray) (facts : FileFacts) (cs : List Chunk) (is : List Import)
      (hread : p.readingOf env.disk f = .content bytes)
      (herror : p.errorOf? env.disk f = none)
      (hnew : ¬ (!force && s.isUpToDate f.path (Digest.blake3 bytes.toList)) = true)
      (hpath : facts.path = f.path)
      (heq : p.attempt env force s f = .ok ((s.writeIndex env.now facts cs is).1,
        .indexed (s.writeIndex env.now facts cs is).2.2))

theorem errorOf?_of_readable {p : Project} {d : Disk} {f : FoundFile}
    (hread : p.readingOf d f ≠ .failed) : p.errorOf? d f = none := by
  unfold errorOf?
  rw [fault?_of_readable hread]
  rfl

theorem attempted (force : Bool) (s : Store) (f : FoundFile) : p.Attempted env force s f := by
  cases hread : p.readingOf env.disk f with
  | failed =>
      obtain ⟨fault, hfault, heq⟩ := indexFile_of_failed hread s force f.path
      have herror : p.errorOf? env.disk f = some ⟨f.path, .io fault⟩ := by
        unfold errorOf?
        rw [hfault]
        rfl
      exact .failed _ hread herror rfl heq
  | tooLarge =>
      exact .tooLarge hread (errorOf?_of_readable (hread.trans_ne nofun))
        (indexFile_of_tooLarge hread s force f.path)
  | content bytes =>
      have herror := errorOf?_of_readable (hread.trans_ne nofun)
      obtain ⟨mtime, heq⟩ := indexFile_of_content hread s force f.path
      split at heq
      · exact .unchanged bytes hread herror heq
      · rename_i hnew
        exact .indexed bytes _ _ _ hread herror hnew rfl heq

theorem sound_attempt {s : Store} (h : s.Sound) (force : Bool) (f : FoundFile) :
    (after s (p.attempt env force s f)).Sound :=
  (p.indexFile_spec env h force (Path.ofNames f.place) f.path).1

theorem sameAt_attempt {s : Store} (h : s.Sound) (force : Bool) {f : FoundFile} {path : String}
    (hleft : f.path = path → p.readingOf env.disk f = .failed) :
    Store.SameAt s (after s (p.attempt env force s f)) path := by
  cases p.attempted env force s f with
  | failed e hread herror hpath heq =>
      rw [heq]
      exact .refl s path
  | tooLarge hread herror heq =>
      -- what is found under the path cannot be read, so the file is under another one
      have hne : path ≠ f.path := by
        rintro rfl
        cases hread.symm.trans (hleft rfl)
      rw [heq]
      exact h.sameAt_deleteFile hne
  | unchanged bytes hread herror heq =>
      rw [heq]
      exact .refl s path
  | indexed bytes facts cs is hread herror hnew hpath heq =>
      have hne : path ≠ facts.path := by
        rintro rfl
        cases hread.symm.trans (hleft hpath.symm)
      rw [heq]
      exact h.others_writeIndex env.now facts cs is hne

end Attempts

/-! ## What is left alone -/

section Kept

variable (p : Project) (env : Surroundings)

/-- A path is left alone as long as nothing found under it can be read. -/
theorem sameAt_afterFiles (force : Bool) {path : String} (fs : List FoundFile)
    (hleft : ∀ f ∈ fs, f.path = path → p.readingOf env.disk f = .failed) {s : Store}
    (h : s.Sound) : Store.SameAt s (p.afterFiles env force s fs) path := by
  induction fs generalizing s with
  | nil => exact .refl s path
  | cons f fs ih =>
      have hhere := p.sameAt_attempt env h force (hleft f List.mem_cons_self)
      have hrest := ih (fun g hg => hleft g (List.mem_cons_of_mem f hg))
        (p.sound_attempt env h force f)
      exact hhere.trans hrest

theorem sameAt_deleteAll {path : String} (gone : List FileRecord)
    (hkept : ∀ f ∈ gone, f.row.facts.path ≠ path) {s : Store} (h : s.Sound) :
    Store.SameAt s (gone.foldl (fun s f => (s.deleteFile f.row.facts.path).1) s) path := by
  induction gone generalizing s with
  | nil => exact .refl s path
  | cons f gone ih =>
      have hhere := h.sameAt_deleteFile (hkept f List.mem_cons_self).symm
      have hrest := ih (fun g hg => hkept g (List.mem_cons_of_mem f hg))
        (h.deleteFile f.row.facts.path).1
      exact hhere.trans hrest

/-- A scan goes through the found files one after the other, however they are batched. -/
theorem scan_eq (store : Option Store) (force : Bool) :
    p.scan env store force =
      ((p.found env.disk).foldl (Scan.file p env force (p.found env.disk).length)
        { store := store, stats := { scanned := (p.found env.disk).length } }).removeStale
          (p.found env.disk) := by
  unfold scan found
  dsimp only
  rw [foldl_batches]

theorem scan_batchSize (store : Option Store) (force : Bool) (size : Nat) :
    { p with config := { p.config with batchSize := size } }.scan env store force =
      p.scan env store force := by
  rw [scan_eq, scan_eq]
  rfl

theorem sameAt_scan (force : Bool) {s s' : Store} (h : s.Sound)
    (hs' : (p.scan env (some s) force).store = some s') {f : FoundFile} (hf : f ∈ p.found env.disk)
    (hleft : ∀ g ∈ p.found env.disk, g.path = f.path → p.readingOf env.disk g = .failed) :
    Store.SameAt s s' f.path := by
  have hbegun : ({ store := some s, stats := { scanned := (p.found env.disk).length } } :
      Scan).store = some s := rfl
  have hstore := p.store_files env force (p.found env.disk).length (p.found env.disk) hbegun
  have hsound := (p.afterFiles_spec env force (p.found env.disk) h).1
  rw [scan_eq] at hs'
  unfold Scan.removeStale at hs'
  rw [hstore] at hs'
  cases hs'
  refine (p.sameAt_afterFiles env force _ hleft h).trans (sameAt_deleteAll _ ?_ hsound)
  intro g hg hpath
  have hgone : ¬ (p.found env.disk).any (·.path == g.row.facts.path) = true := by
    simpa using (List.mem_filter.1 hg).2
  exact hgone (List.any_eq_true.2 ⟨f, hf, by rw [hpath, beq_self_eq_true]⟩)

end Kept

/-! ## What is counted -/

section Counts

variable (p : Project) (env : Surroundings)

/-- What a scan of `total` files has counted and reported once it is through some of them. -/
structure Counted (d : Disk) (total : Nat) (fs : List FoundFile) (sc : Scan) : Prop where
  scanned : sc.stats.scanned = total
  handled : sc.stats.indexed + sc.stats.skipped + sc.stats.tooLarge + sc.stats.errors.length =
    fs.length
  errors : sc.stats.errors = fs.filterMap (p.errorOf? d)
  progress : sc.progress = fs.zipIdx.map fun (f, i) => ⟨i + 1, total, f.path⟩

variable {p env}

theorem file_eq {sc : Scan} {s : Store} (hs : sc.store = some s) {force : Bool} {total : Nat}
    {f : FoundFile} :
    sc.file p env force total f =
      { sc.take f.path (p.attempt env force s f) with
        progress := sc.progress ++ [⟨sc.progress.length + 1, total, f.path⟩] } := by
  unfold Scan.file attempt
  rw [hs]
  cases p.indexFile env (some s) force (Path.ofNames f.place) f.path <;> rfl

theorem Counted.file {total : Nat} {fs : List FoundFile} {sc : Scan}
    (hcounted : p.Counted env.disk total fs sc) {s : Store} (hs : sc.store = some s)
    (force : Bool) (f : FoundFile) :
    p.Counted env.disk total (fs ++ [f]) (sc.file p env force total f) := by
  obtain ⟨hscanned, hhandled, herrors, hprogress⟩ := hcounted
  have hreport : sc.progress ++ [⟨sc.progress.length + 1, total, f.path⟩] =
      (fs ++ [f]).zipIdx.map fun (f, i) => ⟨i + 1, total, f.path⟩ := by
    rw [hprogress, List.zipIdx_append]
    simp
  have hlength : (fs ++ [f]).length = fs.length + 1 := by simp
  have hsame : p.errorOf? env.disk f = none →
      sc.stats.errors = (fs ++ [f]).filterMap (p.errorOf? env.disk) := by
    intro hnone
    rw [List.filterMap_append, herrors]
    simp [hnone]
  rw [file_eq hs, hreport]
  cases p.attempted env force s f with
  | failed e hread herror hpath heq =>
      rw [heq]
      refine ⟨hscanned, ?_, ?_, rfl⟩
      · simp only [Scan.take, ScanStats.recordError, List.length_append, List.length_singleton]
        omega
      · simp only [Scan.take, ScanStats.recordError, List.filterMap_append, herrors]
        simp [herror, ← hpath]
  | tooLarge hread herror heq =>
      rw [heq]
      refine ⟨hscanned, ?_, hsame herror, rfl⟩
      simp only [Scan.take, ScanStats.record]
      omega
  | unchanged bytes hread herror heq =>
      rw [heq]
      refine ⟨hscanned, ?_, hsame herror, rfl⟩
      simp only [Scan.take, ScanStats.record]
      omega
  | indexed bytes facts cs is hread herror hnew hpath heq =>
      rw [heq]
      refine ⟨hscanned, ?_, hsame herror, rfl⟩
      simp only [Scan.take, ScanStats.record]
      omega

theorem counted_files (force : Bool) (total : Nat) (s : Store) (fs : List FoundFile) :
    p.Counted env.disk total fs (fs.foldl (Scan.file p env force total)
      { store := some s, stats := { scanned := total } }) := by
  induction fs using List.reverseRecOn with
  | nil => exact ⟨rfl, rfl, rfl, rfl⟩
  | append_singleton fs f ih =>
      rw [List.foldl_concat]
      exact ih.file (p.store_files env force total fs rfl) force f

theorem Counted.removeStale {total : Nat} {fs found : List FoundFile} {sc : Scan}
    (hcounted : p.Counted env.disk total fs sc) :
    p.Counted env.disk total fs (sc.removeStale found) := by
  unfold Scan.removeStale
  split
  · exact hcounted
  · exact ⟨hcounted.scanned, hcounted.handled, hcounted.errors, hcounted.progress⟩

theorem counted_scan (p : Project) (env : Surroundings) (s : Store) (force : Bool) :
    p.Counted env.disk (p.found env.disk).length (p.found env.disk)
      (p.scan env (some s) force) := by
  rw [scan_eq]
  exact (counted_files force (p.found env.disk).length s (p.found env.disk)).removeStale

end Counts

/-! ## What is left to do -/

section Again

variable (p : Project) (env : Surroundings)

/-- A store that agrees with a disk: what can be read is stored with its hash, what is too
large is not stored, and nothing is stored that is not found. -/
structure Settled (d : Disk) (s : Store) : Prop where
  content : ∀ f ∈ p.found d, ∀ bytes, p.readingOf d f = .content bytes →
    ∃ r, s.file? f.path = some r ∧ r.row.facts.hash = Digest.blake3 bytes.toList
  tooLarge : ∀ f ∈ p.found d, p.readingOf d f = .tooLarge → s.file? f.path = none
  gone : ∀ path, (∀ f ∈ p.found d, f.path ≠ path) → s.file? path = none

/-- A scan so far that has written nothing. -/
structure Idle (s : Store) (sc : Scan) : Prop where
  store : sc.store = some s
  indexed : sc.stats.indexed = 0
  chunks : sc.stats.chunks = 0
  removed : sc.stats.removed = 0

variable {p env}

theorem Settled.isUpToDate {s : Store} (hsettled : p.Settled env.disk s) (h : s.Sound)
    {f : FoundFile} (hf : f ∈ p.found env.disk) {bytes : ByteArray}
    (hread : p.readingOf env.disk f = .content bytes) :
    s.isUpToDate f.path (Digest.blake3 bytes.toList) = true := by
  obtain ⟨r, hr, hhash⟩ := hsettled.content f hf bytes hread
  rw [h.isUpToDate_iff]
  exact ⟨_, h.view_eq hr, hhash⟩

theorem Idle.file {s : Store} {sc : Scan} (hidle : Idle s sc) (hsettled : p.Settled env.disk s)
    (h : s.Sound) (total : Nat) {f : FoundFile} (hf : f ∈ p.found env.disk) :
    Idle s (sc.file p env false total f) := by
  obtain ⟨hs, hindexed, hchunks, hremoved⟩ := hidle
  rw [file_eq hs]
  cases p.attempted env false s f with
  | failed e hread herror hpath heq =>
      rw [heq]
      exact ⟨hs, hindexed, hchunks, hremoved⟩
  | tooLarge hread herror heq =>
      have hnone := hsettled.tooLarge f hf hread
      rw [heq, Store.deleteFile_of_new (Store.fileId?_of_none hnone)]
      exact ⟨rfl, hindexed, hchunks, hremoved⟩
  | unchanged bytes hread herror heq =>
      rw [heq]
      exact ⟨rfl, hindexed, hchunks, hremoved⟩
  | indexed bytes facts cs is hread herror hnew hpath heq =>
      -- the stored hash is that of the bytes, so the file counts as unchanged
      rw [hsettled.isUpToDate h hf hread] at hnew
      exact absurd rfl hnew

theorem Idle.files {s : Store} (hsettled : p.Settled env.disk s) (h : s.Sound) (total : Nat)
    (fs : List FoundFile) (hfs : ∀ f ∈ fs, f ∈ p.found env.disk) {sc : Scan}
    (hidle : Idle s sc) : Idle s (fs.foldl (Scan.file p env false total) sc) := by
  induction fs generalizing sc with
  | nil => exact hidle
  | cons f fs ih =>
      apply ih fun g hg => hfs g (List.mem_cons_of_mem f hg)
      exact hidle.file hsettled h total (hfs f List.mem_cons_self)

theorem Idle.removeStale {s : Store} {sc : Scan} (hidle : Idle s sc)
    (hsettled : p.Settled env.disk s) (h : s.Sound) :
    Idle s (sc.removeStale (p.found env.disk)) := by
  have hstale : (s.allFiles.filter fun f =>
      !(p.found env.disk).any (·.path == f.row.facts.path)) = [] := by
    rw [List.filter_eq_nil_iff]
    intro r hr hnone
    have hgone : ∀ f ∈ p.found env.disk, f.path ≠ r.row.facts.path := by
      simpa using hnone
    have hrow : s.file? r.row.facts.path = some r := by
      rw [h.file?_eq_some_iff]
      rw [Store.allFiles, Store.mem_sortedBy] at hr
      obtain ⟨row, hrow, rfl⟩ := List.mem_map.1 hr
      exact ⟨hrow, rfl⟩
    rw [hsettled.gone r.row.facts.path hgone] at hrow
    cases hrow
  obtain ⟨hs, hindexed, hchunks, hremoved⟩ := hidle
  unfold Scan.removeStale
  rw [hs]
  dsimp only
  rw [hstale]
  exact ⟨rfl, hindexed, hchunks, hremoved⟩

/-- A scan of a settled store writes nothing. -/
theorem Settled.scan {s : Store} (hsettled : p.Settled env.disk s) (h : s.Sound) :
    Idle s (p.scan env (some s) false) := by
  have hbegun : Idle s
      { store := some s, stats := { scanned := (p.found env.disk).length } } :=
    ⟨rfl, rfl, rfl, rfl⟩
  rw [scan_eq]
  exact (hbegun.files hsettled h (p.found env.disk).length (p.found env.disk)
    fun f hf => hf).removeStale hsettled h

end Again

/-! ## Distinct paths -/

section Distinct

variable {p : Project} {env : Surroundings}

def HasDistinctPaths (p : Project) (d : Disk) : Prop :=
  ((p.found d).map (·.path)).Nodup

theorem HasDistinctPaths.eq_of_path {d : Disk} (hdistinct : p.HasDistinctPaths d)
    {f g : FoundFile} (hf : f ∈ p.found d) (hg : g ∈ p.found d) (hpath : g.path = f.path) :
    g = f :=
  List.inj_on_of_nodup_map hdistinct hg hf hpath

theorem HasDistinctPaths.foundAt {d : Disk} (hdistinct : p.HasDistinctPaths d) {f : FoundFile}
    (hf : f ∈ p.found d) : p.foundAt d f.path = [f] := by
  have hnodup : (p.foundAt d f.path).Nodup := (List.Nodup.of_map _ hdistinct).filter _
  have hmem : ∀ g, g ∈ p.foundAt d f.path ↔ g ∈ [f] := by
    intro g
    rw [List.mem_singleton]
    constructor
    · intro hg
      obtain ⟨hfound, hpath⟩ := List.mem_filter.1 hg
      exact hdistinct.eq_of_path hf hfound (beq_iff_eq.1 hpath)
    · rintro rfl
      exact List.mem_filter.2 ⟨hf, beq_self_eq_true g.path⟩
  exact List.perm_singleton.1
    ((List.perm_ext_iff_of_nodup hnodup (List.nodup_singleton f)).2 hmem)

/-- What is stored under the path of a found file depends on that file alone. -/
theorem HasDistinctPaths.scanned {d : Disk} (hdistinct : p.HasDistinctPaths d) {f : FoundFile}
    (hf : f ∈ p.found d) (grammar : Grammar) (force : Bool) (v : Option FileView) :
    p.scanned d grammar force v f.path =
      p.reviewed grammar force (p.languageOf (Path.ofNames f.place)) v (p.readingOf d f) := by
  unfold Project.scanned
  rw [hdistinct.foundAt hf]
  rfl

theorem hash_of_reviewed {p : Project} {grammar : Grammar} {force : Bool} {language : String}
    {v : Option FileView} {bytes : ByteArray} :
    ∃ v', p.reviewed grammar force language v (.content bytes) = some v' ∧
      v'.hash = Digest.blake3 bytes.toList := by
  dsimp only [reviewed]
  split
  · rename_i hsame
    rw [Bool.and_eq_true, Option.any_eq_true] at hsame
    obtain ⟨-, v', hv, hhash⟩ := hsame
    exact ⟨v', hv, beq_iff_eq.1 hhash⟩
  · exact ⟨_, rfl, rfl⟩

theorem HasDistinctPaths.settled (hdistinct : p.HasDistinctPaths env.disk) {s s' : Store}
    {force : Bool} (hview : ∀ path, s'.view path =
      p.scanned env.disk env.grammar force (s.view path) path) : p.Settled env.disk s' where
  content f hf bytes hread := by
    have hv := hview f.path
    obtain ⟨v, heq, hhash⟩ := hash_of_reviewed
    rw [hdistinct.scanned hf, hread, heq] at hv
    obtain ⟨r, hr, rfl⟩ := Option.map_eq_some_iff.1 hv
    exact ⟨r, hr, hhash⟩
  tooLarge f hf hread := by
    have hv := hview f.path
    rw [hdistinct.scanned hf, hread] at hv
    exact Store.view_eq_none_iff.1 hv
  gone path hgone := by
    have hv := hview path
    have hempty : p.foundAt env.disk path = [] := by
      rw [Project.foundAt, List.filter_eq_nil_iff]
      intro f hf
      simpa using hgone f hf
    rw [Project.scanned, hempty] at hv
    exact Store.view_eq_none_iff.1 hv

/-- What a scan of a store has done when it is through with a disk. -/
structure Completed (p : Project) (d : Disk) (s : Store) (done : Scan) (s' : Store) : Prop where
  store : done.store = some s'
  settled : p.Settled d s'
  unread : ∀ f ∈ p.found d, p.readingOf d f = .failed →
    Store.SameAt s s' f.path ∧ ∃ e ∈ done.stats.errors, e.path = f.path
  counted : p.Counted d (p.found d).length (p.found d) done

theorem HasDistinctPaths.scan (hdistinct : p.HasDistinctPaths env.disk) (force : Bool)
    {s : Store} (h : s.Sound) :
    ∃ s', s'.Sound ∧ p.Completed env.disk s (p.scan env (some s) force) s' := by
  obtain ⟨s', hs', hsound, hview⟩ := p.scan_spec env force h
  have hcounted := counted_scan p env s force
  refine ⟨s', hsound, hs', hdistinct.settled hview, ?_, hcounted⟩
  intro f hf hread
  constructor
  · apply p.sameAt_scan env force h hs' hf
    intro g hg hpath
    rw [hdistinct.eq_of_path hf hg hpath, hread]
  · obtain ⟨fault, hfault, -⟩ := indexFile_of_failed hread s force f.path
    rw [hcounted.errors]
    refine ⟨⟨f.path, .io fault⟩, List.mem_filterMap.2 ⟨f, hf, ?_⟩, rfl⟩
    unfold errorOf?
    rw [hfault]
    rfl

/-- A full scan of any store, when the found files have distinct paths: afterwards what can be
read is stored with its hash, what is too large is not stored, what cannot be read is stored as
it was before and reported, and nothing else is stored; each found file is counted and reported
once; the size of the batches does not matter; and a second scan of the same files changes
nothing. -/
theorem scan_completes (p : Project) (env : Surroundings) (ops : List Store.Operation)
    (hdistinct : p.HasDistinctPaths env.disk) :
    let done := p.scan env (some (Store.history ops)) false
    ∃ s', p.Completed env.disk (Store.history ops) done s' ∧
      (∀ size, { p with config := { p.config with batchSize := size } }.scan env
        (some (Store.history ops)) false = done) ∧
      ∀ env', env'.disk = env.disk → Idle s' (p.scan env' done.store false) := by
  intro done
  obtain ⟨s', hsound, hcompleted⟩ := hdistinct.scan false (Store.sound_history ops)
  refine ⟨s', hcompleted, p.scan_batchSize env _ false, ?_⟩
  intro env' hdisk
  have hsettled := hcompleted.settled
  rw [← hdisk] at hsettled
  have hstore : done.store = some s' := hcompleted.store
  rw [hstore]
  exact hsettled.scan hsound

end Distinct

/-! ## A file of each kind -/

/-- A file that is read, one that is too large, and a link that leads nowhere. -/
def mixedDisk : Disk :=
  ⟨[(["a.txt"], .file "x".toUTF8 default), (["b.txt"], .file "too large".toUTF8 default),
    (["c.txt"], .link "d.txt")]⟩

def mixedProject : Project :=
  ⟨[], { maxFileBytes := 4 }, ⟨[⟨[.anyStart]⟩], []⟩⟩

theorem ofDirectory_mixedDisk : IgnoreSet.ofDirectory mixedDisk [] = IgnoreSet.bare [] := by
  have hleads : mixedDisk.Leads [] [] := trivial
  exact IgnoreSet.ofDirectory_eq_bare_of_missing hleads (by simp) (by simp [mixedDisk, Disk.entry?])

theorem filesIn_mixedDisk :
    Walk.filesIn mixedDisk mixedProject.filter [] 4 (Walk.setsAbove mixedDisk []) [] =
      [["a.txt"], ["b.txt"], ["c.txt"]] := by
  have hsets : Walk.setsAbove mixedDisk [] = [[]].map IgnoreSet.bare := by
    simp [Walk.setsAbove, ofDirectory_mixedDisk]
  have hchildren : mixedDisk.children [] = [("a.txt", .file "x".toUTF8 default),
      ("b.txt", .file "too large".toUTF8 default), ("c.txt", .link "d.txt")] := rfl
  rw [hsets]
  unfold Walk.filesIn
  rw [hchildren]
  simp only [List.flatMap_cons, List.flatMap_nil, IgnoreSet.ignores_bare]
  rfl

theorem perm_found_mixed :
    (mixedProject.found mixedDisk).Perm
      [⟨["a.txt"], "a.txt"⟩, ⟨["b.txt"], "b.txt"⟩, ⟨["c.txt"], "c.txt"⟩] := by
  have hpaths : Walk.relative [] ["a.txt"] = "a.txt" ∧ Walk.relative [] ["b.txt"] = "b.txt" ∧
      Walk.relative [] ["c.txt"] = "c.txt" := by decide +kernel
  have haccepts : mixedProject.filter.accepts "a.txt" = true ∧
      mixedProject.filter.accepts "b.txt" = true ∧
      mixedProject.filter.accepts "c.txt" = true := by decide +kernel
  have hroot : mixedDisk.entry? [] = some .directory := rfl
  have hfiles : Walk.filesIn mixedDisk mixedProject.filter [] (mixedDisk.entries.length + 1)
      (Walk.setsAbove mixedDisk []) [] = [["a.txt"], ["b.txt"], ["c.txt"]] := filesIn_mixedDisk
  refine (Walk.perm_discover hroot).trans ?_
  rw [hfiles]
  simp [hpaths, haccepts]

theorem hasDistinctPaths_mixed : mixedProject.HasDistinctPaths mixedDisk :=
  (perm_found_mixed.map FoundFile.path).nodup_iff.2 (by decide)

theorem readingOf_mixed :
    mixedProject.readingOf mixedDisk ⟨["a.txt"], "a.txt"⟩ = .content "x".toUTF8 ∧
      mixedProject.readingOf mixedDisk ⟨["b.txt"], "b.txt"⟩ = .tooLarge ∧
      mixedProject.readingOf mixedDisk ⟨["c.txt"], "c.txt"⟩ = .failed := by
  have hplaces : Path.ofNames ["a.txt"] = "/a.txt" ∧ Path.ofNames ["b.txt"] = "/b.txt" ∧
      Path.ofNames ["c.txt"] = "/c.txt" := by decide +kernel
  have hleads : mixedDisk.Leads [] [] := trivial
  have hread : mixedDisk.stat "/a.txt" = .ok (.file "x".toUTF8 default) :=
    Disk.stat_file rfl hleads (by decide) rfl rfl
  have hlarge : mixedDisk.stat "/b.txt" = .ok (.file "too large".toUTF8 default) :=
    Disk.stat_file rfl hleads (by decide) rfl rfl
  have hlink : mixedDisk.stat "/c.txt" = .error .notFound := by
    have hmissing : mixedDisk.walk 39 [] ["d.txt"] = .error .notFound :=
      Disk.walk_missing (by decide) rfl
    have hentry : mixedDisk.entry? ([] ++ ["c.txt"]) = some (.link "d.txt") := rfl
    have hwalk : mixedDisk.walk Disk.maxLinks [] ["c.txt"] = .error .notFound :=
      (Disk.walk_link (by decide) hentry).trans hmissing
    have hsteps : Disk.steps "/c.txt" = ["c.txt"] := by decide +kernel
    rw [Disk.stat_of_steps rfl hsteps, hwalk]
    rfl
  unfold readingOf reading
  rw [hplaces.1, hplaces.2.1, hplaces.2.2, hread, hlarge, hlink]
  exact ⟨rfl, rfl, rfl⟩

/-- The second and the third file are stored, and one that is not there. -/
def mixedHistory : List Store.Operation :=
  ["b.txt", "c.txt", "e.txt"].map fun path => .upsertFile default ⟨path, "h", default, "text", 1⟩

theorem scan_completes_mixed :
    let env : Surroundings := ⟨mixedDisk, fun _ _ => none, default⟩
    let done := mixedProject.scan env (some (Store.history mixedHistory)) false
    mixedProject.HasDistinctPaths mixedDisk ∧
      ∃ s', done.store = some s' ∧
        (∃ r, s'.file? "a.txt" = some r ∧
          r.row.facts.hash = Digest.blake3 "x".toUTF8.toList) ∧
        s'.file? "b.txt" = none ∧
        s'.file? "c.txt" = (Store.history mixedHistory).file? "c.txt" ∧
        (∃ e ∈ done.stats.errors, e.path = "c.txt") ∧
        s'.file? "e.txt" = none ∧
        (mixedProject.scan env done.store false).store = some s' := by
  intro env done
  have hdistinct := hasDistinctPaths_mixed
  have hmem := fun f => perm_found_mixed.mem_iff (a := f)
  obtain ⟨ha, hb, hc⟩ := readingOf_mixed
  obtain ⟨s', hcompleted, -, hagain⟩ := scan_completes mixedProject env mixedHistory hdistinct
  obtain ⟨hkept, hreported⟩ := hcompleted.unread _ ((hmem _).2 (by simp)) hc
  refine ⟨hdistinct, s', hcompleted.store, ?_, ?_, hkept.file, hreported, ?_,
    (hagain env rfl).store⟩
  · exact hcompleted.settled.content _ ((hmem _).2 (by simp)) _ ha
  · exact hcompleted.settled.tooLarge _ ((hmem _).2 (by simp)) hb
  · apply hcompleted.settled.gone
    intro f hf
    have hthree := (hmem f).1 hf
    simp only [List.mem_cons, List.not_mem_nil, or_false] at hthree
    rcases hthree with rfl | rfl | rfl <;> decide

end CodeIndex.Project

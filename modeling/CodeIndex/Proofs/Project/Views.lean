import CodeIndex.Proofs.Store.View
import CodeIndex.Project.Scan
/-!
# What a pass makes of each path

A file that is indexed changes the view of its path alone, and the new view depends on the old
one, the language and what can be read of the file. A scan does so file by file, and then removes
what it has not found.
-/

namespace CodeIndex.Project

open Text

/-! ## One file -/

/-- The language of the file at a path. -/
def languageOf (p : Project) (absolute : String) : String :=
  (Config.detectLanguage p.config.extraExtensions absolute).getD plainLanguage

/-- The view of a file with these bytes, taken to be in a language. -/
def viewOf (p : Project) (grammar : Grammar) (language : String) (bytes : ByteArray) :
    FileView :=
  let text := decodeLossy bytes.toList
  let parsed := parse grammar p.config.limits language text
  { hash := Digest.blake3 bytes.toList
    language := language
    lineCount := (linesOf text).length
    chunks := Store.inSourceOrder (Store.firstOfRanges parsed.chunks)
    imports := Store.byLine parsed.imports }

/-- What can be read at a path. -/
inductive Reading where
  | failed
  | tooLarge
  | content (bytes : ByteArray)

/-- Reads the file at a path, unless it is too large. -/
def reading (p : Project) (d : Disk) (absolute : String) : Reading :=
  match d.stat absolute with
  | .error _ => .failed
  | .ok e =>
    if p.config.maxFileBytes < Disk.sizeOf e then .tooLarge
    else
      match Disk.contentOf e with
      | .ok (bytes, _) => .content bytes
      | .error _ => .failed

/-- Why the file at a path cannot be read, where it is not too large to be. -/
def fault? (p : Project) (d : Disk) (absolute : String) : Option DiskFault :=
  match d.stat absolute with
  | .error fault => some fault
  | .ok e =>
    if p.config.maxFileBytes < Disk.sizeOf e then none
    else
      match Disk.contentOf e with
      | .ok _ => none
      | .error fault => some fault

/-- The view of a path after a file was indexed under it, given the view before. -/
def reviewed (p : Project) (grammar : Grammar) (force : Bool) (language : String)
    (v : Option FileView) : Reading → Option FileView
  | .failed => v
  | .tooLarge => none
  | .content bytes =>
    if !force && v.any (·.hash == Digest.blake3 bytes.toList) then v
    else some (p.viewOf grammar language bytes)

/-- The store after an attempt. A failure leaves it as it was. -/
def after {α : Type} (s : Store) : Except IndexFault (Store × α) → Store
  | .ok (s', _) => s'
  | .error _ => s

theorem isUpToDate_eq {s : Store} (h : s.Sound) (path hash : String) :
    s.isUpToDate path hash = (s.view path).any (·.hash == hash) := by
  rw [Bool.eq_iff_iff, h.isUpToDate_iff, Option.any_eq_true]
  simp

/-- A file that is dropped counts as removed if it was there. -/
theorem dropFile_eq (s : Store) (path : String) :
    dropFile s path =
      ((s.deleteFile path).1, if (s.view path).isSome then .removed else .ignored) := by
  unfold dropFile
  cases hf : s.file? path with
  | none =>
      rw [Store.deleteFile_of_new (Store.fileId?_of_none hf), Store.view_eq_none_iff.2 hf]
      rfl
  | some f =>
      have hview : (s.view path).isSome = true := by
        rw [Option.isSome_iff_ne_none, ne_eq, Store.view_eq_none_iff, hf]
        exact Option.some_ne_none f
      rw [Store.deleteFile_of_known (Store.fileId?_of_some hf), hview]
      rfl

theorem reading_tooLarge {p : Project} {d : Disk} {absolute : String}
    (hread : p.reading d absolute = .tooLarge) :
    ∃ e, d.stat absolute = .ok e ∧ p.config.maxFileBytes < Disk.sizeOf e := by
  unfold reading at hread
  split at hread
  · cases hread
  · rename_i e hstat
    split at hread
    · rename_i hsize
      exact ⟨e, hstat, hsize⟩
    · split at hread <;> cases hread

theorem reading_content {p : Project} {d : Disk} {absolute : String} {bytes : ByteArray}
    (hread : p.reading d absolute = .content bytes) :
    ∃ e mtime, d.stat absolute = .ok e ∧ ¬ p.config.maxFileBytes < Disk.sizeOf e ∧
      Disk.contentOf e = .ok (bytes, mtime) := by
  unfold reading at hread
  split at hread
  · cases hread
  · rename_i e hstat
    split at hread
    · cases hread
    · rename_i hsize
      split at hread
      · rename_i bytes' mtime hcontent
        cases hread
        exact ⟨e, mtime, hstat, hsize, hcontent⟩
      · cases hread

theorem indexFile_of_failed {p : Project} {env : Surroundings} {absolute : String}
    (hread : p.reading env.disk absolute = .failed) (s : Store) (force : Bool) (path : String) :
    ∃ fault, p.fault? env.disk absolute = some fault ∧
      p.indexFile env (some s) force absolute path = .error (.io fault) := by
  unfold reading at hread
  unfold fault? indexFile
  split at hread
  · rename_i fault hstat
    rw [hstat]
    exact ⟨fault, rfl, rfl⟩
  · rename_i e hstat
    split at hread
    · cases hread
    · rename_i hsize
      split at hread
      · cases hread
      · rename_i fault hcontent
        rw [hstat]
        simp only [Except.mapError, bind, Except.bind]
        rw [if_neg hsize, if_neg hsize, hcontent]
        exact ⟨fault, rfl, rfl⟩

theorem indexFile_of_tooLarge {p : Project} {env : Surroundings} {absolute : String}
    (hread : p.reading env.disk absolute = .tooLarge) (s : Store) (force : Bool)
    (path : String) :
    p.indexFile env (some s) force absolute path = .ok ((s.deleteFile path).1, .tooLarge) := by
  obtain ⟨e, hstat, hsize⟩ := reading_tooLarge hread
  unfold indexFile
  rw [hstat]
  simp only [Except.mapError, bind, Except.bind]
  rw [if_pos hsize]
  rfl

theorem indexFile_of_content {p : Project} {env : Surroundings} {absolute : String}
    {bytes : ByteArray} (hread : p.reading env.disk absolute = .content bytes) (s : Store)
    (force : Bool) (path : String) :
    ∃ mtime, p.indexFile env (some s) force absolute path =
      if !force && s.isUpToDate path (Digest.blake3 bytes.toList) then .ok (s, .unchanged)
      else
        let text := decodeLossy bytes.toList
        let parsed := parse env.grammar p.config.limits (p.languageOf absolute) text
        let written := s.writeIndex env.now ⟨path, Digest.blake3 bytes.toList, mtime,
          p.languageOf absolute, (linesOf text).length⟩ parsed.chunks parsed.imports
        .ok (written.1, .indexed written.2.2) := by
  obtain ⟨e, mtime, hstat, hsize, hcontent⟩ := reading_content hread
  refine ⟨mtime, ?_⟩
  unfold indexFile
  rw [hstat]
  simp only [Except.mapError, bind, Except.bind]
  rw [if_neg hsize, hcontent]
  dsimp only [tables]
  split <;> rfl

theorem after_indexFile_of_content {p : Project} {env : Surroundings} {absolute : String}
    {bytes : ByteArray} (hread : p.reading env.disk absolute = .content bytes) (s : Store)
    (force : Bool) (path : String) :
    ∃ mtime, after s (p.indexFile env (some s) force absolute path) =
      if !force && s.isUpToDate path (Digest.blake3 bytes.toList) then s
      else
        let text := decodeLossy bytes.toList
        let parsed := parse env.grammar p.config.limits (p.languageOf absolute) text
        (s.writeIndex env.now ⟨path, Digest.blake3 bytes.toList, mtime, p.languageOf absolute,
          (linesOf text).length⟩ parsed.chunks parsed.imports).1 := by
  obtain ⟨mtime, heq⟩ := indexFile_of_content hread s force path
  refine ⟨mtime, ?_⟩
  rw [heq]
  split <;> rfl

theorem indexFile_spec (p : Project) (env : Surroundings) {s : Store} (h : s.Sound)
    (force : Bool) (absolute path : String) :
    (after s (p.indexFile env (some s) force absolute path)).Sound ∧
      ∀ other, (after s (p.indexFile env (some s) force absolute path)).view other =
        if other = path then
          p.reviewed env.grammar force (p.languageOf absolute) (s.view path)
            (p.reading env.disk absolute)
        else s.view other := by
  cases hread : p.reading env.disk absolute with
  | failed =>
      obtain ⟨fault, -, hfault⟩ := indexFile_of_failed hread s force path
      rw [hfault]
      refine ⟨h, fun other => ?_⟩
      split
      · rename_i hother
        rw [hother]
        rfl
      · rfl
  | tooLarge =>
      rw [indexFile_of_tooLarge hread]
      exact ⟨(h.deleteFile path).1, h.view_deleteFile path⟩
  | content bytes =>
      obtain ⟨mtime, heq⟩ := after_indexFile_of_content hread s force path
      rw [heq, isUpToDate_eq h]
      dsimp only [reviewed]
      split
      · refine ⟨h, fun other => ?_⟩
        split
        · rename_i hother
          rw [hother]
        · rfl
      · exact ⟨(h.writeIndex _ _ _ _).1, h.view_writeIndex _ _ _ _⟩

/-! ## Files one after the other -/

/-- The store after the found files were indexed. -/
def afterFiles (p : Project) (env : Surroundings) (force : Bool) (s : Store)
    (fs : List FoundFile) : Store :=
  fs.foldl (fun s f => after s (p.indexFile env (some s) force (Path.ofNames f.place) f.path)) s

/-- The view of a path after the files found under it were indexed, given the view before. -/
def reviewedAll (p : Project) (d : Disk) (grammar : Grammar) (force : Bool)
    (v : Option FileView) (fs : List FoundFile) : Option FileView :=
  fs.foldl (fun v f => p.reviewed grammar force (p.languageOf (Path.ofNames f.place)) v
    (p.reading d (Path.ofNames f.place))) v

theorem afterFiles_spec (p : Project) (env : Surroundings) (force : Bool) (fs : List FoundFile)
    {s : Store} (h : s.Sound) :
    (p.afterFiles env force s fs).Sound ∧
      ∀ path, (p.afterFiles env force s fs).view path =
        p.reviewedAll env.disk env.grammar force (s.view path)
          (fs.filter (·.path == path)) := by
  induction fs generalizing s with
  | nil => exact ⟨h, fun path => rfl⟩
  | cons f fs ih =>
      obtain ⟨hsound, hview⟩ := p.indexFile_spec env h force (Path.ofNames f.place) f.path
      obtain ⟨hrest, hviews⟩ := ih hsound
      refine ⟨hrest, fun path => (hviews path).trans ?_⟩
      rw [hview]
      by_cases hpath : path = f.path
      · rw [if_pos hpath, List.filter_cons_of_pos (by simp [hpath]), hpath]
        rfl
      · rw [if_neg hpath, List.filter_cons_of_neg (by simpa using Ne.symm hpath)]

theorem store_take (sc : Scan) {s : Store} (hs : sc.store = some s) (path : String)
    (r : Except IndexFault (Store × Outcome)) : (sc.take path r).store = some (after s r) := by
  cases r with
  | ok r => rfl
  | error fault => exact hs

theorem store_files (p : Project) (env : Surroundings) (force : Bool) (total : Nat)
    (fs : List FoundFile) {sc : Scan} {s : Store} (hs : sc.store = some s) :
    (fs.foldl (Scan.file p env force total) sc).store = some (p.afterFiles env force s fs) := by
  induction fs generalizing sc s with
  | nil => exact hs
  | cons f fs ih =>
      apply ih
      have htaken := store_take sc hs f.path
        (p.indexFile env (some s) force (Path.ofNames f.place) f.path)
      unfold Scan.file
      rw [hs]
      exact htaken

theorem foldl_batches {α σ : Type} (step : σ → α → σ) (size : Nat) (as : List α) (init : σ) :
    (Scan.batches size as).foldl (fun x batch => batch.foldl step x) init =
      as.foldl step init := by
  induction as using Scan.batches.induct size generalizing init with
  | case1 => simp [Scan.batches]
  | case2 a rest ih =>
      rw [Scan.batches, List.foldl_cons, ih, ← List.foldl_append, List.cons_append,
        List.take_append_drop]

/-! ## Files that are gone -/

theorem view_deleteAll (gone : List FileRecord) {s : Store} (h : s.Sound) :
    (gone.foldl (fun s f => (s.deleteFile f.row.facts.path).1) s).Sound ∧
      ∀ path, (gone.foldl (fun s f => (s.deleteFile f.row.facts.path).1) s).view path =
        if gone.any (·.row.facts.path == path) then none else s.view path := by
  induction gone generalizing s with
  | nil => exact ⟨h, fun path => rfl⟩
  | cons f gone ih =>
      obtain ⟨hsound, hview⟩ := ih (h.deleteFile f.row.facts.path).1
      refine ⟨hsound, fun path => (hview path).trans ?_⟩
      rw [h.view_deleteFile, List.any_cons]
      by_cases hpath : path = f.row.facts.path
      · simp [hpath]
      · have hne : (f.row.facts.path == path) = false := by
          simpa using Ne.symm hpath
        rw [if_neg hpath, hne, Bool.false_or]

theorem mem_allFiles {s : Store} (h : s.Sound) {path : String} {f : FileRecord}
    (hf : s.file? path = some f) : f ∈ s.allFiles := by
  unfold Store.allFiles
  rw [Store.mem_sortedBy]
  exact List.mem_map.2 ⟨(f.id, f.row), (h.file?_eq_some_iff.1 hf).1, rfl⟩

theorem removeStale_spec (found : List FoundFile) {sc : Scan} {s : Store}
    (hs : sc.store = some s) (h : s.Sound) :
    ∃ s', (sc.removeStale found).store = some s' ∧ s'.Sound ∧
      ∀ path, s'.view path = if found.any (·.path == path) then s.view path else none := by
  obtain ⟨hsound, hview⟩ := view_deleteAll
    (s.allFiles.filter fun f => !found.any (·.path == f.row.facts.path)) h
  refine ⟨_, ?_, hsound, fun path => (hview path).trans ?_⟩
  · unfold Scan.removeStale
    rw [hs]
  · cases hfound : found.any (·.path == path) with
    | true =>
        have hkept : (s.allFiles.filter fun f => !found.any (·.path == f.row.facts.path)).any
            (·.row.facts.path == path) = false := by
          rw [List.any_eq_false]
          intro f hf hpath
          have hgone := (List.mem_filter.1 hf).2
          rw [beq_iff_eq] at hpath
          rw [hpath, hfound] at hgone
          cases hgone
        rw [hkept]
        rfl
    | false =>
        cases hf : s.file? path with
        | none => simp [Store.view_eq_none_iff.2 hf]
        | some f =>
            have hpath := h.file?_path hf
            have hgone : (s.allFiles.filter fun f => !found.any (·.path == f.row.facts.path)).any
                (·.row.facts.path == path) = true := by
              refine List.any_eq_true.2 ⟨f, List.mem_filter.2 ⟨mem_allFiles h hf, ?_⟩, ?_⟩
              · rw [hpath, hfound]
                rfl
              · rw [hpath, beq_self_eq_true]
            rw [hgone]
            rfl

/-! ## Whole scans -/

/-- The files of a disk that are found under a path. -/
def foundAt (p : Project) (d : Disk) (path : String) : List FoundFile :=
  (Walk.discover d p.filter p.root).filter (·.path == path)

/-- The view of a path after a scan, given the view before. -/
def scanned (p : Project) (d : Disk) (grammar : Grammar) (force : Bool) (v : Option FileView)
    (path : String) : Option FileView :=
  if (p.foundAt d path).isEmpty then none
  else p.reviewedAll d grammar force v (p.foundAt d path)

theorem scan_spec (p : Project) (env : Surroundings) (force : Bool) {s : Store} (h : s.Sound) :
    ∃ s', (p.scan env (some s) force).store = some s' ∧ s'.Sound ∧
      ∀ path, s'.view path =
        p.scanned env.disk env.grammar force (s.view path) path := by
  let found := Walk.discover env.disk p.filter p.root
  obtain ⟨hsound, hview⟩ := p.afterFiles_spec env force found h
  have hbegun : ({ store := some s, stats := { scanned := found.length } } : Scan).store =
      some s := rfl
  have hstore := p.store_files env force found.length found hbegun
  rw [← foldl_batches _ (max p.config.batchSize 1)] at hstore
  obtain ⟨s', hs', hsound', hviews⟩ := removeStale_spec found hstore hsound
  refine ⟨s', hs', hsound', fun path => (hviews path).trans ?_⟩
  have hempty : (p.foundAt env.disk path).isEmpty = !found.any (·.path == path) := by
    rw [Bool.eq_iff_iff]
    simp [foundAt, found]
  unfold scanned
  rw [hempty]
  cases found.any (·.path == path) with
  | true => exact hview path
  | false => rfl

end CodeIndex.Project

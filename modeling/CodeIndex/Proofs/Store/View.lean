import CodeIndex.Proofs.Store.Written
/-!
# Views of stored files

What is read of a file, apart from ids and times, is its view. A write gives one path a view
that depends on what is written alone, and leaves those of all other paths as they are.
-/

namespace CodeIndex

/-- What a store holds of a file, ids and times aside. -/
structure FileView where
  hash : String
  language : String
  lineCount : Nat
  /-- In source order, with the names they call and refer to. -/
  chunks : List Chunk
  /-- By line. -/
  imports : List Import
  deriving DecidableEq

/-- The chunk of a row, given the names that it calls and refers to. -/
def ChunkRow.toChunk (c : ChunkRow) (calls typeRefs : List String) : Chunk where
  kind := c.kind
  name := c.name
  signature := c.signature
  docstring := c.docstring
  startLine := c.startLine
  endLine := c.endLine
  content := c.content
  scopePath := c.scopePath
  calls := calls
  typeRefs := typeRefs

theorem ChunkRow.toChunk_ofChunk (fileId : Nat) (c : Chunk) :
    (ChunkRow.ofChunk fileId c).toChunk c.calls c.typeRefs = c := rfl

namespace Store

/-- Chunks in the order in which those of a file are read. -/
def inSourceOrder (cs : List Chunk) : List Chunk :=
  sortedBy (fun a b => signedWord a.startLine < signedWord b.startLine
    || (signedWord a.startLine == signedWord b.startLine
      && signedWord b.endLine < signedWord a.endLine)) cs

/-- Imports in the order in which those of a file are read. -/
def byLine (is : List Import) : List Import :=
  sortedBy (fun a b => signedWord a.line < signedWord b.line) is

/-- The view of the file with that path. -/
def view (s : Store) (path : String) : Option FileView :=
  (s.file? path).map fun f =>
    { hash := f.row.facts.hash
      language := f.row.facts.language
      lineCount := f.row.facts.lineCount
      chunks := (s.chunksOf path).map fun c => c.row.toChunk (s.callsOf c.id) (s.typesOf c.id)
      imports := (s.importsOf path).map (·.row.fact) }

theorem view_eq_none_iff {s : Store} {path : String} :
    s.view path = none ↔ s.file? path = none := by
  simp [view]

/-- What is the same at a path has the same view there. -/
theorem SameAt.view_eq {s s' : Store} {path : String} (h : SameAt s s' path) :
    s'.view path = s.view path := by
  have hchunks : (s'.chunksOf path).map
      (fun c => c.row.toChunk (s'.callsOf c.id) (s'.typesOf c.id)) =
        (s.chunksOf path).map fun c => c.row.toChunk (s.callsOf c.id) (s.typesOf c.id) := by
    rw [h.chunks]
    apply List.map_congr_left
    intro c hc
    rw [h.calls c hc, h.types c hc]
  unfold view
  rw [h.file, hchunks, h.imports]

theorem Sound.view_eq {s : Store} (h : s.Sound) {path : String} {f : FileRecord}
    (hf : s.file? path = some f) :
    s.view path = some
      { hash := f.row.facts.hash
        language := f.row.facts.language
        lineCount := f.row.facts.lineCount
        chunks := inSourceOrder
          ((s.chunkRows f.id).map fun r => r.2.toChunk (s.callsOf r.1) (s.typesOf r.1))
        imports := byLine ((s.importRows f.id).map (·.2.fact)) } := by
  have hchunks : (s.chunksOf path).map (fun c => c.row.toChunk (s.callsOf c.id) (s.typesOf c.id)) =
      inSourceOrder
        ((s.chunkRows f.id).map fun r => r.2.toChunk (s.callsOf r.1) (s.typesOf r.1)) := by
    unfold chunksOf inSourceOrder
    rw [h.chunksIn_eq hf, map_sortedBy, List.map_map]
    · rfl
    · intro a b
      rfl
  have himports : (s.importsOf path).map (·.row.fact) =
      byLine ((s.importRows f.id).map (·.2.fact)) := by
    unfold byLine
    rw [h.importsOf_eq hf, map_sortedBy, List.map_map]
    · rfl
    · intro a b
      rfl
  unfold view
  rw [hf, Option.map_some, hchunks, himports]

/-- A file that is as it was, but for times, has the view it had. -/
theorem Sound.view_congr {s s' : Store} (h : s.Sound) (h' : s'.Sound) {path : String}
    {f f' : FileRecord} (hf : s.file? path = some f) (hf' : s'.file? path = some f')
    (hid : f'.id = f.id) (hfacts : f'.row.facts = f.row.facts) (hsame : SameFile s s' f.id) :
    s'.view path = s.view path := by
  have hchunks : (s'.chunkRows f.id).map
      (fun r => r.2.toChunk (s'.callsOf r.1) (s'.typesOf r.1)) =
        (s.chunkRows f.id).map fun r => r.2.toChunk (s.callsOf r.1) (s.typesOf r.1) := by
    rw [hsame.chunks]
    apply List.map_congr_left
    intro r hr
    rw [hsame.calls r hr, hsame.types r hr]
  rw [h.view_eq hf, h'.view_eq hf', hid, hfacts, hchunks, hsame.imports]

theorem Sound.view_other {s s' : Store} (h : s.Sound) (h' : s'.Sound) {path : String}
    (hfile : s'.file? path = s.file? path)
    (hsame : ∀ f, s.file? path = some f → SameFile s s' f.id) : s'.view path = s.view path := by
  cases hf : s.file? path with
  | none => rw [view_eq_none_iff.2 hf, view_eq_none_iff.2 (hfile.trans hf)]
  | some f => exact h.view_congr h' hf (hfile.trans hf) rfl rfl (hsame f hf)

/-! ## Views after a write -/

/-- The view of a file that is written with these chunks and imports. -/
def writtenView (f : FileFacts) (cs : List Chunk) (is : List Import) : FileView where
  hash := f.hash
  language := f.language
  lineCount := f.lineCount
  chunks := inSourceOrder (firstOfRanges cs)
  imports := byLine is

theorem Sound.chunks_of_writeIndex {s : Store} (h : s.Sound) (now : Instant) (f : FileFacts)
    (cs : List Chunk) (is : List Import) :
    (((s.writeIndex now f cs is).1.chunkRows (s.writeIndex now f cs is).2.1).map fun r =>
      r.2.toChunk ((s.writeIndex now f cs is).1.callsOf r.1)
        ((s.writeIndex now f cs is).1.typesOf r.1)) = firstOfRanges cs := by
  rw [chunkRows_writeIndex, Table.numbered_map, List.map_map]
  conv_rhs => rw [← Table.map_snd_numbered (s.chunks.last + 1) (firstOfRanges cs)]
  apply List.map_congr_left
  intro r hr
  obtain ⟨hcalls, htypes⟩ := h.namesOf_writeIndex now f cs is hr
  rw [Function.comp_apply, hcalls, htypes, ChunkRow.toChunk_ofChunk]

theorem imports_of_writeIndex (s : Store) (now : Instant) (f : FileFacts) (cs : List Chunk)
    (is : List Import) :
    ((s.writeIndex now f cs is).1.importRows (s.writeIndex now f cs is).2.1).map
      (·.2.fact) = is := by
  rw [importRows_writeIndex, Table.numbered_map, List.map_map]
  exact Table.map_snd_numbered (s.imports.last + 1) is

theorem Sound.view_writeIndex {s : Store} (h : s.Sound) (now : Instant) (f : FileFacts)
    (cs : List Chunk) (is : List Import) (path : String) :
    (s.writeIndex now f cs is).1.view path =
      if path = f.path then some (writtenView f cs is) else s.view path := by
  have hwritten := (h.writeIndex now f cs is).1
  by_cases hpath : path = f.path
  · rw [if_pos hpath, hpath, hwritten.view_eq (h.file?_writeIndex now f cs is)]
    dsimp only
    rw [h.chunks_of_writeIndex, imports_of_writeIndex]
    rfl
  · rw [if_neg hpath]
    apply h.view_other hwritten (h.file?_writeIndex_other now f cs is hpath)
    intro other hother
    exact h.sameFile_writeIndex_other now f cs is hpath hother

theorem Sound.view_markAccessed {s : Store} (h : s.Sound) (at_ : Instant)
    (opened path : String) : (s.markAccessed opened at_).1.view path = s.view path := by
  have hmarked := h.markAccessed opened at_
  by_cases hpath : path = opened
  · cases hf : s.file? path with
    | none =>
        rw [← hpath, markAccessed_of_new (fileId?_of_none hf)]
    | some f =>
        have hfile : (s.markAccessed opened at_).1.file? path =
            some ⟨f.id, { f.row with lastAccessed := some at_ }⟩ := by
          obtain ⟨hrow, hfpath⟩ := h.file?_eq_some_iff.1 hf
          rw [hmarked.file?_eq_some_iff]
          refine ⟨?_, hfpath⟩
          rw [← hpath, markAccessed_of_known (fileId?_of_some hf)]
          exact Table.mem_update_self (fun r => { r with lastAccessed := some at_ }) hrow
        exact h.view_congr hmarked hf hfile rfl rfl (sameFile_markAccessed s opened at_ f.id)
  · apply h.view_other hmarked (h.file?_markAccessed_other at_ hpath)
    exact fun f _ => sameFile_markAccessed s opened at_ f.id

theorem Sound.file?_deleteFile {s : Store} (h : s.Sound) (path : String) :
    (s.deleteFile path).1.file? path = none := by
  cases hid : s.fileId? path with
  | none =>
      rw [deleteFile_of_new hid]
      rwa [fileId?_eq, Option.map_eq_none_iff] at hid
  | some id =>
      have hdeleted := (h.deleteFile path).1
      rw [deleteFile_of_known hid] at hdeleted ⊢
      rw [Option.eq_none_iff_forall_ne_some]
      intro f hf
      obtain ⟨hrow, hpath⟩ := hdeleted.file?_eq_some_iff.1 hf
      simpa [hpath] using (Table.mem_erase.1 hrow).2

theorem Sound.view_deleteFile {s : Store} (h : s.Sound) (gone path : String) :
    (s.deleteFile gone).1.view path = if path = gone then none else s.view path := by
  by_cases hpath : path = gone
  · rw [if_pos hpath, hpath]
    exact view_eq_none_iff.2 (h.file?_deleteFile gone)
  · have hfile := h.file?_deleteFile_other hpath
    rw [if_neg hpath]
    apply h.view_other (h.deleteFile gone).1 hfile
    intro f hf
    apply h.sameFile_deleteFile
    exact fun g hg => h.file?_id_ne hf hg hpath

theorem view_clear (s : Store) (path : String) : s.clear.view path = none := by
  rw [view_eq_none_iff]
  simp [file?, Store.clear, clear_rows]

theorem view_empty (path : String) : ({} : Store).view path = none := rfl

theorem Sound.isUpToDate_iff {s : Store} (h : s.Sound) {path hash : String} :
    s.isUpToDate path hash = true ↔ ∃ v, s.view path = some v ∧ v.hash = hash := by
  simp only [isUpToDate, List.any_eq_true, Bool.and_eq_true, beq_iff_eq]
  constructor
  · rintro ⟨r, hr, hpath, hhash⟩
    have hf : s.file? path = some ⟨r.1, r.2⟩ := h.file?_eq_some_iff.2 ⟨hr, hpath⟩
    exact ⟨_, h.view_eq hf, hhash⟩
  · rintro ⟨v, hv, hhash⟩
    obtain ⟨f, hf, rfl⟩ := Option.map_eq_some_iff.1 hv
    obtain ⟨hrow, hpath⟩ := h.file?_eq_some_iff.1 hf
    exact ⟨(f.id, f.row), hrow, hpath, hhash⟩

end Store

end CodeIndex

import CodeIndex.Proofs.Store.Trigger
import CodeIndex.Store.Read
import CodeIndex.Store.Write
import Mathlib.Data.List.Induction
/-!
# Sound stores

In a sound store no two files share a path, no two chunks of a file share their lines, and every
row that belongs to another belongs to one that exists; the full-text index holds the documents of
the chunks. Each write keeps a store sound, and no write gives an id to a second row.
-/

namespace CodeIndex.Store

/-- What holds of the rows of a store between writes. -/
structure Sound (s : Store) : Prop where
  files : s.files.Ordered
  chunks : s.chunks.Ordered
  indexed : s.IsIndexed
  imports : s.imports.Ordered
  calls : s.calls.Ordered
  typeRefs : s.typeRefs.Ordered
  paths : (s.files.rows.map (·.2.facts.path)).Nodup
  ranges : (s.chunks.rows.map fun r => (r.2.fileId, r.2.startLine, r.2.endLine)).Nodup
  chunkFiles : ∀ r ∈ s.chunks.rows, s.files.has r.2.fileId = true
  importFiles : ∀ r ∈ s.imports.rows, s.files.has r.2.fileId = true
  callChunks : ∀ r ∈ s.calls.rows, s.chunks.has r.2.chunkId = true
  typeChunks : ∀ r ∈ s.typeRefs.rows, s.chunks.has r.2.chunkId = true

/-- No id of the earlier store is given to another row. A file is known by its path; rows of
the other tables never change. -/
structure Continues (s s' : Store) : Prop where
  files : Table.Continues (·.facts.path) s.files s'.files
  chunks : Table.Continues id s.chunks s'.chunks
  imports : Table.Continues id s.imports s'.imports
  calls : Table.Continues id s.calls s'.calls
  typeRefs : Table.Continues id s.typeRefs s'.typeRefs

theorem Continues.refl (s : Store) : Continues s s :=
  ⟨.refl _, .refl _, .refl _, .refl _, .refl _⟩

theorem Continues.trans {s s' s'' : Store} (h : Continues s s') (h' : Continues s' s'') :
    Continues s s'' :=
  ⟨h.files.trans h'.files, h.chunks.trans h'.chunks, h.imports.trans h'.imports,
    h.calls.trans h'.calls, h.typeRefs.trans h'.typeRefs⟩

theorem sound_empty : ({} : Store).Sound where
  files := Table.ordered_empty
  chunks := Table.ordered_empty
  indexed := rfl
  imports := Table.ordered_empty
  calls := Table.ordered_empty
  typeRefs := Table.ordered_empty
  paths := List.nodup_nil
  ranges := List.nodup_nil
  chunkFiles := by simp
  importFiles := by simp
  callChunks := by simp
  typeChunks := by simp

/-! ## Files by path -/

theorem Sound.file_unique {s : Store} (h : s.Sound) {r r' : Nat × FileRow}
    (hr : r ∈ s.files.rows) (hr' : r' ∈ s.files.rows)
    (hpath : r.2.facts.path = r'.2.facts.path) : r = r' :=
  List.inj_on_of_nodup_map h.paths hr hr' hpath

theorem fileId?_eq_none_iff {s : Store} {path : String} :
    s.fileId? path = none ↔ ∀ r ∈ s.files.rows, r.2.facts.path ≠ path := by
  simp [fileId?]

theorem fileId?_eq (s : Store) (path : String) : s.fileId? path = (s.file? path).map (·.id) := by
  simp [fileId?, file?, Function.comp_def]

theorem fileId?_of_none {s : Store} {path : String} (hf : s.file? path = none) :
    s.fileId? path = none := by
  rw [fileId?_eq, hf]
  rfl

theorem fileId?_of_some {s : Store} {path : String} {f : FileRecord}
    (hf : s.file? path = some f) : s.fileId? path = some f.id := by
  rw [fileId?_eq, hf]
  rfl

theorem Sound.file?_eq_some_iff {s : Store} (h : s.Sound) {path : String} {f : FileRecord} :
    s.file? path = some f ↔ (f.id, f.row) ∈ s.files.rows ∧ f.row.facts.path = path := by
  unfold file?
  constructor
  · intro hf
    obtain ⟨⟨i, r⟩, hfind, rfl⟩ := Option.map_eq_some_iff.1 hf
    exact ⟨List.mem_of_find?_eq_some hfind, by simpa using List.find?_some hfind⟩
  · rintro ⟨hr, hpath⟩
    cases hfind : s.files.rows.find? (fun r => r.2.facts.path == path) with
    | none =>
        have hne := List.find?_eq_none.1 hfind (f.id, f.row) hr
        simp [hpath] at hne
    | some r =>
        have hpath' : r.2.facts.path = path := by simpa using List.find?_some hfind
        rw [h.file_unique (List.mem_of_find?_eq_some hfind) hr (hpath'.trans hpath.symm)]
        rfl

theorem Sound.fileId?_eq_some_iff {s : Store} (h : s.Sound) {path : String} {id : Nat} :
    s.fileId? path = some id ↔ ∃ r, (id, r) ∈ s.files.rows ∧ r.facts.path = path := by
  rw [fileId?_eq, Option.map_eq_some_iff]
  constructor
  · rintro ⟨f, hf, rfl⟩
    exact ⟨f.row, h.file?_eq_some_iff.1 hf⟩
  · rintro ⟨r, hr⟩
    exact ⟨⟨id, r⟩, h.file?_eq_some_iff.2 hr, rfl⟩

/-! ## Files -/

/-- A file is changed without being renamed. -/
theorem Sound.updateFile {s : Store} (h : s.Sound) {id : Nat} {g : FileRow → FileRow}
    (hg : ∀ r, (id, r) ∈ s.files.rows → (g r).facts.path = r.facts.path) :
    Sound { s with files := s.files.update id g } := by
  refine { h with files := h.files.update _ _, paths := ?_, chunkFiles := ?_, importFiles := ?_ }
  · have hmap := s.files.map_update (·.facts.path) hg
    dsimp only
    rw [hmap]
    exact h.paths
  · intro r hr
    simpa using h.chunkFiles r hr
  · intro r hr
    simpa using h.importFiles r hr

theorem Sound.skipFile {s : Store} (h : s.Sound) : Sound { s with files := s.files.skip } :=
  { h with files := h.files.skip }

theorem upsertFile_of_known {s : Store} {now : Instant} {f : FileFacts} {id : Nat}
    (hid : s.fileId? f.path = some id) :
    s.upsertFile now f =
      ({ s with
          files := (s.files.update id fun r => { r with facts := f, indexedAt := now }).skip },
        id) := by
  unfold upsertFile
  rw [hid]

theorem upsertFile_of_new {s : Store} {now : Instant} {f : FileFacts}
    (hid : s.fileId? f.path = none) :
    s.upsertFile now f =
      ({ s with files := s.files.append [⟨f, now, none⟩] }, s.files.last + 1) := by
  unfold upsertFile
  rw [hid]
  rfl

theorem chunks_upsertFile (s : Store) (now : Instant) (f : FileFacts) :
    (s.upsertFile now f).1.chunks = s.chunks := by
  unfold upsertFile
  split <;> rfl

theorem imports_upsertFile (s : Store) (now : Instant) (f : FileFacts) :
    (s.upsertFile now f).1.imports = s.imports := by
  unfold upsertFile
  split <;> rfl

/-- The file under the id of a path has that path already. -/
theorem Sound.upsert_keeps_path {s : Store} (h : s.Sound) {now : Instant} {f : FileFacts}
    {id : Nat} (hid : s.fileId? f.path = some id) {a : FileRow} (ha : (id, a) ∈ s.files.rows) :
    ({ a with facts := f, indexedAt := now } : FileRow).facts.path = a.facts.path := by
  obtain ⟨r, hr, hpath⟩ := h.fileId?_eq_some_iff.1 hid
  rw [h.files.row_unique ha hr]
  exact hpath.symm

theorem Sound.upsertFile {s : Store} (h : s.Sound) (now : Instant) (f : FileFacts) :
    (s.upsertFile now f).1.Sound := by
  cases hid : s.fileId? f.path with
  | none =>
      rw [upsertFile_of_new hid]
      refine { h with files := h.files.append _, paths := ?_, chunkFiles := ?_, importFiles := ?_ }
      · have hne := fileId?_eq_none_iff.1 hid
        simp only [Table.append, List.map_append, Table.numbered, List.map_cons, List.map_nil]
        refine List.nodup_append.2 ⟨h.paths, by simp, ?_⟩
        intro a ha b hb
        obtain ⟨r, hr, rfl⟩ := List.mem_map.1 ha
        rw [List.mem_singleton.1 hb]
        exact hne r hr
      · exact fun r hr => Table.has_append _ (h.chunkFiles r hr)
      · exact fun r hr => Table.has_append _ (h.importFiles r hr)
  | some known =>
      rw [upsertFile_of_known hid]
      exact (h.updateFile fun r hr => h.upsert_keeps_path hid hr).skipFile

theorem Sound.continues_upsertFile {s : Store} (h : s.Sound) (now : Instant) (f : FileFacts) :
    Continues s (s.upsertFile now f).1 := by
  cases hid : s.fileId? f.path with
  | none =>
      rw [upsertFile_of_new hid]
      exact { Continues.refl s with files := .append _ _ }
  | some known =>
      rw [upsertFile_of_known hid]
      refine { Continues.refl s with files := .trans (.update _ ?_) (.skip _) }
      exact fun r hr => h.upsert_keeps_path hid hr

/-- The file is as it is given, and keeps the time it was opened at. -/
theorem Sound.file?_upsertFile {s : Store} (h : s.Sound) (now : Instant) (f : FileFacts) :
    (s.upsertFile now f).1.file? f.path =
      some ⟨(s.upsertFile now f).2, f, now, (s.file? f.path).bind (·.row.lastAccessed)⟩ := by
  rw [(h.upsertFile now f).file?_eq_some_iff]
  refine ⟨?_, rfl⟩
  cases hf : s.file? f.path with
  | none =>
      rw [upsertFile_of_new (fileId?_of_none hf)]
      exact Table.mem_append.2 (Or.inr (by simp [Table.numbered]))
  | some old =>
      rw [upsertFile_of_known (fileId?_of_some hf)]
      exact Table.mem_update_self (fun r => { r with facts := f, indexedAt := now })
        (h.file?_eq_some_iff.1 hf).1

theorem Sound.fileId?_upsertFile {s : Store} (h : s.Sound) (now : Instant) (f : FileFacts) :
    (s.upsertFile now f).1.fileId? f.path = some (s.upsertFile now f).2 := by
  exact fileId?_of_some (h.file?_upsertFile now f)

theorem Sound.has_upserted {s : Store} (h : s.Sound) (now : Instant) (f : FileFacts) :
    (s.upsertFile now f).1.files.has (s.upsertFile now f).2 = true := by
  obtain ⟨r, hr, -⟩ := (h.upsertFile now f).fileId?_eq_some_iff.1 (h.fileId?_upsertFile now f)
  exact Table.has_iff.2 ⟨r, hr⟩

theorem markAccessed_of_known {s : Store} {path : String} {at_ : Instant} {id : Nat}
    (hid : s.fileId? path = some id) :
    s.markAccessed path at_ =
      ({ s with files := s.files.update id fun r => { r with lastAccessed := some at_ } },
        true) := by
  unfold markAccessed
  rw [hid]

theorem markAccessed_of_new {s : Store} {path : String} {at_ : Instant}
    (hid : s.fileId? path = none) : s.markAccessed path at_ = (s, false) := by
  unfold markAccessed
  rw [hid]

theorem Sound.markAccessed {s : Store} (h : s.Sound) (path : String) (at_ : Instant) :
    (s.markAccessed path at_).1.Sound := by
  cases hid : s.fileId? path with
  | none =>
      rw [markAccessed_of_new hid]
      exact h
  | some id =>
      rw [markAccessed_of_known hid]
      exact h.updateFile fun _ _ => rfl

theorem continues_markAccessed (s : Store) (path : String) (at_ : Instant) :
    Continues s (s.markAccessed path at_).1 := by
  cases hid : s.fileId? path with
  | none =>
      rw [markAccessed_of_new hid]
      exact .refl s
  | some id =>
      rw [markAccessed_of_known hid]
      have hfiles : Table.Continues (·.facts.path) s.files
          (s.files.update id fun r => { r with lastAccessed := some at_ }) :=
        Table.Continues.update _ fun _ _ => rfl
      exact { Continues.refl s with files := hfiles }

/-! ## The first chunk of each range -/

theorem firstOfRanges_concat (cs : List Chunk) (c : Chunk) :
    firstOfRanges (cs ++ [c]) =
      if (firstOfRanges cs).any (·.range == c.range) then firstOfRanges cs
      else firstOfRanges cs ++ [c] := by
  unfold firstOfRanges
  rw [List.foldl_append]
  rfl

theorem nodup_firstOfRanges (cs : List Chunk) :
    ((firstOfRanges cs).map Chunk.range).Nodup := by
  induction cs using List.reverseRecOn with
  | nil => simp [firstOfRanges]
  | append_singleton cs c ih =>
      rw [firstOfRanges_concat]
      split
      · exact ih
      · rename_i hnew
        simp only [List.any_eq_true, beq_iff_eq, not_exists, not_and] at hnew
        rw [List.map_append, List.nodup_append]
        refine ⟨ih, by simp, ?_⟩
        intro a ha b hb
        obtain ⟨d, hd, rfl⟩ := List.mem_map.1 ha
        rw [List.map_singleton, List.mem_singleton] at hb
        rw [hb]
        exact hnew d hd

theorem firstOfRanges_ne_nil_iff {cs : List Chunk} : firstOfRanges cs ≠ [] ↔ cs ≠ [] := by
  constructor
  · rintro h rfl
    exact h rfl
  · intro h
    induction cs using List.reverseRecOn with
    | nil => exact absurd rfl h
    | append_singleton cs c ih =>
        rw [firstOfRanges_concat]
        split
        · rename_i hany
          intro hnil
          simp [hnil] at hany
        · simp

/-! ## Chunks -/

/-- The row belongs to no chunk of the file. -/
def isKept (s : Store) (fileId chunkId : Nat) : Bool :=
  !(s.chunks.idsOf (·.fileId == fileId)).contains chunkId

theorem dropChunks_eq (s : Store) (fileId : Nat) :
    s.dropChunks fileId =
      { s.eraseRows (·.fileId == fileId) with
        calls := s.calls.erase fun c => !s.isKept fileId c.chunkId
        typeRefs := s.typeRefs.erase fun t => !s.isKept fileId t.chunkId } := by
  simp [dropChunks, isKept]

/-- A chunk whose rows are kept belongs to another file. -/
theorem has_of_isKept {s : Store} {fileId id : Nat} (hid : s.chunks.has id = true)
    (hkept : s.isKept fileId id = true) :
    (s.chunks.erase (·.fileId == fileId)).has id = true := by
  obtain ⟨c, hc⟩ := Table.has_iff.1 hid
  apply Table.has_erase hc
  by_contra hfile
  have hmem : id ∈ s.chunks.idsOf (·.fileId == fileId) :=
    Table.mem_idsOf.2 ⟨c, hc, by simpa using hfile⟩
  simp [isKept, hmem] at hkept

theorem Sound.dropChunks {s : Store} (h : s.Sound) (fileId : Nat) :
    (s.dropChunks fileId).Sound := by
  rw [dropChunks_eq]
  refine { h with
    chunks := h.chunks.erase (·.fileId == fileId)
    indexed := h.indexed.eraseRows h.chunks (·.fileId == fileId)
    calls := h.calls.erase fun c => !s.isKept fileId c.chunkId
    typeRefs := h.typeRefs.erase fun t => !s.isKept fileId t.chunkId
    ranges := (List.filter_sublist.map _).nodup h.ranges
    chunkFiles := fun r hr => h.chunkFiles r (Table.mem_erase.1 hr).1
    callChunks := ?_, typeChunks := ?_ }
  · intro r hr
    obtain ⟨hold, hkept⟩ := Table.mem_erase.1 hr
    exact has_of_isKept (h.callChunks r hold) (by simpa using hkept)
  · intro r hr
    obtain ⟨hold, hkept⟩ := Table.mem_erase.1 hr
    exact has_of_isKept (h.typeChunks r hold) (by simpa using hkept)

theorem continues_dropChunks (s : Store) (fileId : Nat) :
    Continues s (s.dropChunks fileId) := by
  rw [dropChunks_eq]
  exact { Continues.refl s with
    chunks := .erase s.chunks (·.fileId == fileId)
    calls := .erase s.calls fun c => !s.isKept fileId c.chunkId
    typeRefs := .erase s.typeRefs fun t => !s.isKept fileId t.chunkId }

theorem not_mem_dropChunks {s : Store} {fileId : Nat} {r : Nat × ChunkRow}
    (hr : r ∈ (s.dropChunks fileId).chunks.rows) : r.2.fileId ≠ fileId := by
  simpa using (Table.mem_erase.1 hr).2

/-- Rows that numbered chunks give rise to belong to one of these chunks. -/
theorem has_of_mem_flatMap {t : Table ChunkRow} {fileId : Nat} {cs : List Chunk} {γ : Type}
    (owner : γ → Nat) (names : Chunk → List String) (mk : Nat → String → γ)
    (howner : ∀ id name, owner (mk id name) = id) {first : Nat} {r : Nat × γ}
    (hr : r ∈ Table.numbered first
      ((Table.numbered (t.last + 1) cs).flatMap fun x => (names x.2).map (mk x.1))) :
    (t.append (cs.map (ChunkRow.ofChunk fileId))).has (owner r.2) = true := by
  obtain ⟨x, hx, hname⟩ := List.mem_flatMap.1 (Table.mem_of_mem_numbered hr)
  obtain ⟨name, -, hrow⟩ := List.mem_map.1 hname
  rw [← hrow, howner]
  apply Table.has_iff.2
  refine ⟨ChunkRow.ofChunk fileId x.2, Table.mem_append.2 (Or.inr ?_)⟩
  rw [Table.numbered_map]
  exact List.mem_map_of_mem hx

theorem Sound.addChunks {s : Store} (h : s.Sound) {fileId : Nat} {cs : List Chunk}
    (hfile : cs ≠ [] → s.files.has fileId = true)
    (hnone : ∀ r ∈ s.chunks.rows, r.2.fileId ≠ fileId)
    (hcs : (cs.map Chunk.range).Nodup) : (s.addChunks fileId cs).Sound := by
  refine { h with
    chunks := h.chunks.append _
    indexed := h.indexed.insertRows h.chunks _
    calls := h.calls.append _
    typeRefs := h.typeRefs.append _
    ranges := ?_, chunkFiles := ?_, callChunks := ?_, typeChunks := ?_ }
  · change ((s.chunks.rows ++ Table.numbered _ (cs.map (ChunkRow.ofChunk fileId))).map
      fun r => (r.2.fileId, r.2.startLine, r.2.endLine)).Nodup
    have hnew : (Table.numbered (s.chunks.last + 1) (cs.map (ChunkRow.ofChunk fileId))).map
        (fun r => (r.2.fileId, r.2.startLine, r.2.endLine)) =
          (cs.map Chunk.range).map fun range => (fileId, range) := by
      have hrows := Table.map_snd_numbered (s.chunks.last + 1) cs
      rw [Table.numbered_map, List.map_map, List.map_map]
      conv_rhs => rw [← hrows, List.map_map]
      rfl
    rw [List.map_append, hnew, List.nodup_append]
    refine ⟨h.ranges, hcs.map fun a b hab => (Prod.mk.inj hab).2, ?_⟩
    rintro a ha b hb rfl
    obtain ⟨r, hr, rfl⟩ := List.mem_map.1 ha
    obtain ⟨range, -, heq⟩ := List.mem_map.1 hb
    exact hnone r hr (Prod.mk.inj heq).1.symm
  · intro r hr
    rcases Table.mem_append.1 hr with hold | hnew
    · exact h.chunkFiles r hold
    · obtain ⟨c, hc, hrow⟩ := List.mem_map.1 (Table.mem_of_mem_numbered hnew)
      rw [← hrow]
      exact hfile (List.ne_nil_of_mem hc)
  · intro r hr
    rcases Table.mem_append.1 hr with hold | hnew
    · exact Table.has_append _ (h.callChunks r hold)
    · exact has_of_mem_flatMap CallRow.chunkId Chunk.calls CallRow.mk (fun _ _ => rfl) hnew
  · intro r hr
    rcases Table.mem_append.1 hr with hold | hnew
    · exact Table.has_append _ (h.typeChunks r hold)
    · exact has_of_mem_flatMap TypeRow.chunkId Chunk.typeRefs TypeRow.mk (fun _ _ => rfl) hnew

theorem continues_addChunks (s : Store) (fileId : Nat) (cs : List Chunk) :
    Continues s (s.addChunks fileId cs) :=
  { Continues.refl s with
    chunks := .append _ _
    calls := .append _ _
    typeRefs := .append _ _ }

/-! ## Imports -/

theorem Sound.dropImports {s : Store} (h : s.Sound) (fileId : Nat) :
    (s.dropImports fileId).Sound :=
  { h with
    imports := h.imports.erase (·.fileId == fileId)
    importFiles := fun r hr => h.importFiles r (Table.mem_erase.1 hr).1 }

theorem continues_dropImports (s : Store) (fileId : Nat) :
    Continues s (s.dropImports fileId) :=
  { Continues.refl s with imports := .erase s.imports (·.fileId == fileId) }

theorem Sound.addImports {s : Store} (h : s.Sound) {fileId : Nat} (is : List Import)
    (hfile : is ≠ [] → s.files.has fileId = true) : (s.addImports fileId is).Sound := by
  refine { h with imports := h.imports.append _, importFiles := ?_ }
  intro r hr
  rcases Table.mem_append.1 hr with hold | hnew
  · exact h.importFiles r hold
  · obtain ⟨i, hi, hrow⟩ := List.mem_map.1 (Table.mem_of_mem_numbered hnew)
    rw [← hrow]
    exact hfile (List.ne_nil_of_mem hi)

theorem continues_addImports (s : Store) (fileId : Nat) (is : List Import) :
    Continues s (s.addImports fileId is) :=
  { Continues.refl s with imports := .append _ _ }

/-! ## Whole writes -/

theorem replaceChunks_eq (s : Store) (fileId : Nat) (cs : List Chunk) :
    s.replaceChunks fileId cs =
      if cs ≠ [] ∧ s.files.has fileId = false then .error .unknownFile
      else .ok ((s.dropChunks fileId).addChunks fileId (firstOfRanges cs),
        (firstOfRanges cs).length) := by
  unfold replaceChunks
  cases cs <;> cases s.files.has fileId <;> simp

theorem replaceImports_eq (s : Store) (fileId : Nat) (is : List Import) :
    s.replaceImports fileId is =
      if is ≠ [] ∧ s.files.has fileId = false then .error .unknownFile
      else .ok ((s.dropImports fileId).addImports fileId is) := by
  unfold replaceImports
  cases is <;> cases s.files.has fileId <;> simp

theorem Sound.addFirst {s : Store} (h : s.Sound) {fileId : Nat} (cs : List Chunk)
    (hfile : cs ≠ [] → s.files.has fileId = true) :
    ((s.dropChunks fileId).addChunks fileId (firstOfRanges cs)).Sound := by
  apply (h.dropChunks fileId).addChunks
  · exact fun hne => hfile (firstOfRanges_ne_nil_iff.1 hne)
  · exact fun r hr => not_mem_dropChunks hr
  · exact nodup_firstOfRanges cs

theorem Sound.replaceChunks {s : Store} (h : s.Sound) {fileId : Nat} {cs : List Chunk}
    {r : Store × Nat} (hok : s.replaceChunks fileId cs = .ok r) :
    r.1.Sound ∧ Continues s r.1 := by
  rw [replaceChunks_eq] at hok
  split at hok
  · cases hok
  · rename_i hfile
    cases hok
    refine ⟨h.addFirst cs fun hne => ?_,
      (continues_dropChunks s fileId).trans (continues_addChunks _ _ _)⟩
    simpa [hne] using hfile

theorem Sound.replaceImports {s s' : Store} (h : s.Sound) {fileId : Nat} {is : List Import}
    (hok : s.replaceImports fileId is = .ok s') : s'.Sound ∧ Continues s s' := by
  rw [replaceImports_eq] at hok
  split at hok
  · cases hok
  · rename_i hfile
    cases hok
    have hhas : is ≠ [] → s.files.has fileId = true := by
      intro hne
      simpa [hne] using hfile
    exact ⟨(h.dropImports fileId).addImports is hhas,
      (continues_dropImports s fileId).trans (continues_addImports _ _ _)⟩

theorem writeIndex_store (s : Store) (now : Instant) (f : FileFacts) (cs : List Chunk)
    (is : List Import) :
    (s.writeIndex now f cs is).1 =
      (((((s.upsertFile now f).1.dropChunks (s.upsertFile now f).2).addChunks
        (s.upsertFile now f).2 (firstOfRanges cs)).dropImports
        (s.upsertFile now f).2).addImports (s.upsertFile now f).2 is) := rfl

theorem Sound.writeIndex {s : Store} (h : s.Sound) (now : Instant) (f : FileFacts)
    (cs : List Chunk) (is : List Import) :
    (s.writeIndex now f cs is).1.Sound ∧ Continues s (s.writeIndex now f cs is).1 := by
  have hfile := h.has_upserted now f
  rw [writeIndex_store]
  constructor
  · have hchunks := (h.upsertFile now f).addFirst cs fun _ => hfile
    exact (hchunks.dropImports _).addImports is fun _ => hfile
  · exact (((h.continues_upsertFile now f).trans (continues_dropChunks _ _)).trans
      (continues_addChunks _ _ _)).trans
      ((continues_dropImports _ _).trans (continues_addImports _ _ _))

theorem deleteFile_of_known {s : Store} {path : String} {id : Nat}
    (hid : s.fileId? path = some id) :
    s.deleteFile path =
      ({ (s.dropChunks id).dropImports id with
          files := s.files.erase (·.facts.path == path) }, true) := by
  unfold deleteFile
  rw [hid]
  rfl

theorem deleteFile_of_new {s : Store} {path : String} (hid : s.fileId? path = none) :
    s.deleteFile path = (s, false) := by
  unfold deleteFile
  rw [hid]

/-- Erasing the file of a path leaves every other id in place. -/
theorem Sound.has_eraseFile {s : Store} (h : s.Sound) {path : String} {id other : Nat}
    (hid : s.fileId? path = some id) (hother : s.files.has other = true) (hne : other ≠ id) :
    (s.files.erase (·.facts.path == path)).has other = true := by
  obtain ⟨r, hr, hpath⟩ := h.fileId?_eq_some_iff.1 hid
  obtain ⟨r', hr'⟩ := Table.has_iff.1 hother
  apply Table.has_erase hr'
  by_contra hsame
  have hpath' : r'.facts.path = path := by simpa using hsame
  exact hne (congrArg Prod.fst (h.file_unique hr' hr (hpath'.trans hpath.symm)))

theorem Sound.deleteFile {s : Store} (h : s.Sound) (path : String) :
    (s.deleteFile path).1.Sound ∧ Continues s (s.deleteFile path).1 := by
  cases hid : s.fileId? path with
  | none =>
      rw [deleteFile_of_new hid]
      exact ⟨h, .refl s⟩
  | some id =>
      rw [deleteFile_of_known hid]
      have hdropped := (h.dropChunks id).dropImports id
      constructor
      · refine { hdropped with
          files := h.files.erase (·.facts.path == path)
          paths := (List.filter_sublist.map _).nodup h.paths
          chunkFiles := ?_, importFiles := ?_ }
        · intro r hr
          exact h.has_eraseFile hid (hdropped.chunkFiles r hr) (not_mem_dropChunks hr)
        · intro r hr
          refine h.has_eraseFile hid (hdropped.importFiles r hr) ?_
          simpa using (Table.mem_erase.1 hr).2
      · have hcontinues := (continues_dropChunks s id).trans (continues_dropImports _ id)
        exact { hcontinues with files := .erase s.files (·.facts.path == path) }

theorem clear_rows {α : Type} (t : Table α) : (t.erase fun _ => true).rows = [] := by
  simp [Table.erase]

theorem Sound.clear {s : Store} (h : s.Sound) : s.clear.Sound ∧ Continues s s.clear := by
  constructor
  · constructor
    · exact h.files.erase fun _ => true
    · exact h.chunks.erase fun _ => true
    · exact h.indexed.eraseRows h.chunks fun _ => true
    · exact h.imports.erase fun _ => true
    · exact h.calls.erase fun _ => true
    · exact h.typeRefs.erase fun _ => true
    all_goals simp [Store.clear, Store.eraseRows, clear_rows]
  · exact ⟨.erase s.files fun _ => true, .erase s.chunks fun _ => true,
      .erase s.imports fun _ => true, .erase s.calls fun _ => true,
      .erase s.typeRefs fun _ => true⟩

end CodeIndex.Store

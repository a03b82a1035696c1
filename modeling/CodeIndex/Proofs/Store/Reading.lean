import CodeIndex.Proofs.Store.Order
import CodeIndex.Proofs.Store.Soundness
import CodeIndex.Store.Relations
/-!
# Reading what was written

What belongs to a file is found through its id. A write to one file leaves what belongs to the
others as it was, and what is written is read back as it was given.
-/

namespace CodeIndex.Store

/-- The chunks of a file with their ids. -/
def chunkRows (s : Store) (fileId : Nat) : List (Nat × ChunkRow) :=
  s.chunks.rows.filter (·.2.fileId == fileId)

/-- The imports of a file with their ids. -/
def importRows (s : Store) (fileId : Nat) : List (Nat × ImportRow) :=
  s.imports.rows.filter (·.2.fileId == fileId)

/-- The names that a chunk calls, as often as it calls them. -/
def callsOf (s : Store) (chunkId : Nat) : List String :=
  (s.calls.rows.filter (·.2.chunkId == chunkId)).map (·.2.callee)

/-- The types that a chunk refers to, as often as it refers to them. -/
def typesOf (s : Store) (chunkId : Nat) : List String :=
  (s.typeRefs.rows.filter (·.2.chunkId == chunkId)).map (·.2.name)

theorem mem_chunkRows {s : Store} {fileId : Nat} {r : Nat × ChunkRow} :
    r ∈ s.chunkRows fileId ↔ r ∈ s.chunks.rows ∧ r.2.fileId = fileId := by
  simp [chunkRows]

theorem mem_importRows {s : Store} {fileId : Nat} {r : Nat × ImportRow} :
    r ∈ s.importRows fileId ↔ r ∈ s.imports.rows ∧ r.2.fileId = fileId := by
  simp [importRows]

/-! ## Files by path -/

theorem Sound.file?_path {s : Store} (h : s.Sound) {path : String} {f : FileRecord}
    (hf : s.file? path = some f) : f.row.facts.path = path :=
  (h.file?_eq_some_iff.1 hf).2

/-- Files with different paths have different ids. -/
theorem Sound.file?_id_ne {s : Store} (h : s.Sound) {path other : String} {f g : FileRecord}
    (hf : s.file? path = some f) (hg : s.file? other = some g) (hne : path ≠ other) :
    f.id ≠ g.id := by
  intro hid
  obtain ⟨hrow, hpath⟩ := h.file?_eq_some_iff.1 hf
  obtain ⟨hrow', hpath'⟩ := h.file?_eq_some_iff.1 hg
  rw [hid] at hrow
  rw [← hpath, ← hpath', h.files.row_unique hrow hrow'] at hne
  exact hne rfl

theorem Sound.get?_file {s : Store} (h : s.Sound) {path : String} {f : FileRecord}
    (hf : s.file? path = some f) : s.files.get? f.id = some f.row :=
  h.files.get?_eq_some_iff.2 (h.file?_eq_some_iff.1 hf).1

/-! ## What belongs to a file -/

theorem Sound.chunksIn_eq {s : Store} (h : s.Sound) {path : String} {f : FileRecord}
    (hf : s.file? path = some f) :
    s.chunksIn path = (s.chunkRows f.id).map fun r => ⟨r.1, r.2, f.row⟩ := by
  unfold chunksIn chunkRecords
  rw [hf]
  change (s.chunkRows f.id).filterMap _ = _
  rw [← List.filterMap_eq_map]
  apply List.filterMap_congr
  intro r hr
  rw [(mem_chunkRows.1 hr).2, h.get?_file hf]
  rfl

theorem Sound.importsOf_eq {s : Store} (h : s.Sound) {path : String} {f : FileRecord}
    (hf : s.file? path = some f) :
    s.importsOf path =
      sortedBy (fun a b => signedWord a.row.fact.line < signedWord b.row.fact.line)
        ((s.importRows f.id).map fun r => ⟨r.1, r.2, f.row⟩) := by
  unfold importsOf importRecords
  rw [hf]
  dsimp only
  congr 1
  change (s.importRows f.id).filterMap _ = _
  rw [← List.filterMap_eq_map]
  apply List.filterMap_congr
  intro r hr
  rw [(mem_importRows.1 hr).2, h.get?_file hf]
  rfl

/-- What belongs to a file is the same in two stores. -/
structure SameFile (s s' : Store) (fileId : Nat) : Prop where
  chunks : s'.chunkRows fileId = s.chunkRows fileId
  imports : s'.importRows fileId = s.importRows fileId
  calls : ∀ r ∈ s.chunkRows fileId, s'.callsOf r.1 = s.callsOf r.1
  types : ∀ r ∈ s.chunkRows fileId, s'.typesOf r.1 = s.typesOf r.1

theorem SameFile.refl (s : Store) (fileId : Nat) : SameFile s s fileId :=
  ⟨rfl, rfl, fun _ _ => rfl, fun _ _ => rfl⟩

theorem SameFile.trans {s s' s'' : Store} {fileId : Nat} (h : SameFile s s' fileId)
    (h' : SameFile s' s'' fileId) : SameFile s s'' fileId where
  chunks := h'.chunks.trans h.chunks
  imports := h'.imports.trans h.imports
  calls r hr := (h'.calls r (h.chunks ▸ hr)).trans (h.calls r hr)
  types r hr := (h'.types r (h.chunks ▸ hr)).trans (h.types r hr)

theorem Sound.isKept_other {s : Store} (h : s.Sound) {fileId other : Nat}
    (hne : other ≠ fileId) {r : Nat × ChunkRow} (hr : r ∈ s.chunkRows other) :
    s.isKept fileId r.1 = true := by
  obtain ⟨hmem, hfile⟩ := mem_chunkRows.1 hr
  simp only [isKept, Bool.not_eq_true', List.contains_eq_mem, decide_eq_false_iff_not]
  intro hgone
  obtain ⟨c, hc, hcfile⟩ := Table.mem_idsOf.1 hgone
  rw [h.chunks.row_unique hc hmem, hfile] at hcfile
  exact hne (by simpa using hcfile)

/-- The names of a chunk stay when those of the chunks of another file are erased. -/
theorem Sound.filter_eraseNames {s : Store} (h : s.Sound) {γ : Type} (t : Table γ)
    (owner : γ → Nat) {fileId other : Nat} (hne : other ≠ fileId) {r : Nat × ChunkRow}
    (hr : r ∈ s.chunkRows other) :
    (t.erase fun x => !s.isKept fileId (owner x)).rows.filter (owner ·.2 == r.1) =
      t.rows.filter (owner ·.2 == r.1) := by
  apply t.filter_erase (fun x => !s.isKept fileId (owner x)) (owner · == r.1)
  intro x _ hid
  have heq : owner x.2 = r.1 := by simpa using hid
  simp [heq, h.isKept_other hne hr]

theorem Sound.sameFile_dropChunks {s : Store} (h : s.Sound) {fileId other : Nat}
    (hne : other ≠ fileId) : SameFile s (s.dropChunks fileId) other := by
  rw [dropChunks_eq]
  constructor
  · apply s.chunks.filter_erase (·.fileId == fileId) (·.fileId == other)
    intro r _ hfile
    have heq : r.2.fileId = other := by simpa using hfile
    simpa [heq] using hne
  · rfl
  · intro r hr
    apply congrArg (List.map fun c : Nat × CallRow => c.2.callee)
    exact h.filter_eraseNames s.calls CallRow.chunkId hne hr
  · intro r hr
    apply congrArg (List.map fun t : Nat × TypeRow => t.2.name)
    exact h.filter_eraseNames s.typeRefs TypeRow.chunkId hne hr

/-- Rows that numbered chunks give rise to are not those of a chunk with an earlier id. -/
theorem owner_ne_of_mem_flatMap {first : Nat} {cs : List Chunk} {γ : Type} (owner : γ → Nat)
    (names : Chunk → List String) (mk : Nat → String → γ)
    (howner : ∀ id name, owner (mk id name) = id) {id : Nat} (hid : id < first) {row : γ}
    (hrow : row ∈ (Table.numbered first cs).flatMap fun x => (names x.2).map (mk x.1)) :
    owner row ≠ id := by
  obtain ⟨x, hx, hname⟩ := List.mem_flatMap.1 hrow
  obtain ⟨name, -, rfl⟩ := List.mem_map.1 hname
  have hle := (Table.numbered_bounds hx).1
  rw [howner]
  omega

/-- The names of a chunk stay when those of numbered chunks with later ids are added. -/
theorem filter_appendNames {first : Nat} {cs : List Chunk} {γ : Type} (t : Table γ)
    (owner : γ → Nat) (names : Chunk → List String) (mk : Nat → String → γ)
    (howner : ∀ id name, owner (mk id name) = id) {id : Nat} (hid : id < first) :
    (t.append ((Table.numbered first cs).flatMap fun x =>
      (names x.2).map (mk x.1))).rows.filter (owner ·.2 == id) =
        t.rows.filter (owner ·.2 == id) := by
  apply t.filter_append_old _ (owner · == id)
  intro row hrow
  simpa using owner_ne_of_mem_flatMap owner names mk howner hid hrow

theorem Sound.sameFile_addChunks {s : Store} (h : s.Sound) {fileId other : Nat}
    (hne : other ≠ fileId) (cs : List Chunk) : SameFile s (s.addChunks fileId cs) other := by
  constructor
  · apply s.chunks.filter_append_old _ (·.fileId == other)
    intro row hrow
    obtain ⟨c, -, rfl⟩ := List.mem_map.1 hrow
    simpa [ChunkRow.ofChunk] using hne.symm
  · rfl
  · intro r hr
    have hle := (h.chunks.bounded r (mem_chunkRows.1 hr).1).2
    apply congrArg (List.map fun c : Nat × CallRow => c.2.callee)
    exact filter_appendNames s.calls CallRow.chunkId Chunk.calls CallRow.mk (fun _ _ => rfl)
      (Nat.lt_succ_of_le hle)
  · intro r hr
    have hle := (h.chunks.bounded r (mem_chunkRows.1 hr).1).2
    apply congrArg (List.map fun t : Nat × TypeRow => t.2.name)
    exact filter_appendNames s.typeRefs TypeRow.chunkId Chunk.typeRefs TypeRow.mk
      (fun _ _ => rfl) (Nat.lt_succ_of_le hle)

theorem sameFile_dropImports (s : Store) {fileId other : Nat} (hne : other ≠ fileId) :
    SameFile s (s.dropImports fileId) other := by
  refine { SameFile.refl s other with imports := ?_ }
  apply s.imports.filter_erase (·.fileId == fileId) (·.fileId == other)
  intro r _ hfile
  have heq : r.2.fileId = other := by simpa using hfile
  simpa [heq] using hne

theorem sameFile_addImports (s : Store) {fileId other : Nat} (hne : other ≠ fileId)
    (is : List Import) : SameFile s (s.addImports fileId is) other := by
  refine { SameFile.refl s other with imports := ?_ }
  apply s.imports.filter_append_old _ (·.fileId == other)
  intro row hrow
  obtain ⟨i, -, rfl⟩ := List.mem_map.1 hrow
  simpa using hne.symm

theorem sameFile_setFiles (s : Store) (t : Table FileRow) (other : Nat) :
    SameFile s { s with files := t } other :=
  ⟨rfl, rfl, fun _ _ => rfl, fun _ _ => rfl⟩

theorem sameFile_upsertFile (s : Store) (now : Instant) (f : FileFacts) (other : Nat) :
    SameFile s (s.upsertFile now f).1 other := by
  unfold upsertFile
  split <;> exact sameFile_setFiles s _ other

theorem sameFile_markAccessed (s : Store) (path : String) (at_ : Instant) (other : Nat) :
    SameFile s (s.markAccessed path at_).1 other := by
  unfold markAccessed
  split
  · exact sameFile_setFiles s _ other
  · exact .refl s other

theorem Sound.sameFile_deleteFile {s : Store} (h : s.Sound) {path : String} {other : Nat}
    (hne : ∀ f, s.file? path = some f → other ≠ f.id) :
    SameFile s (s.deleteFile path).1 other := by
  cases hf : s.file? path with
  | none =>
      rw [deleteFile_of_new (fileId?_of_none hf)]
      exact .refl s other
  | some f =>
      rw [deleteFile_of_known (fileId?_of_some hf)]
      exact ((h.sameFile_dropChunks (hne f hf)).trans
        (sameFile_dropImports _ (hne f hf))).trans (sameFile_setFiles _ _ other)

/-! ## What a write leaves alone -/

theorem Sound.sameFile_writeIndex {s : Store} (h : s.Sound) (now : Instant) (f : FileFacts)
    (cs : List Chunk) (is : List Import) {other : Nat}
    (hne : other ≠ (s.writeIndex now f cs is).2.1) :
    SameFile s (s.writeIndex now f cs is).1 other := by
  have hupserted := h.upsertFile now f
  have hdropped := hupserted.dropChunks (s.upsertFile now f).2
  rw [writeIndex_store]
  exact ((((sameFile_upsertFile s now f other).trans (hupserted.sameFile_dropChunks hne)).trans
    (hdropped.sameFile_addChunks hne _)).trans (sameFile_dropImports _ hne)).trans
    (sameFile_addImports _ hne is)

theorem Sound.file?_eq_of_iff {s s' : Store} (h : s.Sound) (h' : s'.Sound) {path : String}
    (hiff : ∀ id r, r.facts.path = path → ((id, r) ∈ s'.files.rows ↔ (id, r) ∈ s.files.rows)) :
    s'.file? path = s.file? path := by
  apply Option.ext
  intro f
  rw [h.file?_eq_some_iff, h'.file?_eq_some_iff]
  constructor
  · exact fun ⟨hr, hpath⟩ => ⟨(hiff f.id f.row hpath).1 hr, hpath⟩
  · exact fun ⟨hr, hpath⟩ => ⟨(hiff f.id f.row hpath).2 hr, hpath⟩

/-- A file that keeps its path is changed: the rows with other paths are the same. -/
theorem Sound.mem_update_other {s : Store} (h : s.Sound) {path : String} {known : Nat}
    (hid : s.fileId? path = some known) {g : FileRow → FileRow}
    (hg : ∀ r, (known, r) ∈ s.files.rows → (g r).facts.path = r.facts.path) {id : Nat}
    {r : FileRow} (hne : r.facts.path ≠ path) :
    (id, r) ∈ (s.files.update known g).rows ↔ (id, r) ∈ s.files.rows := by
  obtain ⟨f, hf, hpath⟩ := h.fileId?_eq_some_iff.1 hid
  rw [Table.mem_update]
  by_cases hknown : id = known
  · rw [hknown]
    constructor
    · rintro ⟨a, ha, hr⟩
      have hr' : r = g a := by simpa using hr
      rw [hr', hg a ha, h.files.row_unique ha hf] at hne
      exact absurd hpath hne
    · intro hr
      rw [h.files.row_unique hr hf] at hne
      exact absurd hpath hne
  · simp [hknown]

theorem Sound.file?_upsertFile_other {s : Store} (h : s.Sound) (now : Instant) (f : FileFacts)
    {path : String} (hne : path ≠ f.path) :
    (s.upsertFile now f).1.file? path = s.file? path := by
  apply h.file?_eq_of_iff (h.upsertFile now f)
  intro id r hpath
  cases hid : s.fileId? f.path with
  | none =>
      rw [upsertFile_of_new hid]
      dsimp only
      rw [Table.mem_append, or_iff_left]
      intro hnew
      have hr : r = ⟨f, now, none⟩ := by simpa using Table.mem_of_mem_numbered hnew
      rw [hr] at hpath
      exact hne hpath.symm
  | some known =>
      rw [upsertFile_of_known hid]
      exact h.mem_update_other hid (fun a ha => h.upsert_keeps_path hid ha) (hpath ▸ hne)

theorem Sound.file?_markAccessed_other {s : Store} (h : s.Sound) (at_ : Instant)
    {path other : String} (hne : other ≠ path) :
    (s.markAccessed path at_).1.file? other = s.file? other := by
  apply h.file?_eq_of_iff (h.markAccessed path at_)
  intro id r hpath
  cases hid : s.fileId? path with
  | none => rw [markAccessed_of_new hid]
  | some known =>
      rw [markAccessed_of_known hid]
      refine h.mem_update_other hid ?_ (hpath ▸ hne)
      exact fun _ _ => rfl

theorem Sound.file?_deleteFile_other {s : Store} (h : s.Sound) {path other : String}
    (hne : other ≠ path) : (s.deleteFile path).1.file? other = s.file? other := by
  apply h.file?_eq_of_iff (h.deleteFile path).1
  intro id r hpath
  cases hid : s.fileId? path with
  | none => rw [deleteFile_of_new hid]
  | some known =>
      rw [deleteFile_of_known hid]
      dsimp only
      rw [Table.mem_erase, and_iff_left]
      simpa [hpath] using hne

/-- What is read of a path is the same in two stores. -/
structure SameAt (s s' : Store) (path : String) : Prop where
  file : s'.file? path = s.file? path
  chunks : s'.chunksOf path = s.chunksOf path
  imports : s'.importsOf path = s.importsOf path
  calls : ∀ c ∈ s.chunksOf path, s'.callsOf c.id = s.callsOf c.id
  callees : ∀ c ∈ s.chunksOf path, s'.calleesOf c.id = s.calleesOf c.id
  types : ∀ c ∈ s.chunksOf path, s'.typesOf c.id = s.typesOf c.id

theorem SameAt.refl (s : Store) (path : String) : SameAt s s path :=
  ⟨rfl, rfl, rfl, fun _ _ => rfl, fun _ _ => rfl, fun _ _ => rfl⟩

theorem SameAt.trans {s s' s'' : Store} {path : String} (h : SameAt s s' path)
    (h' : SameAt s' s'' path) : SameAt s s'' path where
  file := h'.file.trans h.file
  chunks := h'.chunks.trans h.chunks
  imports := h'.imports.trans h.imports
  calls c hc := (h'.calls c (h.chunks ▸ hc)).trans (h.calls c hc)
  callees c hc := (h'.callees c (h.chunks ▸ hc)).trans (h.callees c hc)
  types c hc := (h'.types c (h.chunks ▸ hc)).trans (h.types c hc)

theorem Sound.sameAt {s s' : Store} (h : s.Sound) (h' : s'.Sound) {path : String}
    (hfile : s'.file? path = s.file? path)
    (hsame : ∀ f, s.file? path = some f → SameFile s s' f.id) : SameAt s s' path := by
  cases hf : s.file? path with
  | none =>
      have hf' : s'.file? path = none := hfile.trans hf
      have hnone : s.chunksOf path = [] := by simp [chunksOf, chunksIn, hf, sortedBy]
      refine ⟨hfile, ?_, ?_, ?_, ?_, ?_⟩
      · simp [chunksOf, chunksIn, hf, hf']
      · simp [importsOf, hf, hf']
      all_goals simp [hnone]
  | some f =>
      have hf' : s'.file? path = some f := hfile.trans hf
      have hrows := hsame f hf
      have hchunks : s'.chunksIn path = s.chunksIn path := by
        rw [h.chunksIn_eq hf, h'.chunksIn_eq hf', hrows.chunks]
      have hmem : ∀ c ∈ s.chunksOf path, ∃ r ∈ s.chunkRows f.id, r.1 = c.id := by
        intro c hc
        rw [chunksOf, mem_sortedBy, h.chunksIn_eq hf] at hc
        obtain ⟨r, hr, rfl⟩ := List.mem_map.1 hc
        exact ⟨r, hr, rfl⟩
      have hcalls : ∀ c ∈ s.chunksOf path, s'.callsOf c.id = s.callsOf c.id := by
        intro c hc
        obtain ⟨r, hr, hid⟩ := hmem c hc
        rw [← hid]
        exact hrows.calls r hr
      refine ⟨hfile, by rw [chunksOf, chunksOf, hchunks], ?_, hcalls, ?_, ?_⟩
      · rw [h.importsOf_eq hf, h'.importsOf_eq hf', hrows.imports]
      · exact fun c hc => congrArg Text.distinct (hcalls c hc)
      · intro c hc
        obtain ⟨r, hr, hid⟩ := hmem c hc
        rw [← hid]
        exact hrows.types r hr

theorem Sound.sameAt_deleteFile {s : Store} (h : s.Sound) {path other : String}
    (hne : other ≠ path) : SameAt s (s.deleteFile path).1 other := by
  apply h.sameAt (h.deleteFile path).1 (h.file?_deleteFile_other hne)
  intro f hf
  exact h.sameFile_deleteFile fun g hg => h.file?_id_ne hf hg hne

/-! ## What a write leaves behind -/

/-- The rows that numbered chunks give rise to are, for each of them, those of its names. -/
theorem filter_flatMap_numbered {γ : Type} (owner : γ → Nat) (names : Chunk → List String)
    (mk : Nat → String → γ) (howner : ∀ id name, owner (mk id name) = id) {first : Nat}
    {cs : List Chunk} {id : Nat} {c : Chunk} (hc : (id, c) ∈ Table.numbered first cs) :
    ((Table.numbered first cs).flatMap fun x => (names x.2).map (mk x.1)).filter
        (owner · == id) = (names c).map (mk id) := by
  have hall : ∀ d : Chunk, ((names d).map (mk id)).filter (owner · == id) =
      (names d).map (mk id) := by
    intro d
    rw [List.filter_eq_self]
    intro row hrow
    obtain ⟨name, -, rfl⟩ := List.mem_map.1 hrow
    simp [howner]
  have hnone : ∀ (other : Nat) (d : Chunk), other ≠ id →
      ((names d).map (mk other)).filter (owner · == id) = [] := by
    intro other d hne
    rw [List.filter_eq_nil_iff]
    intro row hrow
    obtain ⟨name, -, rfl⟩ := List.mem_map.1 hrow
    simpa [howner] using hne
  induction cs generalizing first with
  | nil => simp [Table.numbered] at hc
  | cons d cs ih =>
      simp only [Table.numbered, List.flatMap_cons, List.filter_append]
      rcases List.mem_cons.1 hc with heq | hrest
      · obtain ⟨rfl, rfl⟩ := Prod.mk.inj heq
        have hlater : ((Table.numbered (id + 1) cs).flatMap fun x =>
            (names x.2).map (mk x.1)).filter (owner · == id) = [] := by
          rw [List.filter_eq_nil_iff]
          intro row hrow
          simpa using owner_ne_of_mem_flatMap owner names mk howner (Nat.lt_succ_self id) hrow
        rw [hall, hlater, List.append_nil]
      · have hlt := (Table.numbered_bounds hrest).1
        rw [hnone first d (by omega), List.nil_append]
        exact ih hrest

section AddChunks

variable {s : Store} (h : s.Sound) (fileId : Nat) (cs : List Chunk)

theorem chunkRows_addChunks (hnone : ∀ r ∈ s.chunks.rows, r.2.fileId ≠ fileId) :
    (s.addChunks fileId cs).chunkRows fileId =
      Table.numbered (s.chunks.last + 1) (cs.map (ChunkRow.ofChunk fileId)) := by
  unfold chunkRows
  simp only [addChunks, insertRows]
  rw [s.chunks.filter_append_new _ (·.fileId == fileId) (by simpa using hnone),
    List.filter_eq_self]
  intro r hr
  obtain ⟨c, -, hrow⟩ := List.mem_map.1 (Table.mem_of_mem_numbered hr)
  simp [← hrow, ChunkRow.ofChunk]

include h

/-- Rows that belong to chunks belong to none of those still to be added. -/
theorem Sound.owner_ne_of_new {α : Type} {t : Table α} {owner : α → Nat}
    (howner : ∀ x ∈ t.rows, s.chunks.has (owner x.2) = true) {id : Nat}
    (hid : s.chunks.last < id) : ∀ x ∈ t.rows, (owner x.2 == id) = false := by
  intro x hx
  obtain ⟨c, hc⟩ := Table.has_iff.1 (howner x hx)
  have hle : owner x.2 ≤ s.chunks.last := (h.chunks.bounded _ hc).2
  simp only [beq_eq_false_iff_ne]
  omega

/-- The names of a new chunk are those that it was added with. -/
theorem Sound.names_of_new {γ : Type} {t : Table γ} (owner : γ → Nat) (name : γ → String)
    (names : Chunk → List String) (mk : Nat → String → γ)
    (howner : ∀ id n, owner (mk id n) = id) (hname : ∀ id n, name (mk id n) = n)
    (hrows : ∀ x ∈ t.rows, s.chunks.has (owner x.2) = true) {r : Nat × Chunk}
    (hr : r ∈ Table.numbered (s.chunks.last + 1) cs) :
    ((t.append ((Table.numbered (s.chunks.last + 1) cs).flatMap fun x =>
      (names x.2).map (mk x.1))).rows.filter (owner ·.2 == r.1)).map (fun x => name x.2) =
        names r.2 := by
  have hold := h.owner_ne_of_new hrows (Table.numbered_bounds hr).1
  have hnew := filter_flatMap_numbered owner names mk howner hr
  rw [t.map_filter_append_new _ (owner · == r.1) name hold, hnew, List.map_map]
  exact (List.map_congr_left fun n _ => hname r.1 n).trans (List.map_id _)

theorem Sound.callsOf_addChunks {r : Nat × Chunk}
    (hr : r ∈ Table.numbered (s.chunks.last + 1) cs) :
    (s.addChunks fileId cs).callsOf r.1 = r.2.calls :=
  h.names_of_new cs CallRow.chunkId CallRow.callee Chunk.calls CallRow.mk (fun _ _ => rfl)
    (fun _ _ => rfl) h.callChunks hr

theorem Sound.typesOf_addChunks {r : Nat × Chunk}
    (hr : r ∈ Table.numbered (s.chunks.last + 1) cs) :
    (s.addChunks fileId cs).typesOf r.1 = r.2.typeRefs :=
  h.names_of_new cs TypeRow.chunkId TypeRow.name Chunk.typeRefs TypeRow.mk (fun _ _ => rfl)
    (fun _ _ => rfl) h.typeChunks hr

end AddChunks

theorem last_dropChunks (s : Store) (fileId : Nat) :
    (s.dropChunks fileId).chunks.last = s.chunks.last := rfl

theorem importRows_addImports (s : Store) (fileId : Nat) (is : List Import)
    (hnone : ∀ r ∈ s.imports.rows, r.2.fileId ≠ fileId) :
    (s.addImports fileId is).importRows fileId =
      Table.numbered (s.imports.last + 1) (is.map (ImportRow.mk fileId)) := by
  unfold importRows
  simp only [addImports]
  rw [s.imports.filter_append_new _ (·.fileId == fileId) (by simpa using hnone),
    List.filter_eq_self]
  intro r hr
  obtain ⟨i, -, hrow⟩ := List.mem_map.1 (Table.mem_of_mem_numbered hr)
  simp [← hrow]

section WriteIndex

variable {s : Store} (h : s.Sound) (now : Instant) (f : FileFacts) (cs : List Chunk)
  (is : List Import)

include h

theorem Sound.file?_writeIndex :
    (s.writeIndex now f cs is).1.file? f.path =
      some ⟨(s.writeIndex now f cs is).2.1, f, now,
        (s.file? f.path).bind (·.row.lastAccessed)⟩ :=
  h.file?_upsertFile now f

theorem Sound.file?_writeIndex_other {path : String} (hne : path ≠ f.path) :
    (s.writeIndex now f cs is).1.file? path = s.file? path :=
  h.file?_upsertFile_other now f hne

/-- What belongs to a file with another path is left alone. -/
theorem Sound.sameFile_writeIndex_other {path : String} (hne : path ≠ f.path) {other : FileRecord}
    (hother : s.file? path = some other) :
    SameFile s (s.writeIndex now f cs is).1 other.id := by
  have hkept := (h.file?_writeIndex_other now f cs is hne).trans hother
  apply h.sameFile_writeIndex
  exact (h.writeIndex now f cs is).1.file?_id_ne hkept (h.file?_writeIndex now f cs is) hne

omit h in
theorem chunkRows_writeIndex :
    (s.writeIndex now f cs is).1.chunkRows (s.writeIndex now f cs is).2.1 =
      Table.numbered (s.chunks.last + 1)
        ((firstOfRanges cs).map (ChunkRow.ofChunk (s.writeIndex now f cs is).2.1)) := by
  have hnone : ∀ r ∈ ((s.upsertFile now f).1.dropChunks (s.upsertFile now f).2).chunks.rows,
      r.2.fileId ≠ (s.upsertFile now f).2 := fun _ hr => not_mem_dropChunks hr
  have hrows := chunkRows_addChunks (s.upsertFile now f).2 (firstOfRanges cs) hnone
  rw [last_dropChunks, chunks_upsertFile] at hrows
  exact hrows

theorem Sound.namesOf_writeIndex {r : Nat × Chunk}
    (hr : r ∈ Table.numbered (s.chunks.last + 1) (firstOfRanges cs)) :
    (s.writeIndex now f cs is).1.callsOf r.1 = r.2.calls ∧
      (s.writeIndex now f cs is).1.typesOf r.1 = r.2.typeRefs := by
  have hdropped := (h.upsertFile now f).dropChunks (s.upsertFile now f).2
  rw [← chunks_upsertFile s now f, ← last_dropChunks _ (s.upsertFile now f).2] at hr
  exact ⟨hdropped.callsOf_addChunks (s.upsertFile now f).2 _ hr,
    hdropped.typesOf_addChunks (s.upsertFile now f).2 _ hr⟩

omit h in
theorem importRows_writeIndex :
    (s.writeIndex now f cs is).1.importRows (s.writeIndex now f cs is).2.1 =
      Table.numbered (s.imports.last + 1)
        (is.map (ImportRow.mk (s.writeIndex now f cs is).2.1)) := by
  let chunked := ((s.upsertFile now f).1.dropChunks (s.upsertFile now f).2).addChunks
    (s.upsertFile now f).2 (firstOfRanges cs)
  have hnone : ∀ r ∈ (chunked.dropImports (s.upsertFile now f).2).imports.rows,
      r.2.fileId ≠ (s.upsertFile now f).2 := fun _ hr => by
    simpa using (Table.mem_erase.1 hr).2
  have hlast : (chunked.dropImports (s.upsertFile now f).2).imports.last = s.imports.last := by
    change (s.upsertFile now f).1.imports.last = s.imports.last
    rw [imports_upsertFile]
  have hrows := importRows_addImports _ (s.upsertFile now f).2 is hnone
  rw [hlast] at hrows
  exact hrows

end WriteIndex

end CodeIndex.Store

import CodeIndex.Proofs.Store.Soundness
import CodeIndex.Store.File
/-!
# Histories of a store

A write is carried out statement by statement, as one transaction: when a statement is refused,
what the earlier ones did is undone. Along every history of writes the store stays sound and no
id passes from one row to another.
-/

namespace CodeIndex.Store

/-! ## Transactions -/

/-- A statement changes a store, or is refused and changes nothing. -/
abbrev Statement := Store → Except StoreFault Store

/-- The statements one after the other, until one is refused. What the earlier ones did
stays done. -/
def execute (s : Store) : List Statement → Store × Option StoreFault
  | [] => (s, none)
  | st :: rest =>
    match st s with
    | .ok s' => execute s' rest
    | .error fault => (s, some fault)

/-- The statements as a whole: if one is refused, the store is as it was before them. -/
def transact (s : Store) (sts : List Statement) : Store × Option StoreFault :=
  match s.execute sts with
  | (s', none) => (s', none)
  | (_, some fault) => (s, some fault)

theorem execute_append (s : Store) (as bs : List Statement) :
    s.execute (as ++ bs) =
      match s.execute as with
      | (s', none) => s'.execute bs
      | (s', some fault) => (s', some fault) := by
  induction as generalizing s with
  | nil => rfl
  | cons st as ih =>
      simp only [List.cons_append, execute]
      cases st s with
      | ok s' => exact ih s'
      | error fault => rfl

/-- A statement that is never refused. -/
def always (f : Store → Store) : Statement := fun s => .ok (f s)

/-- Adds rows that belong to a file. The file has to exist. -/
def insertion (fileId : Nat) (add : Store → Store) : Statement := fun s =>
  if s.files.has fileId then .ok (add s) else .error .unknownFile

/-- Removes the chunks of a file and adds others, one by one, each with the names it calls
and refers to. -/
def chunkStatements (fileId : Nat) (cs : List Chunk) : List Statement :=
  always (·.dropChunks fileId) ::
    (firstOfRanges cs).map fun c => insertion fileId (·.addChunks fileId [c])

/-- Removes the imports of a file and adds others, one by one. -/
def importStatements (fileId : Nat) (is : List Import) : List Statement :=
  always (·.dropImports fileId) :: is.map fun i => insertion fileId (·.addImports fileId [i])

@[simp] theorem files_dropChunks (s : Store) (fileId : Nat) :
    (s.dropChunks fileId).files = s.files := rfl

@[simp] theorem files_addChunks (s : Store) (fileId : Nat) (cs : List Chunk) :
    (s.addChunks fileId cs).files = s.files := rfl

theorem addChunks_nil (s : Store) (fileId : Nat) : s.addChunks fileId [] = s := by
  simp [addChunks, insertRows, Table.append, Table.numbered]

theorem addChunks_cons (s : Store) (fileId : Nat) (c : Chunk) (cs : List Chunk) :
    s.addChunks fileId (c :: cs) = (s.addChunks fileId [c]).addChunks fileId cs := by
  simp only [addChunks, insertRows, Table.numbered, Table.append_append, List.map_cons,
    List.map_nil, List.flatMap_cons, List.flatMap_nil, List.append_nil, List.singleton_append,
    List.foldl_cons, List.foldl_nil]
  rfl

theorem addImports_nil (s : Store) (fileId : Nat) : s.addImports fileId [] = s := by
  simp [addImports, Table.append, Table.numbered]

theorem addImports_cons (s : Store) (fileId : Nat) (i : Import) (is : List Import) :
    s.addImports fileId (i :: is) = (s.addImports fileId [i]).addImports fileId is := by
  simp [addImports, Table.append_append]

section Insertions

variable {α : Type} {fileId : Nat} (add : Store → List α → Store)
  (hnil : ∀ s, add s [] = s)
  (hcons : ∀ s a as, add s (a :: as) = add (add s [a]) as)
  (hfiles : ∀ s as, (add s as).files = s.files)

include hnil hcons hfiles

/-- Rows added one by one are the rows added together; without their file, the first of them
is refused. -/
theorem execute_insertions (s : Store) (as : List α) :
    s.execute (as.map fun a => insertion fileId (add · [a])) =
      if as ≠ [] ∧ s.files.has fileId = false then (s, some .unknownFile)
      else (add s as, none) := by
  induction as generalizing s with
  | nil => simp [execute, hnil]
  | cons a as ih =>
      simp only [List.map_cons, execute, insertion]
      cases hhas : s.files.has fileId with
      | true =>
          simp only [if_true, Bool.true_eq_false, and_false, if_false]
          rw [ih (add s [a]), hfiles, hhas, ← hcons]
          simp
      | false => simp

theorem execute_replacement (drop : Store → Store) (hdrop : ∀ s, (drop s).files = s.files)
    (s : Store) (as : List α) :
    s.execute (always drop :: as.map fun a => insertion fileId (add · [a])) =
      if as ≠ [] ∧ s.files.has fileId = false then (drop s, some .unknownFile)
      else (add (drop s) as, none) := by
  simp only [execute, always]
  rw [execute_insertions add hnil hcons hfiles, hdrop]

end Insertions

theorem execute_chunkStatements (s : Store) (fileId : Nat) (cs : List Chunk) :
    s.execute (chunkStatements fileId cs) =
      if firstOfRanges cs ≠ [] ∧ s.files.has fileId = false then
        (s.dropChunks fileId, some .unknownFile)
      else ((s.dropChunks fileId).addChunks fileId (firstOfRanges cs), none) :=
  execute_replacement (fun s cs => s.addChunks fileId cs) (addChunks_nil · fileId)
    (addChunks_cons · fileId) (fun _ _ => rfl) (·.dropChunks fileId) (fun _ => rfl) s
    (firstOfRanges cs)

theorem execute_importStatements (s : Store) (fileId : Nat) (is : List Import) :
    s.execute (importStatements fileId is) =
      if is ≠ [] ∧ s.files.has fileId = false then
        (s.dropImports fileId, some .unknownFile)
      else ((s.dropImports fileId).addImports fileId is, none) :=
  execute_replacement (fun s is => s.addImports fileId is) (addImports_nil · fileId)
    (addImports_cons · fileId) (fun _ _ => rfl) (·.dropImports fileId) (fun _ => rfl) s is

/-! ## Operations -/

/-- A write to a store. An id of a file may be any number; no file has a negative one. -/
inductive Operation where
  | upsertFile (now : Instant) (f : FileFacts)
  | replaceChunks (fileId : Int) (cs : List Chunk)
  | replaceImports (fileId : Int) (is : List Import)
  | writeIndex (now : Instant) (f : FileFacts) (cs : List Chunk) (is : List Import)
  | deleteFile (path : String)
  | markAccessed (path : String) (at_ : Instant)
  | clear

/-- The store after an operation, and why the operation was refused, if it was. -/
def perform (s : Store) : Operation → Store × Option StoreFault
  | .upsertFile now f => ((s.upsertFile now f).1, none)
  | .replaceChunks fileId cs =>
    match s.replaceChunks fileId.toNat cs with
    | .ok (s', _) => (s', none)
    | .error fault => (s, some fault)
  | .replaceImports fileId is =>
    match s.replaceImports fileId.toNat is with
    | .ok s' => (s', none)
    | .error fault => (s, some fault)
  | .writeIndex now f cs is => ((s.writeIndex now f cs is).1, none)
  | .deleteFile path => ((s.deleteFile path).1, none)
  | .markAccessed path at_ => ((s.markAccessed path at_).1, none)
  | .clear => (s.clear, none)

/-- What an operation does to a store, statement by statement. -/
def statements (s : Store) : Operation → List Statement
  | .upsertFile now f => [always fun s => (s.upsertFile now f).1]
  | .replaceChunks fileId cs => chunkStatements fileId.toNat cs
  | .replaceImports fileId is => importStatements fileId.toNat is
  | .writeIndex now f cs is =>
    let id := (s.upsertFile now f).2
    (always fun s => (s.upsertFile now f).1) :: (chunkStatements id cs ++ importStatements id is)
  | .deleteFile path => [always fun s => (s.deleteFile path).1]
  | .markAccessed path at_ => [always fun s => (s.markAccessed path at_).1]
  | .clear => [always clear]

/-- The operation would add rows to a file that does not exist. -/
def lacksFile (s : Store) : Operation → Prop
  | .replaceChunks fileId cs => cs ≠ [] ∧ s.files.has fileId.toNat = false
  | .replaceImports fileId is => is ≠ [] ∧ s.files.has fileId.toNat = false
  | _ => False

/-- The store after some operations, refused ones included. -/
def run (s : Store) (ops : List Operation) : Store :=
  ops.foldl (fun s op => (s.perform op).1) s

/-- The store that some operations lead to from the beginning. -/
def history (ops : List Operation) : Store :=
  run {} ops

theorem run_append (s : Store) (ops more : List Operation) :
    s.run (ops ++ more) = (s.run ops).run more := by
  simp [run]

theorem history_append (ops more : List Operation) :
    history (ops ++ more) = (history ops).run more :=
  run_append {} ops more

theorem transact_of_fault {s : Store} {sts : List Statement} {fault : StoreFault}
    (hfault : (s.transact sts).2 = some fault) : (s.transact sts).1 = s := by
  unfold transact at hfault ⊢
  split
  · rename_i heq
    rw [heq] at hfault
    cases hfault
  · rfl

theorem Sound.transact_writeIndex {s : Store} (h : s.Sound) (now : Instant) (f : FileFacts)
    (cs : List Chunk) (is : List Import) :
    s.transact (s.statements (.writeIndex now f cs is)) =
      ((s.writeIndex now f cs is).1, none) := by
  have hfile := h.has_upserted now f
  have hchunks := execute_chunkStatements (s.upsertFile now f).1 (s.upsertFile now f).2 cs
  have himports := execute_importStatements
    (((s.upsertFile now f).1.dropChunks (s.upsertFile now f).2).addChunks
      (s.upsertFile now f).2 (firstOfRanges cs)) (s.upsertFile now f).2 is
  rw [if_neg (by simp [hfile])] at hchunks
  rw [if_neg (by simp [files_addChunks, files_dropChunks, hfile])] at himports
  unfold transact
  simp only [statements, execute, always]
  rw [execute_append, hchunks]
  dsimp only
  rw [himports, writeIndex_store]

theorem perform_replaceChunks (s : Store) (fileId : Int) (cs : List Chunk) :
    s.perform (.replaceChunks fileId cs) =
      if cs ≠ [] ∧ s.files.has fileId.toNat = false then (s, some .unknownFile)
      else ((s.dropChunks fileId.toNat).addChunks fileId.toNat (firstOfRanges cs), none) := by
  simp only [perform]
  rw [replaceChunks_eq]
  by_cases hfile : cs ≠ [] ∧ s.files.has fileId.toNat = false
  · rw [if_pos hfile, if_pos hfile]
  · rw [if_neg hfile, if_neg hfile]

theorem perform_replaceImports (s : Store) (fileId : Int) (is : List Import) :
    s.perform (.replaceImports fileId is) =
      if is ≠ [] ∧ s.files.has fileId.toNat = false then (s, some .unknownFile)
      else ((s.dropImports fileId.toNat).addImports fileId.toNat is, none) := by
  simp only [perform]
  rw [replaceImports_eq]
  by_cases hfile : is ≠ [] ∧ s.files.has fileId.toNat = false
  · rw [if_pos hfile, if_pos hfile]
  · rw [if_neg hfile, if_neg hfile]

/-- An operation is the transaction of its statements. -/
theorem Sound.perform_eq_transact {s : Store} (h : s.Sound) (op : Operation) :
    s.perform op = s.transact (s.statements op) := by
  cases op with
  | upsertFile now f => rfl
  | replaceChunks fileId cs =>
      simp only [transact, statements]
      rw [perform_replaceChunks, execute_chunkStatements]
      by_cases hfile : cs ≠ [] ∧ s.files.has fileId.toNat = false
      · rw [if_pos hfile, if_pos ⟨firstOfRanges_ne_nil_iff.2 hfile.1, hfile.2⟩]
      · rw [if_neg hfile]
        rw [if_neg fun hlacks => hfile ⟨firstOfRanges_ne_nil_iff.1 hlacks.1, hlacks.2⟩]
  | replaceImports fileId is =>
      simp only [transact, statements]
      rw [perform_replaceImports, execute_importStatements]
      by_cases hfile : is ≠ [] ∧ s.files.has fileId.toNat = false
      · rw [if_pos hfile, if_pos hfile]
      · rw [if_neg hfile, if_neg hfile]
  | writeIndex now f cs is => exact (h.transact_writeIndex now f cs is).symm
  | deleteFile path => rfl
  | markAccessed path at_ => rfl
  | clear => rfl

theorem refused_iff {p : Prop} [Decidable p] {s t : Store} {fault : StoreFault} :
    (if p then (s, some .unknownFile) else (t, none)).2 = some fault ↔
      fault = .unknownFile ∧ p := by
  split
  · next hp =>
    exact ⟨fun heq => ⟨(Option.some.inj heq).symm, hp⟩, fun heq => congrArg some heq.1.symm⟩
  · next hp => exact ⟨nofun, fun hlacks => absurd hlacks.2 hp⟩

/-- Only rows without a file are refused. -/
theorem perform_fault_iff {s : Store} {op : Operation} {fault : StoreFault} :
    (s.perform op).2 = some fault ↔ fault = .unknownFile ∧ s.lacksFile op := by
  cases op with
  | replaceChunks fileId cs =>
      rw [perform_replaceChunks, lacksFile]
      exact refused_iff
  | replaceImports fileId is =>
      rw [perform_replaceImports, lacksFile]
      exact refused_iff
  | _ => simp [perform, lacksFile]

theorem Sound.perform {s : Store} (h : s.Sound) (op : Operation) :
    (s.perform op).1.Sound ∧ Continues s (s.perform op).1 := by
  cases op with
  | upsertFile now f => exact ⟨h.upsertFile now f, h.continues_upsertFile now f⟩
  | replaceChunks fileId cs =>
      unfold Store.perform
      dsimp only
      split
      · rename_i hok
        exact h.replaceChunks hok
      · exact ⟨h, .refl s⟩
  | replaceImports fileId is =>
      unfold Store.perform
      dsimp only
      split
      · rename_i hok
        exact h.replaceImports hok
      · exact ⟨h, .refl s⟩
  | writeIndex now f cs is => exact h.writeIndex now f cs is
  | deleteFile path => exact h.deleteFile path
  | markAccessed path at_ => exact ⟨h.markAccessed path at_, continues_markAccessed s path at_⟩
  | clear => exact h.clear

theorem Sound.run {s : Store} (h : s.Sound) (ops : List Operation) :
    (s.run ops).Sound ∧ Continues s (s.run ops) := by
  induction ops generalizing s with
  | nil => exact ⟨h, .refl s⟩
  | cons op ops ih =>
      obtain ⟨hsound, hstep⟩ := h.perform op
      obtain ⟨hrest, hcontinues⟩ := ih hsound
      exact ⟨hrest, hstep.trans hcontinues⟩

theorem sound_history (ops : List Operation) : (history ops).Sound :=
  (sound_empty.run ops).1

/-- Whatever was written and removed before, the index holds the documents of the chunks. -/
theorem documents_history (ops : List Operation) :
    (history ops).documents = (history ops).chunks.rows.map documentOf :=
  (sound_history ops).indexed

theorem continues_history (ops more : List Operation) :
    Continues (history ops) (history (ops ++ more)) := by
  rw [history_append]
  exact ((sound_history ops).run more).2

/-! ## Ids -/

/-- An id that two stores have stands for one row in both, and in the store between them: no
id is given away after its row is gone. A file is known by its path. -/
structure Lasting (earlier between later : Store) : Prop where
  files : Table.Lasting (·.facts.path) earlier.files between.files later.files
  chunks : Table.Lasting id earlier.chunks between.chunks later.chunks
  imports : Table.Lasting id earlier.imports between.imports later.imports
  calls : Table.Lasting id earlier.calls between.calls later.calls
  typeRefs : Table.Lasting id earlier.typeRefs between.typeRefs later.typeRefs

theorem lasting_history (ops more rest : List Operation) :
    Lasting (history ops) (history (ops ++ more)) (history (ops ++ more ++ rest)) := by
  have hsound := sound_history ops
  have h := continues_history ops more
  have h' := continues_history (ops ++ more) rest
  exact ⟨h.files.lasting h'.files hsound.files, h.chunks.lasting h'.chunks hsound.chunks,
    h.imports.lasting h'.imports hsound.imports, h.calls.lasting h'.calls hsound.calls,
    h.typeRefs.lasting h'.typeRefs hsound.typeRefs⟩

/-- The chunks of a file that an operation leaves behind were written by it. -/
def Operation.writesChunks (after : Store) : Operation → Nat → Prop
  | .replaceChunks fileId _, id => id = fileId.toNat
  | .writeIndex _ f _ _, id => after.fileId? f.path = some id
  | _, _ => False

/-- The imports of a file that an operation leaves behind were written by it. -/
def Operation.writesImports (after : Store) : Operation → Nat → Prop
  | .replaceImports fileId _, id => id = fileId.toNat
  | .writeIndex _ f _ _, id => after.fileId? f.path = some id
  | _, _ => False

/-- What an operation writes anew stands under ids above all that were given before it, also
where the same rows stood there before. -/
structure Fresh (s : Store) (op : Operation) (s' : Store) : Prop where
  chunks : ∀ r ∈ s'.chunks.rows, op.writesChunks s' r.2.fileId → s.chunks.last < r.1
  imports : ∀ r ∈ s'.imports.rows, op.writesImports s' r.2.fileId → s.imports.last < r.1
  calls : ∀ r ∈ s'.calls.rows, s.chunks.last < r.2.chunkId → s.calls.last < r.1
  typeRefs : ∀ r ∈ s'.typeRefs.rows, s.chunks.last < r.2.chunkId → s.typeRefs.last < r.1

/-- A call row that the store before had belongs to a chunk that it had. -/
theorem lt_of_chunk_lt {α : Type} {t t' : Table α} {chunks : Table ChunkRow} {owner : α → Nat}
    (h : Table.Continues id t t') (hchunks : chunks.Ordered)
    (howner : ∀ r ∈ t.rows, chunks.has (owner r.2) = true) {r : Nat × α} (hr : r ∈ t'.rows)
    (hnew : chunks.last < owner r.2) : t.last < r.1 := by
  by_contra hold
  obtain ⟨a, ha, hsame⟩ := h.kept r hr (Nat.le_of_not_lt hold)
  obtain ⟨c, hc⟩ := Table.has_iff.1 (howner (r.1, a) ha)
  have hle : owner a ≤ chunks.last := (hchunks.bounded (owner a, c) hc).2
  have heq : a = r.2 := hsame
  rw [heq] at hle
  omega

theorem lt_of_mem_addFirst {s : Store} {fileId : Nat} {cs : List Chunk} {r : Nat × ChunkRow}
    (hr : r ∈ ((s.dropChunks fileId).addChunks fileId cs).chunks.rows)
    (hfile : r.2.fileId = fileId) : s.chunks.last < r.1 := by
  rcases Table.mem_append.1 hr with hold | hnew
  · exact absurd hfile (not_mem_dropChunks hold)
  · exact (Table.numbered_bounds hnew).1

theorem lt_of_mem_addImports {s : Store} {fileId : Nat} {is : List Import} {r : Nat × ImportRow}
    (hr : r ∈ ((s.dropImports fileId).addImports fileId is).imports.rows)
    (hfile : r.2.fileId = fileId) : s.imports.last < r.1 := by
  rcases Table.mem_append.1 hr with hold | hnew
  · have hkept := (Table.mem_erase.1 hold).2
    simp [hfile] at hkept
  · exact (Table.numbered_bounds hnew).1

theorem Sound.fileId?_writeIndex {s : Store} (h : s.Sound) (now : Instant) (f : FileFacts)
    (cs : List Chunk) (is : List Import) :
    (s.writeIndex now f cs is).1.fileId? f.path = some (s.writeIndex now f cs is).2.1 :=
  h.fileId?_upsertFile now f

theorem Sound.eq_of_fileId?_writeIndex {s : Store} (h : s.Sound) {now : Instant} {f : FileFacts}
    {cs : List Chunk} {is : List Import} {id : Nat}
    (hid : (s.writeIndex now f cs is).1.fileId? f.path = some id) :
    id = (s.upsertFile now f).2 :=
  Option.some.inj (hid.symm.trans (h.fileId?_writeIndex now f cs is))

theorem Sound.writesChunks_lt {s : Store} (h : s.Sound) {op : Operation}
    (hok : (s.perform op).2 = none) {r : Nat × ChunkRow} (hr : r ∈ (s.perform op).1.chunks.rows)
    (hwrites : op.writesChunks (s.perform op).1 r.2.fileId) : s.chunks.last < r.1 := by
  cases op with
  | replaceChunks fileId cs =>
      rw [perform_replaceChunks] at hok hr
      split at hok
      · cases hok
      · rename_i hfile
        rw [if_neg hfile] at hr
        exact lt_of_mem_addFirst hr hwrites
  | writeIndex now f cs is =>
      have hlt : (s.upsertFile now f).1.chunks.last < r.1 :=
        lt_of_mem_addFirst hr (h.eq_of_fileId?_writeIndex hwrites)
      rwa [chunks_upsertFile] at hlt
  | _ => exact hwrites.elim

theorem Sound.writesImports_lt {s : Store} (h : s.Sound) {op : Operation}
    (hok : (s.perform op).2 = none) {r : Nat × ImportRow}
    (hr : r ∈ (s.perform op).1.imports.rows)
    (hwrites : op.writesImports (s.perform op).1 r.2.fileId) : s.imports.last < r.1 := by
  cases op with
  | replaceImports fileId is =>
      rw [perform_replaceImports] at hok hr
      split at hok
      · cases hok
      · rename_i hfile
        rw [if_neg hfile] at hr
        exact lt_of_mem_addImports hr hwrites
  | writeIndex now f cs is =>
      have hlt : (s.upsertFile now f).1.imports.last < r.1 :=
        lt_of_mem_addImports hr (h.eq_of_fileId?_writeIndex hwrites)
      rwa [imports_upsertFile] at hlt
  | _ => exact hwrites.elim

theorem Sound.fresh {s : Store} (h : s.Sound) {op : Operation}
    (hok : (s.perform op).2 = none) : Fresh s op (s.perform op).1 where
  chunks _ hr hwrites := h.writesChunks_lt hok hr hwrites
  imports _ hr hwrites := h.writesImports_lt hok hr hwrites
  calls _ hr hnew := lt_of_chunk_lt (h.perform op).2.calls h.chunks h.callChunks hr hnew
  typeRefs _ hr hnew := lt_of_chunk_lt (h.perform op).2.typeRefs h.chunks h.typeChunks hr hnew

end CodeIndex.Store

namespace CodeIndex.Schema

/-! ## New stores -/

theorem mem_create {s : Schema} {names : List String} {version : Int} {name : String} :
    name ∈ (s.create names version).objects ↔ name ∈ s.objects ∨ name ∈ names := by
  simp only [create, List.mem_mergeSort, List.mem_append, List.mem_filter, Bool.not_eq_true',
    List.contains_eq_mem, decide_eq_false_iff_not]
  tauto

/-- The first schema is brought up to date in two steps, of which neither fails. -/
theorem upgrade_new :
    ∃ s, upgrade {} = (s, none) ∧ s.version = latest ∧ "files" ∈ s.objects := by
  have htables : addTables {} = create {} tables 1 := rfl
  have hchunks : "chunks" ∈ (addTables {}).objects := by
    rw [htables, mem_create]
    exact Or.inr (by decide)
  refine ⟨(addTables {}).create fullText 2, ?_, rfl, ?_⟩
  · have hversion : (addTables {}).version = 1 := rfl
    have hup : upgrade {} = (addTables {}).addFullText := rfl
    rw [hup]
    unfold addFullText
    rw [hversion]
    simp [hchunks]
  · rw [mem_create, htables, mem_create]
    exact Or.inl (Or.inr (by decide))

end CodeIndex.Schema

namespace CodeIndex.Store

/-- A file without tables is given those of the empty history. -/
theorem upgrade_new : StoreFile.upgrade ⟨0, none⟩ = .ok ⟨Schema.latest, some (history [])⟩ := by
  obtain ⟨s, hs, hversion, hfiles⟩ := Schema.upgrade_new
  have hschema : StoreFile.schema ⟨0, none⟩ = {} := rfl
  unfold StoreFile.upgrade
  rw [hschema, hs]
  simp [hversion, hfiles, history, run]

/-! ## Every history -/

/-- Along every history of writes, starting from a store just made: the store is sound; an id
stands for one row as long as it stands for any; what is written anew is given new ids; a write
is one transaction of its statements, refused only for want of its file, and then nothing has
changed. -/
theorem history_integrity (ops : List Operation) :
    StoreFile.upgrade ⟨0, none⟩ = .ok ⟨Schema.latest, some (history [])⟩ ∧
    (history ops).Sound ∧
    (∀ more rest, Lasting (history ops) (history (ops ++ more)) (history (ops ++ more ++ rest))) ∧
    ∀ op, (history ops).perform op = (history ops).transact ((history ops).statements op) ∧
      (((history ops).perform op).2 = none →
        Fresh (history ops) op ((history ops).perform op).1) ∧
      (∀ fault, ((history ops).perform op).2 = some fault ↔
        fault = .unknownFile ∧ (history ops).lacksFile op) ∧
      (((history ops).perform op).2 ≠ none → ((history ops).perform op).1 = history ops) := by
  have hsound := sound_history ops
  refine ⟨upgrade_new, hsound, lasting_history ops, fun op => ?_⟩
  have htransact := hsound.perform_eq_transact op
  refine ⟨htransact, hsound.fresh, fun fault => perform_fault_iff, fun hrefused => ?_⟩
  obtain ⟨fault, hfault⟩ := Option.ne_none_iff_exists'.1 hrefused
  rw [htransact] at hfault ⊢
  exact transact_of_fault hfault

end CodeIndex.Store

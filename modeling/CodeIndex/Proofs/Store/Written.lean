import CodeIndex.Proofs.Store.History
import CodeIndex.Proofs.Store.Reading
import Mathlib
/-!
# The index of a file, written and read back

A file is written with its chunks and imports and then read by its path. The chunks come back in
source order, of those with the same lines only the first; the imports come back by line, those
of one line in their order. Nothing else that is read of a store has changed.
-/

namespace CodeIndex.Store

/-! ## The first chunk of each range -/

/-- The chunk stands in the list with none of the same lines before it. -/
def FirstOfRange (cs : List Chunk) (c : Chunk) : Prop :=
  ∃ before after, cs = before ++ c :: after ∧ ∀ d ∈ before, d.range ≠ c.range

theorem firstOfRange_concat {cs : List Chunk} {x c : Chunk} :
    FirstOfRange (cs ++ [x]) c ↔
      FirstOfRange cs c ∨ c = x ∧ ∀ d ∈ cs, d.range ≠ x.range := by
  constructor
  · rintro ⟨before, after, heq, hbefore⟩
    induction after using List.reverseRecOn with
    | nil =>
        obtain ⟨rfl, hx⟩ := List.append_inj' heq rfl
        obtain rfl : x = c := by simpa using hx
        exact Or.inr ⟨rfl, hbefore⟩
    | append_singleton after y =>
        rw [← List.cons_append, ← List.append_assoc] at heq
        obtain ⟨rfl, -⟩ := List.append_inj' heq rfl
        exact Or.inl ⟨before, after, rfl, hbefore⟩
  · rintro (⟨before, after, rfl, hbefore⟩ | ⟨rfl, hnone⟩)
    · exact ⟨before, after ++ [x], by simp, hbefore⟩
    · exact ⟨cs, [], rfl, hnone⟩

theorem mem_map_range_firstOfRanges (cs : List Chunk) (range : Nat × Nat) :
    range ∈ (firstOfRanges cs).map Chunk.range ↔ range ∈ cs.map Chunk.range := by
  induction cs using List.reverseRecOn with
  | nil => rfl
  | append_singleton cs x ih =>
      rw [firstOfRanges_concat, List.map_append, List.mem_append, ← ih]
      split
      · rename_i hany
        obtain ⟨d, hd, hrange⟩ := List.any_eq_true.1 hany
        have hx : x.range ∈ (firstOfRanges cs).map Chunk.range :=
          List.mem_map.2 ⟨d, hd, by simpa using hrange⟩
        constructor
        · exact Or.inl
        · rintro (hold | hnew)
          · exact hold
          · obtain rfl : range = x.range := by simpa using hnew
            exact hx
      · rw [List.map_append, List.mem_append]

theorem any_firstOfRanges {cs : List Chunk} {range : Nat × Nat} :
    (firstOfRanges cs).any (·.range == range) = true ↔ ∃ d ∈ cs, d.range = range := by
  have hmem := mem_map_range_firstOfRanges cs range
  simpa only [List.any_eq_true, beq_iff_eq, List.mem_map] using hmem

theorem mem_firstOfRanges {cs : List Chunk} {c : Chunk} :
    c ∈ firstOfRanges cs ↔ FirstOfRange cs c := by
  induction cs using List.reverseRecOn with
  | nil =>
      simp [firstOfRanges, FirstOfRange]
  | append_singleton cs x ih =>
      rw [firstOfRanges_concat, firstOfRange_concat, ← ih]
      split
      · rename_i hany
        obtain ⟨d, hd, hrange⟩ := any_firstOfRanges.1 hany
        constructor
        · exact Or.inl
        · rintro (hold | ⟨-, hnone⟩)
          · exact hold
          · exact absurd hrange (hnone d hd)
      · rename_i hnew
        rw [any_firstOfRanges] at hnew
        simp only [not_exists, not_and] at hnew
        rw [List.mem_append, List.mem_singleton]
        constructor
        · rintro (hold | rfl)
          · exact Or.inl hold
          · exact Or.inr ⟨rfl, hnew⟩
        · rintro (hold | ⟨rfl, -⟩)
          · exact Or.inl hold
          · exact Or.inr rfl

theorem length_firstOfRanges (cs : List Chunk) :
    (firstOfRanges cs).length = (cs.map Chunk.range).toFinset.card := by
  have hset : (cs.map Chunk.range).toFinset = ((firstOfRanges cs).map Chunk.range).toFinset := by
    ext range
    rw [List.mem_toFinset, List.mem_toFinset, mem_map_range_firstOfRanges]
  rw [hset, List.toFinset_card_of_nodup (nodup_firstOfRanges cs), List.length_map]

/-! ## Source order -/

/-- Lines are numbered within the signed numbers of 64 bits. -/
def FitLines (cs : List Chunk) (is : List Import) : Prop :=
  (∀ c ∈ cs, c.startLine < 2 ^ 63 ∧ c.endLine < 2 ^ 63) ∧ ∀ i ∈ is, i.line < 2 ^ 63

theorem signedWord_of_lt {n : Nat} (h : n < 2 ^ 63) : signedWord n = n :=
  if_pos h

/-- The chunk starts before another, or with it and ends after it. -/
def InSourceOrder (a b : Chunk) : Prop :=
  a.startLine < b.startLine ∨ a.startLine = b.startLine ∧ b.endLine < a.endLine

theorem inSourceOrder_of_ranked {a b : Chunk} (ha : a.startLine < 2 ^ 63 ∧ a.endLine < 2 ^ 63)
    (hb : b.startLine < 2 ^ 63 ∧ b.endLine < 2 ^ 63) (hne : a.range ≠ b.range)
    (hrank : (decide (signedWord b.startLine < signedWord a.startLine) ||
      (signedWord b.startLine == signedWord a.startLine &&
        decide (signedWord a.endLine < signedWord b.endLine))) = false) :
    InSourceOrder a b := by
  rw [signedWord_of_lt ha.1, signedWord_of_lt ha.2, signedWord_of_lt hb.1,
    signedWord_of_lt hb.2] at hrank
  simp only [Bool.or_eq_false_iff, Bool.and_eq_false_iff, decide_eq_false_iff_not,
    beq_eq_false_iff_ne] at hrank
  have hends : a.startLine = b.startLine → a.endLine ≠ b.endLine := by
    intro hstart hend
    exact hne (Prod.ext hstart hend)
  unfold InSourceOrder
  omega

/-- The list is the other one sorted by a number, members with the same number kept in their
order. -/
structure StablySorted {α : Type} (key : α → Nat) (as sorted : List α) : Prop where
  ordered : sorted.Pairwise fun a b => key a ≤ key b
  stable : ∀ k, sorted.filter (key · == k) = as.filter (key · == k)

/-! ## What is read -/

/-- What is read of a store after a file was written with chunks and imports, and what the write
returned. -/
structure Written (s : Store) (now : Instant) (f : FileFacts) (cs : List Chunk)
    (is : List Import) (s' : Store) (id count : Nat) : Prop where
  file : s'.file? f.path = some ⟨id, f, now, (s.file? f.path).bind (·.row.lastAccessed)⟩
  keepsId : ∀ old, s.file? f.path = some old → id = old.id
  chunks : ∃ kept : List Chunk, kept.Pairwise InSourceOrder ∧
    (∀ c, c ∈ kept ↔ FirstOfRange cs c) ∧
    List.Forall₂ (fun (r : ChunkRecord) c => r.row = ChunkRow.ofChunk id c ∧
      some ⟨id, r.file⟩ = s'.file? f.path ∧ s'.calleesOf r.id = c.calls.eraseDups ∧
      s'.callsOf r.id = c.calls ∧ s'.typesOf r.id = c.typeRefs) (s'.chunksOf f.path) kept
  imports : StablySorted Import.line is ((s'.importsOf f.path).map (·.row.fact))
  importFiles : ∀ i ∈ s'.importsOf f.path, some ⟨i.row.fileId, i.file⟩ = s'.file? f.path
  count : count = (cs.map Chunk.range).toFinset.card
  others : ∀ path, path ≠ f.path → SameAt s s' path

theorem id_writeIndex {s : Store} {f : FileFacts} {old : FileRecord}
    (hold : s.file? f.path = some old) (now : Instant) (cs : List Chunk) (is : List Import) :
    (s.writeIndex now f cs is).2.1 = old.id := by
  change (s.upsertFile now f).2 = old.id
  rw [upsertFile_of_known (fileId?_of_some hold)]

section WriteIndex

variable {s : Store} (h : s.Sound) (now : Instant) (f : FileFacts) {cs : List Chunk}
  {is : List Import}

include h

theorem Sound.others_writeIndex (cs : List Chunk) (is : List Import) {path : String}
    (hne : path ≠ f.path) : SameAt s (s.writeIndex now f cs is).1 path := by
  apply h.sameAt (h.writeIndex now f cs is).1 (h.file?_writeIndex_other now f cs is hne)
  intro other hother
  exact h.sameFile_writeIndex_other now f cs is hne hother

theorem Sound.chunksIn_writeIndex (cs : List Chunk) (is : List Import) :
    (s.writeIndex now f cs is).1.chunksIn f.path =
      (Table.numbered (s.chunks.last + 1) (firstOfRanges cs)).map fun r =>
        ⟨r.1, ChunkRow.ofChunk (s.writeIndex now f cs is).2.1 r.2, f, now,
          (s.file? f.path).bind (·.row.lastAccessed)⟩ := by
  rw [(h.writeIndex now f cs is).1.chunksIn_eq (h.file?_writeIndex now f cs is),
    chunkRows_writeIndex, Table.numbered_map, List.map_map]
  rfl

/-- The kept chunks in source order, with the ids they are given. -/
def sortedKept (s : Store) (cs : List Chunk) : List (Nat × Chunk) :=
  sortedBy (fun a b => signedWord a.2.startLine < signedWord b.2.startLine
    || (signedWord a.2.startLine == signedWord b.2.startLine
      && signedWord b.2.endLine < signedWord a.2.endLine))
    (Table.numbered (s.chunks.last + 1) (firstOfRanges cs))

theorem Sound.chunksOf_writeIndex (cs : List Chunk) (is : List Import) :
    (s.writeIndex now f cs is).1.chunksOf f.path =
      (sortedKept s cs).map fun r =>
        ⟨r.1, ChunkRow.ofChunk (s.writeIndex now f cs is).2.1 r.2, f, now,
          (s.file? f.path).bind (·.row.lastAccessed)⟩ := by
  unfold chunksOf sortedKept
  rw [h.chunksIn_writeIndex, map_sortedBy]
  intro a b
  rfl

omit h

theorem sortedKept_perm :
    (sortedKept s cs).Perm (Table.numbered (s.chunks.last + 1) (firstOfRanges cs)) :=
  sortedBy_perm _ _

theorem mem_sortedKept {r : Nat × Chunk} :
    r ∈ sortedKept s cs ↔ r ∈ Table.numbered (s.chunks.last + 1) (firstOfRanges cs) :=
  sortedKept_perm.mem_iff

theorem mem_map_sortedKept {c : Chunk} : c ∈ (sortedKept s cs).map (·.2) ↔ FirstOfRange cs c := by
  rw [← mem_firstOfRanges]
  conv_rhs => rw [← Table.map_snd_numbered (s.chunks.last + 1) (firstOfRanges cs)]
  simp only [List.mem_map, mem_sortedKept]

theorem firstOfRange_mem {c : Chunk} (hc : FirstOfRange cs c) : c ∈ cs := by
  obtain ⟨before, after, rfl, -⟩ := hc
  simp

theorem pairwise_sortedKept (hlines : ∀ c ∈ cs, c.startLine < 2 ^ 63 ∧ c.endLine < 2 ^ 63) :
    ((sortedKept s cs).map (·.2)).Pairwise InSourceOrder := by
  have hranked := (ranked_span (fun r : Nat × Chunk => signedWord r.2.startLine)
    fun r => signedWord r.2.endLine).pairwise_sortedBy
      (Table.numbered (s.chunks.last + 1) (firstOfRanges cs))
  have hranges : ((sortedKept s cs).map fun r => r.2.range).Nodup := by
    rw [(sortedKept_perm.map fun r => r.2.range).nodup_iff]
    have hnodup := nodup_firstOfRanges cs
    rw [← Table.map_snd_numbered (s.chunks.last + 1) (firstOfRanges cs), List.map_map] at hnodup
    exact hnodup
  rw [List.pairwise_map]
  refine (hranked.and (List.pairwise_map.1 hranges)).imp_of_mem ?_
  intro a b ha hb hab
  have hfits : ∀ r ∈ sortedKept s cs, r.2.startLine < 2 ^ 63 ∧ r.2.endLine < 2 ^ 63 := by
    intro r hr
    exact hlines r.2 (firstOfRange_mem (mem_map_sortedKept.1 (List.mem_map_of_mem hr)))
  exact inSourceOrder_of_ranked (hfits a ha) (hfits b hb) hab.2 hab.1

include h

theorem Sound.chunks_writeIndex (hlines : FitLines cs is) :
    ∃ kept : List Chunk, kept.Pairwise InSourceOrder ∧ (∀ c, c ∈ kept ↔ FirstOfRange cs c) ∧
      List.Forall₂ (fun (r : ChunkRecord) c =>
        r.row = ChunkRow.ofChunk (s.writeIndex now f cs is).2.1 c ∧
        some ⟨(s.writeIndex now f cs is).2.1, r.file⟩ =
          (s.writeIndex now f cs is).1.file? f.path ∧
        (s.writeIndex now f cs is).1.calleesOf r.id = c.calls.eraseDups ∧
        (s.writeIndex now f cs is).1.callsOf r.id = c.calls ∧
        (s.writeIndex now f cs is).1.typesOf r.id = c.typeRefs)
        ((s.writeIndex now f cs is).1.chunksOf f.path) kept := by
  refine ⟨(sortedKept s cs).map (·.2), pairwise_sortedKept hlines.1,
    fun c => mem_map_sortedKept, ?_⟩
  rw [h.chunksOf_writeIndex, List.forall₂_map_left_iff, List.forall₂_map_right_iff,
    List.forall₂_same]
  intro r hr
  obtain ⟨hcalls, htypes⟩ := h.namesOf_writeIndex now f cs is (mem_sortedKept.1 hr)
  refine ⟨rfl, (h.file?_writeIndex now f cs is).symm, ?_, hcalls, htypes⟩
  change Text.distinct ((s.writeIndex now f cs is).1.callsOf r.1) = _
  rw [hcalls, Text.distinct_eq_eraseDups]

theorem Sound.importsOf_writeIndex (cs : List Chunk) (is : List Import) :
    ((s.writeIndex now f cs is).1.importsOf f.path).map (·.row.fact) =
      sortedBy (fun a b => signedWord a.line < signedWord b.line) is := by
  have hrows := Table.map_snd_numbered (s.imports.last + 1) is
  rw [(h.writeIndex now f cs is).1.importsOf_eq (h.file?_writeIndex now f cs is),
    importRows_writeIndex, Table.numbered_map, map_sortedBy]
  · rw [List.map_map, List.map_map]
    conv_rhs => rw [← hrows]
    rfl
  · intro a b
    rfl

theorem Sound.imports_writeIndex (hlines : FitLines cs is) :
    StablySorted Import.line is
      (((s.writeIndex now f cs is).1.importsOf f.path).map (·.row.fact)) := by
  have hranked := ranked_key fun i : Import => signedWord i.line
  rw [h.importsOf_writeIndex]
  constructor
  · refine (hranked.pairwise_sortedBy is).imp_of_mem ?_
    intro a b ha hb hab
    have ha' := hlines.2 a (mem_sortedBy.1 ha)
    have hb' := hlines.2 b (mem_sortedBy.1 hb)
    rw [signedWord_of_lt ha', signedWord_of_lt hb'] at hab
    simpa using hab
  · intro k
    apply hranked.filter_sortedBy
    intro a b ha hb
    have hlines : a.line = b.line := by
      rw [beq_iff_eq] at ha hb
      exact ha.trans hb.symm
    simp [hlines]

theorem Sound.importFiles_writeIndex (cs : List Chunk) (is : List Import) :
    ∀ i ∈ (s.writeIndex now f cs is).1.importsOf f.path,
      some ⟨i.row.fileId, i.file⟩ = (s.writeIndex now f cs is).1.file? f.path := by
  have hfile := h.file?_writeIndex now f cs is
  intro i hi
  rw [(h.writeIndex now f cs is).1.importsOf_eq hfile, mem_sortedBy] at hi
  obtain ⟨r, hr, rfl⟩ := List.mem_map.1 hi
  rw [hfile]
  dsimp only
  rw [(mem_importRows.1 hr).2]

/-- A file written with its chunks and imports is read back as it was given. -/
theorem Sound.written_writeIndex (hlines : FitLines cs is) :
    Written s now f cs is (s.writeIndex now f cs is).1 (s.writeIndex now f cs is).2.1
      (s.writeIndex now f cs is).2.2 where
  file := h.file?_writeIndex now f cs is
  keepsId _ hold := id_writeIndex hold now cs is
  chunks := h.chunks_writeIndex now f hlines
  imports := h.imports_writeIndex now f hlines
  importFiles := h.importFiles_writeIndex now f cs is
  count := length_firstOfRanges cs
  others _ hne := h.others_writeIndex now f cs is hne

end WriteIndex

/-- After any history, a file written with its chunks and imports is read back as it was given,
and nothing else has changed. -/
theorem read_after_write (ops : List Operation) (now : Instant) (f : FileFacts) (cs : List Chunk)
    (is : List Import) (hlines : FitLines cs is) :
    Written (history ops) now f cs is ((history ops).writeIndex now f cs is).1
      ((history ops).writeIndex now f cs is).2.1 ((history ops).writeIndex now f cs is).2.2 :=
  (sound_history ops).written_writeIndex now f hlines

/-- A file indexed again, with a chunk given twice. -/
theorem read_after_write_again :
    let f : FileFacts := ⟨"a.py", "h", ⟨0, 0⟩, "python", 2⟩
    let c : Chunk := ⟨.function, some "f", "def f():", none, 1, 2, "def f():", "f", ["g"], []⟩
    let ops : List Operation := [.upsertFile ⟨0, 0⟩ f, .markAccessed "a.py" ⟨1, 0⟩]
    let written := (history ops).writeIndex ⟨2, 0⟩ f [c, c] [⟨"os", "os", 1⟩]
    FitLines [c, c] [⟨"os", "os", 1⟩] ∧
      Written (history ops) ⟨2, 0⟩ f [c, c] [⟨"os", "os", 1⟩] written.1 written.2.1
        written.2.2 := by
  intro f c ops written
  have hlines : FitLines [c, c] [⟨"os", "os", 1⟩] := by
    constructor
    · simp [c]
    · simp
  exact ⟨hlines, read_after_write ops ⟨2, 0⟩ f [c, c] [⟨"os", "os", 1⟩] hlines⟩

end CodeIndex.Store

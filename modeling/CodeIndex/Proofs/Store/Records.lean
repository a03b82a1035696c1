import CodeIndex.Proofs.Store.Reading
import CodeIndex.Store.Search
import Mathlib.Algebra.Group.Nat.Defs
/-!
# Chunks that are read one by one

A stored chunk is read together with its file, and read once. What a search finds are therefore
stored chunks, none of them twice.
-/

namespace CodeIndex.Store

open FullText

variable {s : Store}

/-! ## Records -/

theorem Sound.get?_owner (h : s.Sound) {r : Nat × ChunkRow} (hr : r ∈ s.chunks.rows) :
    ∃ f, s.files.get? r.2.fileId = some f := by
  obtain ⟨f, hf⟩ := Table.has_iff.1 (h.chunkFiles r hr)
  exact ⟨f, h.files.get?_eq_some_iff.2 hf⟩

theorem mem_chunkRecords {p : Nat → ChunkRow → Bool} {c : ChunkRecord} :
    c ∈ s.chunkRecords p ↔ (c.id, c.row) ∈ s.chunks.rows ∧ p c.id c.row = true ∧
      s.files.get? c.row.fileId = some c.file := by
  unfold chunkRecords
  rw [List.mem_filterMap]
  constructor
  · rintro ⟨r, hr, hrecord⟩
    obtain ⟨hrow, hp⟩ := List.mem_filter.1 hr
    obtain ⟨f, hf, rfl⟩ := Option.map_eq_some_iff.1 hrecord
    exact ⟨hrow, hp, hf⟩
  · rintro ⟨hrow, hp, hf⟩
    refine ⟨(c.id, c.row), List.mem_filter.2 ⟨hrow, hp⟩, ?_⟩
    rw [hf]
    rfl

theorem Sound.rows_chunkRecords (h : s.Sound) (p : Nat → ChunkRow → Bool) :
    (s.chunkRecords p).map (fun c => (c.id, c.row)) =
      s.chunks.rows.filter fun r => p r.1 r.2 := by
  unfold chunkRecords
  rw [List.map_filterMap]
  have hsame : ∀ r ∈ s.chunks.rows.filter (fun r => p r.1 r.2),
      ((s.files.get? r.2.fileId).map fun f => (⟨r.1, r.2, f⟩ : ChunkRecord)).map
        (fun c => (c.id, c.row)) = some r := by
    intro r hr
    obtain ⟨f, hf⟩ := h.get?_owner (List.mem_filter.1 hr).1
    rw [hf]
    rfl
  rw [List.filterMap_congr hsame, List.filterMap_some]

/-- The records come in the order of their ids. -/
theorem Sound.ascending_chunkRecords (h : s.Sound) (p : Nat → ChunkRow → Bool) :
    (s.chunkRecords p).Pairwise fun a b => a.id < b.id := by
  have hrows : ((s.chunkRecords p).map fun c => (c.id, c.row)).Pairwise fun a b => a.1 < b.1 := by
    rw [h.rows_chunkRecords p]
    exact h.chunks.ascending.filter _
  rw [List.pairwise_map] at hrows
  exact hrows

theorem Sound.nodup_chunkRecords (h : s.Sound) (p : Nat → ChunkRow → Bool) :
    ((s.chunkRecords p).map (·.id)).Nodup :=
  List.pairwise_map.2 ((h.ascending_chunkRecords p).imp Nat.ne_of_lt)

theorem filter_chunkRecords (p q : Nat → ChunkRow → Bool) :
    (s.chunkRecords p).filter (fun c => q c.id c.row) =
      s.chunkRecords fun id row => p id row && q id row := by
  unfold chunkRecords
  induction s.chunks.rows with
  | nil => rfl
  | cons r rows ih =>
      cases hp : p r.1 r.2 with
      | false => simpa [hp] using ih
      | true => cases hq : q r.1 r.2 <;> cases hf : s.files.get? r.2.fileId <;> simpa [hp, hq, hf]

theorem Sound.chunk?_eq_some_iff (h : s.Sound) {id : Nat} {c : ChunkRecord} :
    s.chunk? id = some c ↔
      c.id = id ∧ (c.id, c.row) ∈ s.chunks.rows ∧ s.files.get? c.row.fileId = some c.file := by
  have hmem : c ∈ s.chunkRecords (fun i _ => i == id) ↔
      c.id = id ∧ (c.id, c.row) ∈ s.chunks.rows ∧
        s.files.get? c.row.fileId = some c.file := by
    rw [mem_chunkRecords, beq_iff_eq]
    tauto
  rw [← hmem]
  unfold chunk?
  constructor
  · exact List.mem_of_head?
  · intro hc
    obtain ⟨first, rest, hrecords⟩ := List.exists_cons_of_ne_nil (List.ne_nil_of_mem hc)
    have hnodup := h.nodup_chunkRecords fun i _ => i == id
    have hfirst : first ∈ s.chunkRecords fun i _ => i == id := by simp [hrecords]
    have hid : first.id = c.id := by
      have hone := (mem_chunkRecords.1 hfirst).2.1
      have hother := (mem_chunkRecords.1 hc).2.1
      rw [beq_iff_eq] at hone hother
      rw [hone, hother]
    rw [hrecords, List.head?_cons, List.inj_on_of_nodup_map hnodup hfirst hc hid]

theorem Sound.exists_chunk? (h : s.Sound) {r : Nat × ChunkRow} (hr : r ∈ s.chunks.rows) :
    ∃ f, s.chunk? r.1 = some ⟨r.1, r.2, f⟩ := by
  obtain ⟨f, hf⟩ := h.get?_owner hr
  exact ⟨f, h.chunk?_eq_some_iff.2 ⟨rfl, hr, hf⟩⟩

/-! ## Chunks by name -/

theorem mem_named {name : String} {c : ChunkRecord} :
    c ∈ s.named name ↔ (c.id, c.row) ∈ s.chunks.rows ∧ c.row.name = some name ∧
      s.files.get? c.row.fileId = some c.file := by
  unfold named byPlace
  rw [mem_sortedBy, mem_chunkRecords, beq_iff_eq]

theorem Sound.nodup_named (h : s.Sound) (name : String) :
    ((s.named name).map (·.id)).Nodup := by
  have hperm : (s.named name).Perm (s.chunkRecords fun _ c => c.name == some name) :=
    sortedBy_perm _ _
  exact (hperm.map _).nodup_iff.2 (h.nodup_chunkRecords _)

theorem Sound.chunk?_of_mem_named (h : s.Sound) {name : String} {c : ChunkRecord}
    (hc : c ∈ s.named name) : s.chunk? c.id = some c := by
  obtain ⟨hrow, -, hfile⟩ := mem_named.1 hc
  exact h.chunk?_eq_some_iff.2 ⟨rfl, hrow, hfile⟩

/-! ## Chunks by text -/

theorem limited_sublist {α : Type} (limit : Nat) (as : List α) : (limited limit as).Sublist as := by
  unfold limited
  split
  · exact List.Sublist.refl as
  · exact List.take_sublist limit as

/-- The keys of the chunks that have some word of the phrases, with their ranks, best first. -/
def ranking (s : Store) (query : String) : List (Nat × Float) :=
  search columnWeights s.documents ((terms query.toList).map words)

theorem ranking_perm (s : Store) (query : String) :
    ((s.ranking query).map (·.1)).Perm
      ((s.documents.filter fun d => ((terms query.toList).map words).any d.has).map (·.key)) := by
  unfold ranking search
  refine ((List.mergeSort_perm _ _).map _).trans ?_
  rw [List.map_map]
  simp only [List.any_map]
  exact List.Perm.refl _

theorem Sound.key_documents (h : s.Sound) :
    s.documents.map (·.key) = s.chunks.rows.map (·.1) := by
  rw [h.indexed, List.map_map]
  rfl

theorem Sound.nodup_ranking (h : s.Sound) (query : String) :
    ((s.ranking query).map (·.1)).Nodup := by
  rw [(s.ranking_perm query).nodup_iff]
  have hkeys : (s.documents.map (·.key)).Nodup := by
    rw [h.key_documents]
    exact h.chunks.nodup_ids
  exact hkeys.sublist (List.filter_sublist.map _)

theorem Sound.exists_of_mem_ranking (h : s.Sound) {query : String} {hit : Nat × Float}
    (hhit : hit ∈ s.ranking query) : ∃ c, s.chunk? hit.1 = some c ∧ c.id = hit.1 := by
  have hid : hit.1 ∈ s.chunks.rows.map (·.1) := by
    rw [← h.key_documents]
    have hfound := (s.ranking_perm query).mem_iff.1 (List.mem_map_of_mem hhit)
    exact (List.filter_sublist.map _).subset hfound
  obtain ⟨r, hr, hrow⟩ := List.mem_map.1 hid
  obtain ⟨f, hf⟩ := h.exists_chunk? hr
  rw [hrow] at hf
  exact ⟨_, hf, rfl⟩

/-- Every hit is read back under its own id. -/
theorem Sound.hits_searchText (h : s.Sound) (query : String) (limit : Nat) :
    (s.searchText query limit).map (fun hit => (hit.1.id, hit.2)) =
      limited limit (s.ranking query) := by
  change ((limited limit (s.ranking query)).filterMap fun hit =>
    (s.chunk? hit.1).map (·, hit.2)).map _ = _
  rw [List.map_filterMap]
  have hsame : ∀ hit ∈ limited limit (s.ranking query),
      ((s.chunk? hit.1).map fun c => (c, hit.2)).map (fun hit => (hit.1.id, hit.2)) =
        some hit := by
    intro hit hhit
    obtain ⟨c, hc, hid⟩ := h.exists_of_mem_ranking ((limited_sublist limit _).subset hhit)
    rw [hc]
    simp [hid]
  rw [List.filterMap_congr hsame, List.filterMap_some]

theorem Sound.chunk?_of_mem_searchText (h : s.Sound) {query : String} {limit : Nat}
    {hit : ChunkRecord × Float} (hhit : hit ∈ s.searchText query limit) :
    s.chunk? hit.1.id = some hit.1 := by
  obtain ⟨found, -, hread⟩ := List.mem_filterMap.1 hhit
  obtain ⟨c, hc, rfl⟩ := Option.map_eq_some_iff.1 hread
  rw [(h.chunk?_eq_some_iff.1 hc).1]
  exact hc

theorem Sound.nodup_searchText (h : s.Sound) (query : String) (limit : Nat) :
    ((s.searchText query limit).map (·.1.id)).Nodup := by
  have hids : (s.searchText query limit).map (·.1.id) =
      (limited limit (s.ranking query)).map (·.1) := by
    rw [← h.hits_searchText, List.map_map]
    rfl
  rw [hids]
  exact (h.nodup_ranking query).sublist ((limited_sublist limit _).map _)

end CodeIndex.Store

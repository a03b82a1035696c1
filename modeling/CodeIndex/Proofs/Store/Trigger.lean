import CodeIndex.Proofs.Store.Table
import CodeIndex.Store.Trigger
/-!
# The documents of chunks

The full-text index holds the document of each chunk and no others, in the order of their ids,
as long as it is written by its triggers.
-/

namespace CodeIndex.FullText

/-! ## Documents in the order of keys -/

theorem addDocument_between {d : Document Nat} {before after : List (Document Nat)}
    (hbefore : ∀ e ∈ before, e.key < d.key) (hafter : ∀ e ∈ after, d.key < e.key) :
    addDocument d (before ++ after) = before ++ d :: after := by
  induction before with
  | nil =>
      cases after with
      | nil => rfl
      | cons e after => exact if_neg (Nat.lt_asymm (hafter e List.mem_cons_self))
  | cons e before ih =>
      obtain ⟨hkey, hrest⟩ := List.forall_mem_cons.1 hbefore
      rw [List.cons_append, addDocument, if_pos hkey, ih hrest, List.cons_append]

theorem addDocument_last {d : Document Nat} {docs : List (Document Nat)}
    (h : ∀ e ∈ docs, e.key < d.key) : addDocument d docs = docs ++ [d] := by
  have hlast : addDocument d (docs ++ []) = docs ++ [d] :=
    addDocument_between h (List.forall_mem_nil _)
  rwa [List.append_nil] at hlast

/-- The only document of its key is taken from its place. -/
theorem dropDocument_between {d : Document Nat} {before after : List (Document Nat)}
    (hbefore : ∀ e ∈ before, e.key ≠ d.key) (hafter : ∀ e ∈ after, e.key ≠ d.key) :
    dropDocument d (before ++ d :: after) = before ++ after := by
  have hkept : ∀ docs : List (Document Nat), (∀ e ∈ docs, e.key ≠ d.key) →
      docs.filter (· != d) = docs := by
    intro docs hdocs
    rw [List.filter_eq_self]
    intro e he
    exact bne_iff_ne.2 fun heq => hdocs e he (congrArg Document.key heq)
  unfold dropDocument
  rw [List.filter_append, List.filter_cons_of_neg (by simp), hkept before hbefore,
    hkept after hafter]

end CodeIndex.FullText

namespace CodeIndex.Store

open FullText

/-- The index of a store holds the documents of its chunks. -/
def IsIndexed (s : Store) : Prop :=
  s.documents = s.chunks.rows.map documentOf

/-! ## Triggers row by row -/

theorem foldl_afterInsert {t : Table ChunkRow} (h : t.Ordered) (rows : List ChunkRow) :
    (Table.numbered (t.last + 1) rows).foldl afterInsert (t.rows.map documentOf) =
      (t.append rows).rows.map documentOf := by
  induction rows generalizing t with
  | nil => simp [Table.numbered, Table.append]
  | cons c rows ih =>
      have hstep : afterInsert (t.rows.map documentOf) (t.last + 1, c) =
          (t.append [c]).rows.map documentOf := by
        have hlower : ∀ d ∈ t.rows.map documentOf, d.key < t.last + 1 := by
          intro d hd
          obtain ⟨r, hr, rfl⟩ := List.mem_map.1 hd
          exact Nat.lt_succ_of_le (h.bounded r hr).2
        unfold afterInsert
        rw [addDocument_last hlower]
        simp [Table.append, Table.numbered]
      have hrest := ih (h.append [c])
      rw [Table.append_append] at hrest
      rw [Table.numbered, List.foldl_cons, hstep]
      exact hrest

/-- Documents are taken out in any number, each by its own words. -/
theorem foldl_afterDelete_eq (gone : List (Nat × ChunkRow)) (docs : List (Document Nat)) :
    gone.foldl afterDelete docs = docs.filter fun d => !(gone.map documentOf).contains d := by
  induction gone generalizing docs with
  | nil => simp
  | cons r gone ih =>
      rw [List.foldl_cons, ih]
      unfold afterDelete dropDocument
      rw [List.filter_filter]
      apply List.filter_congr
      intro d hd
      rw [List.map_cons, List.contains_cons, Bool.not_or, Bool.and_comm]
      rfl

theorem foldl_afterDelete {t : Table ChunkRow} (h : t.Ordered) (p : ChunkRow → Bool) :
    (t.rows.filter fun r => p r.2).foldl afterDelete (t.rows.map documentOf) =
      (t.erase p).rows.map documentOf := by
  rw [foldl_afterDelete_eq, List.filter_map]
  congr 1
  apply List.filter_congr
  intro r hr
  have hgone : ((t.rows.filter fun r => p r.2).map documentOf).contains (documentOf r) =
      p r.2 := by
    rw [Bool.eq_iff_iff, List.contains_iff_mem]
    constructor
    · intro hmem
      obtain ⟨other, hother, hsame⟩ := List.mem_map.1 hmem
      obtain ⟨hrow, hp⟩ := List.mem_filter.1 hother
      -- two rows with one document have one id
      have hid : other.1 = r.1 := congrArg Document.key hsame
      rwa [List.inj_on_of_nodup_map h.nodup_ids hrow hr hid] at hp
    · exact fun hp => List.mem_map_of_mem (List.mem_filter.2 ⟨hr, hp⟩)
  rw [Function.comp_apply, hgone]

/-- The changed document takes the place of the old one. -/
theorem afterUpdate_eq {t : Table ChunkRow} (h : t.Ordered) {id : Nat} {old : ChunkRow}
    (hold : (id, old) ∈ t.rows) (f : ChunkRow → ChunkRow) :
    afterUpdate (t.rows.map documentOf) (id, old) (id, f old) =
      (t.update id f).rows.map documentOf := by
  obtain ⟨before, after, hbefore, hafter, hrows, hupdated⟩ := h.rows_between hold
  have hlower : ∀ d ∈ before.map documentOf, d.key < id := List.forall_mem_map.2 hbefore
  have hhigher : ∀ d ∈ after.map documentOf, id < d.key := List.forall_mem_map.2 hafter
  unfold afterUpdate
  rw [hrows, hupdated, List.map_append, List.map_cons, List.map_append, List.map_cons,
    dropDocument_between (fun d hd => Nat.ne_of_lt (hlower d hd))
      (fun d hd => Nat.ne_of_gt (hhigher d hd))]
  exact addDocument_between hlower hhigher

/-! ## Statements -/

variable {s : Store}

theorem IsIndexed.insertRows (h : s.IsIndexed) (hordered : s.chunks.Ordered)
    (rows : List ChunkRow) : (s.insertRows rows).IsIndexed := by
  unfold IsIndexed Store.insertRows
  rw [h]
  exact foldl_afterInsert hordered rows

theorem IsIndexed.eraseRows (h : s.IsIndexed) (hordered : s.chunks.Ordered)
    (p : ChunkRow → Bool) : (s.eraseRows p).IsIndexed := by
  unfold IsIndexed Store.eraseRows
  rw [h]
  exact foldl_afterDelete hordered p

theorem IsIndexed.updateRow (h : s.IsIndexed) (hordered : s.chunks.Ordered) (id : Nat)
    (f : ChunkRow → ChunkRow) : (s.updateRow id f).IsIndexed := by
  unfold Store.updateRow
  split
  · rename_i old hold
    unfold IsIndexed
    rw [h]
    exact afterUpdate_eq hordered (hordered.get?_eq_some_iff.1 hold) f
  · exact h

end CodeIndex.Store

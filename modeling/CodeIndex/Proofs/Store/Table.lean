import CodeIndex.Store.Table
import Mathlib.Data.List.Nodup
/-!
# Ids of tables

The rows of an ordered table stand under ascending ids, none above the last id given. A table
that continues another gives no id of it to a different row. Rows are added, changed and removed
in ways that keep both.
-/

namespace CodeIndex.Table

variable {α β : Type}

/-! ## Numbered rows -/

theorem map_fst_numbered (first : Nat) (as : List α) :
    (numbered first as).map (·.1) = List.range' first as.length := by
  induction as generalizing first with
  | nil => rfl
  | cons a as ih =>
      simp only [numbered, List.map_cons, List.length_cons, List.range'_succ]
      rw [ih]

theorem map_snd_numbered (first : Nat) (as : List α) :
    (numbered first as).map (·.2) = as := by
  induction as generalizing first with
  | nil => rfl
  | cons a as ih =>
      simp only [numbered, List.map_cons]
      rw [ih]

theorem numbered_map (f : α → β) (first : Nat) (as : List α) :
    numbered first (as.map f) = (numbered first as).map fun r => (r.1, f r.2) := by
  induction as generalizing first with
  | nil => rfl
  | cons a as ih =>
      simp only [numbered, List.map_cons]
      rw [ih]

theorem numbered_append (first : Nat) (as bs : List α) :
    numbered first (as ++ bs) = numbered first as ++ numbered (first + as.length) bs := by
  induction as generalizing first with
  | nil => rfl
  | cons a as ih =>
      simp only [numbered, List.cons_append, List.length_cons]
      rw [ih, Nat.add_right_comm, Nat.add_assoc]

theorem numbered_bounds {first : Nat} {as : List α} {r : Nat × α}
    (hr : r ∈ numbered first as) : first ≤ r.1 ∧ r.1 < first + as.length := by
  have hid : r.1 ∈ (numbered first as).map (·.1) := List.mem_map_of_mem hr
  rw [map_fst_numbered] at hid
  simpa using hid

theorem mem_of_mem_numbered {first : Nat} {as : List α} {r : Nat × α}
    (hr : r ∈ numbered first as) : r.2 ∈ as := by
  have hrow : r.2 ∈ (numbered first as).map (·.2) := List.mem_map_of_mem hr
  rwa [map_snd_numbered] at hrow

theorem ascending_numbered (first : Nat) (as : List α) :
    (numbered first as).Pairwise fun a b => a.1 < b.1 := by
  have h : ((numbered first as).map (·.1)).Pairwise (· < ·) := by
    rw [map_fst_numbered]
    exact List.pairwise_lt_range'
  exact List.pairwise_map.1 h

/-! ## Rows after a change -/

theorem append_append (t : Table α) (as bs : List α) :
    (t.append as).append bs = t.append (as ++ bs) := by
  simp only [append, numbered_append, List.length_append, List.append_assoc, Nat.add_assoc]
  rw [Nat.add_comm as.length 1]

theorem mem_append {t : Table α} {as : List α} {r : Nat × α} :
    r ∈ (t.append as).rows ↔ r ∈ t.rows ∨ r ∈ numbered (t.last + 1) as := by
  simp [append]

theorem mem_erase {t : Table α} {p : α → Bool} {r : Nat × α} :
    r ∈ (t.erase p).rows ↔ r ∈ t.rows ∧ p r.2 = false := by
  simp [erase]

theorem mem_update {t : Table α} {id : Nat} {f : α → α} {r : Nat × α} :
    r ∈ (t.update id f).rows ↔
      ∃ a, (r.1, a) ∈ t.rows ∧ r.2 = if r.1 = id then f a else a := by
  obtain ⟨i, b⟩ := r
  simp only [update, List.mem_map]
  constructor
  · rintro ⟨⟨j, a⟩, hmem, heq⟩
    by_cases hj : j = id
    · simp only [hj, beq_self_eq_true, if_true, Prod.mk.injEq] at heq
      obtain ⟨rfl, rfl⟩ := heq
      exact ⟨a, by rwa [hj] at hmem, by simp⟩
    · simp only [beq_iff_eq, hj, if_false, Prod.mk.injEq] at heq
      obtain ⟨rfl, rfl⟩ := heq
      exact ⟨a, hmem, by simp [hj]⟩
  · rintro ⟨a, hmem, hb⟩
    refine ⟨(i, a), hmem, ?_⟩
    by_cases hi : i = id
    · simp only [hi, if_true] at hb
      simp [hi, hb]
    · simp only [hi, if_false] at hb
      simp [hi, hb]

theorem mem_update_self {t : Table α} {id : Nat} (f : α → α) {a : α} (hr : (id, a) ∈ t.rows) :
    (id, f a) ∈ (t.update id f).rows :=
  mem_update.2 ⟨a, hr, (if_pos rfl).symm⟩

theorem has_iff {t : Table α} {id : Nat} : t.has id = true ↔ ∃ a, (id, a) ∈ t.rows := by
  simp only [has, List.any_eq_true, beq_iff_eq]
  constructor
  · rintro ⟨⟨i, a⟩, hr, rfl⟩
    exact ⟨a, hr⟩
  · rintro ⟨a, hr⟩
    exact ⟨(id, a), hr, rfl⟩

theorem has_erase {t : Table α} {p : α → Bool} {id : Nat} {a : α} (hr : (id, a) ∈ t.rows)
    (hp : p a = false) : (t.erase p).has id = true :=
  has_iff.2 ⟨a, mem_erase.2 ⟨hr, hp⟩⟩

theorem mem_idsOf {t : Table α} {p : α → Bool} {id : Nat} :
    id ∈ t.idsOf p ↔ ∃ a, (id, a) ∈ t.rows ∧ p a = true := by
  simp [idsOf]

theorem map_update (t : Table α) (key : α → β) {id : Nat} {f : α → α}
    (hf : ∀ a, (id, a) ∈ t.rows → key (f a) = key a) :
    (t.update id f).rows.map (fun r => key r.2) = t.rows.map fun r => key r.2 := by
  simp only [update, List.map_map]
  apply List.map_congr_left
  intro r hr
  obtain ⟨i, a⟩ := r
  by_cases hi : i = id
  · simp only [Function.comp_apply, hi, beq_self_eq_true, if_true]
    exact hf a (hi ▸ hr)
  · simp [hi]

@[simp] theorem has_update (t : Table α) (id other : Nat) (f : α → α) :
    (t.update id f).has other = t.has other := by
  rw [Bool.eq_iff_iff, has_iff, has_iff]
  simp only [mem_update]
  constructor
  · rintro ⟨-, a, hr, -⟩
    exact ⟨a, hr⟩
  · rintro ⟨a, hr⟩
    exact ⟨if other = id then f a else a, a, hr, rfl⟩

@[simp] theorem has_skip (t : Table α) (id : Nat) : t.skip.has id = t.has id := rfl

theorem has_append {t : Table α} {id : Nat} (as : List α) (h : t.has id = true) :
    (t.append as).has id = true := by
  obtain ⟨a, hr⟩ := has_iff.1 h
  exact has_iff.2 ⟨a, mem_append.2 (Or.inl hr)⟩

/-! ## Rows of one owner -/

theorem filter_erase (t : Table α) (p q : α → Bool)
    (h : ∀ r ∈ t.rows, q r.2 = true → p r.2 = false) :
    (t.erase p).rows.filter (q ·.2) = t.rows.filter (q ·.2) := by
  simp only [erase, List.filter_filter]
  apply List.filter_congr
  intro r hr
  cases hq : q r.2 with
  | true => simp [h r hr hq]
  | false => simp

theorem filter_append_old (t : Table α) (as : List α) (q : α → Bool)
    (h : ∀ a ∈ as, q a = false) : (t.append as).rows.filter (q ·.2) = t.rows.filter (q ·.2) := by
  have hnew : (numbered (t.last + 1) as).filter (q ·.2) = [] := by
    rw [List.filter_eq_nil_iff]
    intro r hr
    simp [h r.2 (mem_of_mem_numbered hr)]
  simp only [append, List.filter_append]
  rw [hnew, List.append_nil]

theorem filter_append_new (t : Table α) (as : List α) (q : α → Bool)
    (h : ∀ r ∈ t.rows, q r.2 = false) :
    (t.append as).rows.filter (q ·.2) = (numbered (t.last + 1) as).filter (q ·.2) := by
  have hold : t.rows.filter (q ·.2) = [] := by
    rw [List.filter_eq_nil_iff]
    intro r hr
    simp [h r hr]
  simp only [append, List.filter_append]
  rw [hold, List.nil_append]

theorem map_filter_append_new (t : Table α) (as : List α) (q : α → Bool) (f : α → β)
    (h : ∀ r ∈ t.rows, q r.2 = false) :
    ((t.append as).rows.filter (q ·.2)).map (fun r => f r.2) = (as.filter q).map f := by
  have hrows := map_snd_numbered (t.last + 1) as
  rw [filter_append_new t as q h]
  conv_rhs => rw [← hrows, List.filter_map, List.map_map]
  rfl

/-! ## Ordered tables -/

/-- Ids ascend from one on, and none is above the last id given. -/
structure Ordered (t : Table α) : Prop where
  ascending : t.rows.Pairwise fun a b => a.1 < b.1
  bounded : ∀ r ∈ t.rows, 0 < r.1 ∧ r.1 ≤ t.last

theorem ordered_empty : ({} : Table α).Ordered :=
  ⟨List.Pairwise.nil, by simp⟩

namespace Ordered

variable {t : Table α}

theorem append (h : t.Ordered) (as : List α) : (t.append as).Ordered := by
  constructor
  · change (t.rows ++ numbered (t.last + 1) as).Pairwise fun a b => a.1 < b.1
    rw [List.pairwise_append]
    refine ⟨h.ascending, ascending_numbered _ _, ?_⟩
    intro a ha b hb
    have hle := (h.bounded a ha).2
    have hlt := (numbered_bounds hb).1
    omega
  · intro r hr
    change 0 < r.1 ∧ r.1 ≤ t.last + as.length
    rcases mem_append.1 hr with hold | hnew
    · have := h.bounded r hold
      omega
    · have := numbered_bounds hnew
      omega

theorem erase (h : t.Ordered) (p : α → Bool) : (t.erase p).Ordered := by
  constructor
  · exact h.ascending.filter _
  · intro r hr
    exact h.bounded r (mem_erase.1 hr).1

theorem update (h : t.Ordered) (id : Nat) (f : α → α) : (t.update id f).Ordered := by
  constructor
  · simp only [Table.update]
    rw [List.pairwise_map]
    refine h.ascending.imp ?_
    intro a b hab
    split <;> split <;> exact hab
  · intro r hr
    obtain ⟨a, hmem, -⟩ := mem_update.1 hr
    exact h.bounded (r.1, a) hmem

theorem skip (h : t.Ordered) : t.skip.Ordered := by
  refine ⟨h.ascending, fun r hr => ?_⟩
  have hb := h.bounded r hr
  exact ⟨hb.1, Nat.le_succ_of_le hb.2⟩

theorem nodup_ids (h : t.Ordered) : (t.rows.map (·.1)).Nodup := by
  have hasc : (t.rows.map (·.1)).Pairwise (· < ·) := List.pairwise_map.2 h.ascending
  exact hasc.imp fun hlt => Nat.ne_of_lt hlt

theorem row_unique (h : t.Ordered) {id : Nat} {a b : α} (ha : (id, a) ∈ t.rows)
    (hb : (id, b) ∈ t.rows) : a = b := by
  have heq := List.inj_on_of_nodup_map h.nodup_ids ha hb rfl
  exact (Prod.mk.inj heq).2

/-- A row stands between those of lower and those of higher ids, also when it is changed. -/
theorem rows_between (h : t.Ordered) {id : Nat} {a : α} (hr : (id, a) ∈ t.rows) :
    ∃ before after, (∀ r ∈ before, r.1 < id) ∧ (∀ r ∈ after, id < r.1) ∧
      t.rows = before ++ (id, a) :: after ∧
      ∀ f, (t.update id f).rows = before ++ (id, f a) :: after := by
  obtain ⟨before, after, hrows⟩ := List.append_of_mem hr
  have hascending := h.ascending
  rw [hrows, List.pairwise_append, List.pairwise_cons] at hascending
  obtain ⟨-, ⟨hafter, -⟩, hbefore⟩ := hascending
  have hlower : ∀ r ∈ before, r.1 < id := fun r hr => hbefore r hr _ List.mem_cons_self
  refine ⟨before, after, hlower, hafter, hrows, fun f => ?_⟩
  have hsame : ∀ rows : List (Nat × α), (∀ r ∈ rows, r.1 ≠ id) →
      (rows.map fun r => if r.1 == id then (r.1, f r.2) else r) = rows := by
    intro rows hne
    conv_rhs => rw [← List.map_id rows]
    exact List.map_congr_left fun r hr => if_neg (by simpa using hne r hr)
  change t.rows.map _ = _
  rw [hrows, List.map_append, List.map_cons, hsame before fun r hr => Nat.ne_of_lt (hlower r hr),
    hsame after fun r hr => Nat.ne_of_gt (hafter r hr), if_pos (beq_self_eq_true id)]

theorem get?_eq_some_iff (h : t.Ordered) {id : Nat} {a : α} :
    t.get? id = some a ↔ (id, a) ∈ t.rows := by
  unfold get?
  constructor
  · intro hget
    obtain ⟨⟨i, b⟩, hfind, rfl⟩ := Option.map_eq_some_iff.1 hget
    have hi : i = id := by simpa using List.find?_some hfind
    rw [← hi]
    exact List.mem_of_find?_eq_some hfind
  · intro hr
    cases hfind : t.rows.find? (·.1 == id) with
    | none =>
        have hne := List.find?_eq_none.1 hfind (id, a) hr
        simp at hne
    | some r =>
        obtain ⟨i, b⟩ := r
        have hi : i = id := by simpa using List.find?_some hfind
        subst hi
        have hb := List.mem_of_find?_eq_some hfind
        rw [h.row_unique hb hr]
        rfl

end Ordered

/-! ## Tables that continue others -/

/-- An id given to a row of the earlier table is held by no other row of the later one.
Rows with the same key are the same row, at different times. -/
structure Continues (key : α → β) (t t' : Table α) : Prop where
  last_le : t.last ≤ t'.last
  kept : ∀ r ∈ t'.rows, r.1 ≤ t.last → ∃ a, (r.1, a) ∈ t.rows ∧ key a = key r.2

namespace Continues

variable {key : α → β} {t t' t'' : Table α}

theorem refl (t : Table α) : Continues key t t :=
  ⟨Nat.le_refl _, fun r hr _ => ⟨r.2, hr, rfl⟩⟩

theorem trans (h : Continues key t t') (h' : Continues key t' t'') : Continues key t t'' := by
  refine ⟨Nat.le_trans h.last_le h'.last_le, fun r hr hle => ?_⟩
  obtain ⟨b, hb, hkey'⟩ := h'.kept r hr (Nat.le_trans hle h.last_le)
  obtain ⟨a, ha, hkey⟩ := h.kept (r.1, b) hb hle
  exact ⟨a, ha, hkey.trans hkey'⟩

theorem append (t : Table α) (as : List α) : Continues key t (t.append as) := by
  refine ⟨Nat.le_add_right _ _, fun r hr hle => ?_⟩
  rcases mem_append.1 hr with hold | hnew
  · exact ⟨r.2, hold, rfl⟩
  · have := (numbered_bounds hnew).1
    omega

theorem erase (t : Table α) (p : α → Bool) : Continues key t (t.erase p) :=
  ⟨Nat.le_refl _, fun r hr _ => ⟨r.2, (mem_erase.1 hr).1, rfl⟩⟩

theorem update {id : Nat} {f : α → α} (t : Table α)
    (hf : ∀ a, (id, a) ∈ t.rows → key (f a) = key a) : Continues key t (t.update id f) := by
  refine ⟨Nat.le_refl _, fun r hr _ => ?_⟩
  obtain ⟨a, hmem, hrow⟩ := mem_update.1 hr
  refine ⟨a, hmem, ?_⟩
  rw [hrow]
  split
  · rename_i hid
    exact (hf a (hid ▸ hmem)).symm
  · rfl

theorem skip (t : Table α) : Continues key t t.skip :=
  ⟨Nat.le_succ _, fun r hr _ => ⟨r.2, hr, rfl⟩⟩

end Continues

/-- An id that two tables have stands for one row in both, and in the table between them. -/
def Lasting (key : α → β) (earlier between later : Table α) : Prop :=
  ∀ id a b, (id, a) ∈ earlier.rows → (id, b) ∈ later.rows →
    key a = key b ∧ ∃ c, (id, c) ∈ between.rows ∧ key c = key a

theorem Continues.lasting {key : α → β} {earlier between later : Table α}
    (h : Continues key earlier between) (h' : Continues key between later)
    (hordered : earlier.Ordered) : Lasting key earlier between later := by
  intro id a b ha hb
  have hle : id ≤ earlier.last := (hordered.bounded (id, a) ha).2
  obtain ⟨c, hc, hkey'⟩ := h'.kept (id, b) hb (Nat.le_trans hle h.last_le)
  obtain ⟨a', ha', hkey⟩ := h.kept (id, c) hc hle
  have hsame := hordered.row_unique ha ha'
  rw [hsame]
  exact ⟨hkey.trans hkey', c, hc, hkey.symm⟩

end CodeIndex.Table

import CodeIndex.Proofs.Syntax.Places
import CodeIndex.Proofs.Syntax.Rows
/-!
# Nested ranges

The ranges of bytes of two nodes of a tree lie one inside the other or one after the other. The
rows that nodes own follow their bytes: the last row of a node is that of its last byte, also where
the node stops at the start of the next row. So rows are nested too, except that two nodes, one
after the other, may share a row.
-/

namespace CodeIndex.Syntax

/-! ## Rows of bytes -/

@[simp] theorem rowAt_zero (text : List Char) : rowAt text 0 = 0 := by
  cases text <;> rfl

@[simp] theorem columnFrom_zero (seen : Nat) (text : List Char) :
    columnFrom seen text 0 = seen := by
  cases text <;> rfl

theorem rowAt_cons_succ (c : Char) (cs : List Char) (i : Nat) :
    rowAt (c :: cs) (i + 1) = (if c == '\n' then 1 else 0) + rowAt cs (i + 1 - c.utf8Size) := by
  rw [rowAt, if_neg (by simp)]

/-- Within a character that is no newline the row does not change. -/
theorem rowAt_within {c : Char} (hc : c ≠ '\n') (cs : List Char) {i : Nat} (hi : i ≤ c.utf8Size) :
    rowAt (c :: cs) i = 0 := by
  cases i with
  | zero => exact rowAt_zero _
  | succ i => rw [rowAt_cons_succ, Nat.sub_eq_zero_of_le hi, rowAt_zero, if_neg (by simp [hc])]

theorem rowAt_mono (text : List Char) {i j : Nat} (hij : i ≤ j) : rowAt text i ≤ rowAt text j := by
  induction text generalizing i j with
  | nil => exact Nat.le_refl _
  | cons c cs ih =>
      cases i with
      | zero =>
          rw [rowAt_zero]
          exact Nat.zero_le _
      | succ i =>
          obtain ⟨k, rfl⟩ : ∃ k, j = k + 1 := ⟨j - 1, by omega⟩
          rw [rowAt_cons_succ, rowAt_cons_succ]
          exact Nat.add_le_add_left (ih (by omega)) _

/-- A byte of the text is a newline, and the next row starts after it, or the row goes on. -/
theorem row_after_byte (text : List Char) (seen : Nat) {i : Nat} (hi : i < byteLength text) :
    columnFrom seen text (i + 1) = 0 ∧ rowAt text (i + 1) = rowAt text i + 1 ∨
      columnFrom seen text (i + 1) ≠ 0 ∧ rowAt text (i + 1) = rowAt text i := by
  induction text generalizing seen i with
  | nil => cases hi
  | cons c cs ih =>
      have hsize := c.utf8Size_pos
      have hcolumn : columnFrom seen (c :: cs) (i + 1) =
          columnFrom (if c == '\n' then 0 else seen + c.utf8Size) cs (i + 1 - c.utf8Size) := by
        rw [columnFrom, if_neg (by simp)]
      rw [byteLength_cons] at hi
      rw [hcolumn]
      by_cases hfirst : i + 1 ≤ c.utf8Size
      · rw [Nat.sub_eq_zero_of_le hfirst, columnFrom_zero]
        by_cases hnewline : c = '\n'
        · -- a newline has no other byte
          subst hnewline
          have hone : '\n'.utf8Size = 1 := rfl
          obtain rfl : i = 0 := by omega
          exact Or.inl ⟨rfl, by rw [rowAt_cons_succ, hone, rowAt_zero, rowAt_zero]; rfl⟩
        · rw [rowAt_within hnewline cs hfirst, rowAt_within hnewline cs (Nat.le_of_succ_le hfirst),
            if_neg (by simp [hnewline])]
          exact Or.inr ⟨by omega, rfl⟩
      · obtain ⟨k, rfl⟩ : ∃ k, i = k + c.utf8Size := ⟨i - c.utf8Size, by omega⟩
        obtain ⟨j, hj⟩ : ∃ j, k + c.utf8Size = j + 1 := ⟨k + c.utf8Size - 1, by omega⟩
        have hbefore : rowAt (c :: cs) (k + c.utf8Size) =
            (if c == '\n' then 1 else 0) + rowAt cs k := by
          rw [hj, rowAt_cons_succ, ← hj, Nat.add_sub_cancel]
        have hrest : k + c.utf8Size + 1 - c.utf8Size = k + 1 := by omega
        rw [hbefore, rowAt_cons_succ, hrest]
        rcases ih (i := k) (if c == '\n' then 0 else seen + c.utf8Size) (by omega) with
          ⟨hzero, hrow⟩ | ⟨hpos, hrow⟩
        · exact Or.inl ⟨hzero, by omega⟩
        · exact Or.inr ⟨hpos, by omega⟩

/-! ## Trees with nested ranges -/

/-- The node covers some bytes of the text, and its children lie inside it, one after the other. -/
structure Node.LiesIn (source : List Char) (n : Node) : Prop where
  some : n.start < n.stop
  inside : n.stop ≤ byteLength source
  nested : ∀ c ∈ n.children, n.start ≤ c.start ∧ c.stop ≤ n.stop
  ordered : n.children.Pairwise fun a b => a.stop ≤ b.start

instance (source : List Char) (n : Node) : Decidable (n.LiesIn source) :=
  decidable_of_iff (n.start < n.stop ∧ n.stop ≤ byteLength source ∧
      (∀ c ∈ n.children, n.start ≤ c.start ∧ c.stop ≤ n.stop) ∧
      n.children.Pairwise fun a b => a.stop ≤ b.start)
    ⟨fun ⟨hsome, hinside, hnested, hordered⟩ => ⟨hsome, hinside, hnested, hordered⟩,
      fun ⟨hsome, hinside, hnested, hordered⟩ => ⟨hsome, hinside, hnested, hordered⟩⟩

/-- A node owns the rows of its bytes, from the first to the last one. -/
theorem Node.LiesIn.rows_eq {source : List Char} {n : Node} (h : n.LiesIn source) :
    n.rows source = (rowAt source n.start, rowAt source (n.stop - 1)) := by
  have hsome := h.some
  have hinside := h.inside
  obtain ⟨i, hi⟩ : ∃ i, n.stop = i + 1 := ⟨n.stop - 1, by omega⟩
  unfold rows startRow stopRow columnAt
  dsimp only
  rw [hi, Nat.add_sub_cancel]
  have hfirst : rowAt source n.start ≤ rowAt source i := rowAt_mono source (by omega)
  rcases row_after_byte source 0 (i := i) (by omega) with ⟨hzero, hrow⟩ | ⟨hpos, hrow⟩
  · rw [hzero, hrow, if_pos (by simp; omega), Nat.add_sub_cancel]
  · rw [hrow, if_neg (by simp [hpos])]

theorem ThroughoutAll.of_mem {P : Node → Prop} {ns : List Node} (h : ThroughoutAll P ns) {n : Node}
    (hn : n ∈ ns) : n.Throughout P := by
  induction ns with
  | nil => cases hn
  | cons m ns ih =>
      rcases List.mem_cons.1 hn with rfl | hn
      · exact h.1
      · exact ih h.2 hn

namespace Place

theorem IsUnder.throughout {P : Node → Prop} {top p : Place} (hp : IsUnder top p)
    (htop : top.node.Throughout P) : p.node.Throughout P := by
  induction hp with
  | here => exact htop
  | child _ hc ih => exact ih.below.of_mem (List.mem_of_getElem? hc)

section Nested

variable {source : List Char} {top p q : Place}

/-- The bytes of a node are among those of the nodes above it. -/
theorem IsUnder.inside (hp : IsUnder top p) (htop : top.node.Throughout (Node.LiesIn source)) :
    top.node.start ≤ p.node.start ∧ p.node.stop ≤ top.node.stop := by
  induction hp with
  | here => exact ⟨Nat.le_refl _, Nat.le_refl _⟩
  | child hq hc ih =>
      have hchild := (hq.throughout htop).here.nested _ (List.mem_of_getElem? hc)
      exact ⟨Nat.le_trans ih.1 hchild.1, Nat.le_trans hchild.2 ih.2⟩

/-- One place lies below the other, or the ranges of bytes of the two follow each other. -/
theorem IsUnder.nested_or_apart (hp : IsUnder top p) (hq : IsUnder top q)
    (htop : top.node.Throughout (Node.LiesIn source)) :
    IsUnder p q ∨ IsUnder q p ∨ p.node.stop ≤ q.node.start ∨ q.node.stop ≤ p.node.start := by
  induction hp with
  | here => exact Or.inl hq
  | @child p i c hp hc ih =>
      have hlies := (hp.throughout htop).here
      have hchild := hlies.nested c (List.mem_of_getElem? hc)
      rcases ih with hbelow | habove | hbefore | hafter
      · rcases isUnder_iff.1 hbelow with rfl | ⟨j, d, hd, hq'⟩
        · exact Or.inr (Or.inl (IsUnder.here.child hc))
        · have hinside := hq'.inside (((hp.child hd).throughout htop))
          have hordered := List.pairwise_iff_getElem.1 hlies.ordered
          obtain ⟨hi, rfl⟩ := List.getElem?_eq_some_iff.1 hc
          obtain ⟨hj, rfl⟩ := List.getElem?_eq_some_iff.1 hd
          rcases Nat.lt_trichotomy i j with hlt | rfl | hlt
          · exact Or.inr (Or.inr (Or.inl (Nat.le_trans (hordered i j hi hj hlt) hinside.1)))
          · exact Or.inl hq'
          · exact Or.inr (Or.inr (Or.inr (Nat.le_trans hinside.2 (hordered j i hj hi hlt))))
      · exact Or.inr (Or.inl (habove.child hc))
      · exact Or.inr (Or.inr (Or.inl (Nat.le_trans hchild.2 hbefore)))
      · exact Or.inr (Or.inr (Or.inr (Nat.le_trans hafter hchild.1)))

end Nested

end Place

/-! ## Nested rows -/

/-- The rows of a stretch, first and last, are rows of another one. -/
def RowsWithin (inner outer : Nat × Nat) : Prop :=
  outer.1 ≤ inner.1 ∧ inner.2 ≤ outer.2

/-- Two stretches have no two rows in common. -/
def ShareAtMostOneRow (a b : Nat × Nat) : Prop :=
  ∀ r s, a.1 ≤ r ∧ r ≤ a.2 → b.1 ≤ r ∧ r ≤ b.2 → a.1 ≤ s ∧ s ≤ a.2 → b.1 ≤ s ∧ s ≤ b.2 → r = s

theorem shareAtMostOneRow_of_le {a b : Nat × Nat} (h : a.2 ≤ b.1) : ShareAtMostOneRow a b := by
  intro r s hr hr' hs hs'
  omega

theorem ShareAtMostOneRow.symm {a b : Nat × Nat} (h : ShareAtMostOneRow a b) :
    ShareAtMostOneRow b a :=
  fun r s hr hr' hs hs' => h r s hr' hr hs' hs

section Rows

variable {source : List Char} {top p q : Place}

theorem Node.LiesIn.rows_within {n m : Node} (hn : n.LiesIn source) (hm : m.LiesIn source)
    (hstart : n.start ≤ m.start) (hstop : m.stop ≤ n.stop) :
    RowsWithin (m.rows source) (n.rows source) := by
  rw [hn.rows_eq, hm.rows_eq]
  exact ⟨rowAt_mono source hstart, rowAt_mono source (Nat.sub_le_sub_right hstop 1)⟩

theorem Node.LiesIn.rows_apart {n m : Node} (hn : n.LiesIn source) (hm : m.LiesIn source)
    (hbefore : n.stop ≤ m.start) : ShareAtMostOneRow (n.rows source) (m.rows source) := by
  rw [hn.rows_eq, hm.rows_eq]
  exact shareAtMostOneRow_of_le (rowAt_mono source (by omega))

theorem Place.IsUnder.rows_within (hp : IsUnder top p)
    (htop : top.node.Throughout (Node.LiesIn source)) :
    RowsWithin (p.node.rows source) (top.node.rows source) := by
  obtain ⟨hstart, hstop⟩ := hp.inside htop
  exact htop.here.rows_within (hp.throughout htop).here hstart hstop

/-- The rows of two nodes of a tree are nested, or the nodes share at most one row. -/
theorem Place.IsUnder.rows_nested_or_apart (hp : IsUnder top p) (hq : IsUnder top q)
    (htop : top.node.Throughout (Node.LiesIn source)) :
    RowsWithin (q.node.rows source) (p.node.rows source) ∨
      RowsWithin (p.node.rows source) (q.node.rows source) ∨
        ShareAtMostOneRow (p.node.rows source) (q.node.rows source) := by
  have hlies := (hp.throughout htop).here
  have hlies' := (hq.throughout htop).here
  rcases hp.nested_or_apart hq htop with hbelow | habove | hbefore | hafter
  · exact Or.inl (hbelow.rows_within (hp.throughout htop))
  · exact Or.inr (Or.inl (habove.rows_within (hq.throughout htop)))
  · exact Or.inr (Or.inr (hlies.rows_apart hlies' hbefore))
  · exact Or.inr (Or.inr (hlies'.rows_apart hlies hafter).symm)

end Rows

end CodeIndex.Syntax

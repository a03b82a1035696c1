import CodeIndex.Syntax.Capture
import Mathlib.Data.List.Nodup
/-!
# The places of a tree

The pre-order of a tree lists the root and what lies below it, each place once: no two places have
the same address. With a place the tree has those of all nodes above it, and what is captured in a
tree are places of it.
-/

namespace CodeIndex.Syntax

namespace Place

/-! ## Below a place -/

/-- The place is `top` or lies below it. -/
inductive IsUnder (top : Place) : Place → Prop
  | here : IsUnder top top
  | child {q : Place} {i : Nat} {c : Node} (hq : IsUnder top q)
      (hc : q.node.children[i]? = some c) : IsUnder top ⟨c, (q.node, i) :: q.above⟩

theorem IsUnder.trans {p q r : Place} (hq : IsUnder p q) (hr : IsUnder q r) : IsUnder p r := by
  induction hr with
  | here => exact hq
  | child _ hc ih => exact ih.child hc

/-- What lies below a place lies below one of its children. -/
theorem isUnder_iff {top p : Place} :
    IsUnder top p ↔ p = top ∨ ∃ i c, top.node.children[i]? = some c ∧
      IsUnder ⟨c, (top.node, i) :: top.above⟩ p := by
  constructor
  · intro h
    induction h with
    | here => exact Or.inl rfl
    | child _ hc ih =>
        rcases ih with rfl | ⟨i, d, hd, hq⟩
        · exact Or.inr ⟨_, _, hc, .here⟩
        · exact Or.inr ⟨i, d, hd, hq.child hc⟩
  · rintro (rfl | ⟨i, c, hc, h⟩)
    · exact .here
    · exact (IsUnder.here.child hc).trans h

theorem IsUnder.address_suffix {top p : Place} (h : IsUnder top p) :
    top.address <:+ p.address := by
  induction h with
  | here => exact List.suffix_refl _
  | child _ _ ih => exact ih.trans (List.suffix_cons _ _)

theorem IsUnder.above_ne_nil {top p : Place} (h : IsUnder top p) (htop : top.above ≠ []) :
    p.above ≠ [] := by
  cases h with
  | here => exact htop
  | child _ _ => exact List.cons_ne_nil _ _

/-- Below the root is what lies below one of its children. -/
theorem IsUnder.above_ne_nil_iff {n : Node} {p : Place} (h : IsUnder (root n) p) :
    p.above ≠ [] ↔ ∃ i c, n.children[i]? = some c ∧ IsUnder ⟨c, [(n, i)]⟩ p := by
  constructor
  · intro hp
    rcases isUnder_iff.1 h with rfl | hbelow
    · exact absurd rfl hp
    · exact hbelow
  · rintro ⟨i, c, -, hbelow⟩
    exact hbelow.above_ne_nil (List.cons_ne_nil _ _)

/-! ## Pre-order -/

mutual

theorem mem_placesBelow_iff {above : List (Node × Nat)} {n : Node} {p : Place} :
    p ∈ n.placesBelow above ↔ IsUnder ⟨n, above⟩ p := by
  cases n with
  | mk named kind field start stop children =>
      rw [Node.placesBelow, List.mem_cons, mem_placesAmong_iff, isUnder_iff]
      simp only [Nat.zero_add, Node.children]

theorem mem_placesAmong_iff {parent : Node} {above : List (Node × Nat)} {i : Nat}
    {children : List Node} {p : Place} :
    p ∈ placesAmong parent above i children ↔
      ∃ j c, children[j]? = some c ∧ IsUnder ⟨c, (parent, i + j) :: above⟩ p := by
  cases children with
  | nil => simp [placesAmong]
  | cons c cs =>
      rw [placesAmong, List.mem_append, mem_placesBelow_iff, mem_placesAmong_iff]
      constructor
      · rintro (h | ⟨j, d, hd, h⟩)
        · exact ⟨0, c, rfl, h⟩
        · refine ⟨j + 1, d, hd, ?_⟩
          rwa [Nat.add_assoc, Nat.add_comm 1 j] at h
      · rintro ⟨j, d, hd, h⟩
        cases j with
        | zero =>
            cases hd
            exact Or.inl h
        | succ j =>
            refine Or.inr ⟨j, d, hd, ?_⟩
            rwa [Nat.add_assoc, Nat.add_comm 1 j]

end

theorem mem_preorder_iff {top p : Place} : p ∈ top.preorder ↔ IsUnder top p :=
  mem_placesBelow_iff

/-- Places below different children of a node have different addresses. -/
theorem address_ne_of_sibling {c d : Node} {parent : Node} {above : List (Node × Nat)} {i j : Nat}
    {p q : Place} (hij : i ≠ j) (hp : IsUnder ⟨c, (parent, i) :: above⟩ p)
    (hq : IsUnder ⟨d, (parent, j) :: above⟩ q) : p.address ≠ q.address := by
  intro hsame
  have hshared := List.suffix_of_suffix_length_le hp.address_suffix
    (hsame ▸ hq.address_suffix) (by simp [address])
  have heq := hshared.eq_of_length (by simp [address])
  exact hij (List.cons.inj heq).1

mutual

theorem nodup_placesBelow (above : List (Node × Nat)) (n : Node) :
    ((n.placesBelow above).map address).Nodup := by
  cases n with
  | mk named kind field start stop children =>
      rw [Node.placesBelow, List.map_cons, List.nodup_cons]
      refine ⟨?_, nodup_placesAmong _ above 0 children⟩
      intro htop
      obtain ⟨p, hp, hsame⟩ := List.mem_map.1 htop
      obtain ⟨j, c, -, hunder⟩ := mem_placesAmong_iff.1 hp
      -- what lies below a node has a longer address
      have hlength := hunder.address_suffix.length_le
      rw [hsame] at hlength
      simp only [address, List.length_map, List.length_cons] at hlength
      omega

theorem nodup_placesAmong (parent : Node) (above : List (Node × Nat)) (i : Nat)
    (children : List Node) : ((placesAmong parent above i children).map address).Nodup := by
  cases children with
  | nil => exact List.nodup_nil
  | cons c cs =>
      rw [placesAmong, List.map_append, List.nodup_append]
      refine ⟨nodup_placesBelow _ c, nodup_placesAmong parent above (i + 1) cs, ?_⟩
      intro a ha b hb
      obtain ⟨p, hp, rfl⟩ := List.mem_map.1 ha
      obtain ⟨q, hq, rfl⟩ := List.mem_map.1 hb
      obtain ⟨j, d, -, hunder⟩ := mem_placesAmong_iff.1 hq
      exact address_ne_of_sibling (by omega) (mem_placesBelow_iff.1 hp) hunder

end

theorem nodup_preorder (top : Place) : (top.preorder.map address).Nodup :=
  nodup_placesBelow top.above top.node

/-- A place is known by its address. -/
theorem IsUnder.eq_of_address {top p q : Place} (hp : IsUnder top p) (hq : IsUnder top q)
    (hsame : p.address = q.address) : p = q :=
  List.inj_on_of_nodup_map (nodup_preorder top) (mem_preorder_iff.2 hp) (mem_preorder_iff.2 hq)
    hsame

/-! ## Above a place -/

theorem length_lt_of_mem_placesAlong {way : List (Node × Nat)} {q : Place}
    (hq : q ∈ placesAlong way) : q.above.length < way.length := by
  induction way with
  | nil => cases hq
  | cons step way ih =>
      rcases List.mem_cons.1 hq with rfl | hq
      · exact Nat.lt_succ_self _
      · exact Nat.lt_trans (ih hq) (Nat.lt_succ_self _)

/-- The nodes above a place are nearer to the root than it. -/
theorem length_lt_of_mem_ancestors {p q : Place} (hq : q ∈ p.ancestors) :
    q.above.length < p.above.length :=
  length_lt_of_mem_placesAlong hq

theorem placesAlong_split {way : List (Node × Nat)} {before after : List Place} {q : Place}
    (h : placesAlong way = before ++ q :: after) : q.ancestors = after := by
  induction way generalizing before with
  | nil => simp [placesAlong] at h
  | cons step way ih =>
      cases before with
      | nil =>
          obtain ⟨rfl, rfl⟩ := List.cons.inj h
          rfl
      | cons b before => exact ih (List.cons.inj h).2

/-- What is above a node above comes after it. -/
theorem ancestors_split {p q : Place} {before after : List Place}
    (h : p.ancestors = before ++ q :: after) : q.ancestors = after :=
  placesAlong_split h

theorem ancestors_of_parent? {p q : Place} (hq : p.parent? = some q) :
    p.ancestors = q :: q.ancestors := by
  obtain ⟨node, above⟩ := p
  cases above with
  | nil => cases hq
  | cons step above =>
      cases hq
      rfl

/-- A place lies below the nodes above it. -/
theorem IsUnder.below_ancestor {n : Node} {p q : Place} (hp : IsUnder (root n) p)
    (hq : q ∈ p.ancestors) : IsUnder q p := by
  induction hp with
  | here => cases hq
  | child _ hc ih =>
      rcases List.mem_cons.1 hq with rfl | hq
      · exact IsUnder.here.child hc
      · exact (ih hq).child hc

theorem IsUnder.of_mem_ancestors {n : Node} {p q : Place} (hp : IsUnder (root n) p)
    (hq : q ∈ p.ancestors) : IsUnder (root n) q := by
  induction hp with
  | here => cases hq
  | child hparent _ ih =>
      rcases List.mem_cons.1 hq with rfl | hq
      · exact hparent
      · exact ih hq

/-! ## Captures -/

theorem IsUnder.of_mem_children {top p q : Place} (hp : IsUnder top p) (hq : q ∈ p.children) :
    IsUnder top q := by
  obtain ⟨⟨c, i⟩, hc, rfl⟩ := List.mem_map.1 hq
  exact hp.child (List.mem_zipIdx_iff_getElem?.1 hc)

end Place

open Place

/-- What a pattern captures at a place is this place, one below it, or one below that. -/
theorem Pattern.isUnder_of_mem_capturesAt {source : List Char} {top p q : Place} {pattern : Pattern}
    (hp : IsUnder top p) (hq : q ∈ pattern.capturesAt source p) : IsUnder top q := by
  unfold capturesAt at hq
  split at hq
  · split at hq
    · cases List.mem_singleton.1 hq
      exact hp
    · cases hq
  · split at hq
    · exact hp.of_mem_children (List.mem_of_mem_filter hq)
    · cases hq
  · split at hq
    · exact hp.of_mem_children (List.mem_of_mem_filter hq)
    · cases hq
  · split at hq
    · dsimp only at hq
      split at hq
      · obtain ⟨arguments, harguments, hq⟩ := List.mem_flatMap.1 (List.mem_of_mem_filter hq)
        exact (hp.of_mem_children (List.mem_of_mem_filter harguments)).of_mem_children hq
      · cases hq
    · cases hq

theorem isUnder_of_mem_captureTexts {patterns : List Pattern} {source : List Char} {top : Place}
    {capture : Place × List Char} (hcapture : capture ∈ captureTexts patterns source top) :
    IsUnder top capture.1 := by
  obtain ⟨q, hq, htext⟩ := List.mem_filterMap.1 hcapture
  obtain ⟨text, -, rfl⟩ := Option.map_eq_some_iff.1 htext
  obtain ⟨p, hp, hq⟩ := List.mem_flatMap.1 hq
  obtain ⟨pattern, -, hq⟩ := List.mem_flatMap.1 hq
  exact Pattern.isUnder_of_mem_capturesAt (mem_preorder_iff.1 hp) hq

end CodeIndex.Syntax

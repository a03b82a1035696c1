import CodeIndex.Proofs.Store.Order
import CodeIndex.Proofs.Text.Search
import Mathlib.Data.List.Nodup
/-!
# Pieces and where they stand

The pieces of a text are its stretches without separators that go as far as they can on both sides;
they come in the order in which they stand. Of members that have places in ascending order, the
first few distinct ones are those that occur first, each at the place of its first occurrence.
-/

namespace CodeIndex.Text

/-! ## The place of a piece -/

section Places

variable {p : Char → Bool} {cs w : List Char} {c : Char} {k : Nat} {ws : List (List Char)}

/-- Behind its first `k` characters the text has the piece: no separator is in it, and on either
side of it there is one, or an end of the text. -/
def HasPieceAt (p : Char → Bool) (cs : List Char) (k : Nat) (w : List Char) : Prop :=
  ∃ before after, cs = before ++ w ++ after ∧ before.length = k ∧ (∀ c ∈ w, p c = false) ∧
    before.getLast?.all p = true ∧ after.head?.all p = true

theorem hasPieceAt_nil : HasPieceAt p [] k w ↔ k = 0 ∧ w = [] := by
  constructor
  · rintro ⟨before, after, hcs, rfl, -⟩
    obtain ⟨hfront, -⟩ := List.append_eq_nil_iff.1 hcs.symm
    obtain ⟨rfl, rfl⟩ := List.append_eq_nil_iff.1 hfront
    exact ⟨rfl, rfl⟩
  · rintro ⟨rfl, rfl⟩
    exact ⟨[], [], by simp⟩

theorem hasPieceAt_cons_zero_of_separator (hc : p c = true) :
    HasPieceAt p (c :: cs) 0 w ↔ w = [] := by
  constructor
  · rintro ⟨before, after, hcs, hk, hw, -⟩
    obtain rfl := List.length_eq_zero_iff.1 hk
    cases w with
    | nil => rfl
    | cons d w =>
        obtain ⟨rfl, -⟩ := List.cons.inj hcs
        exact absurd hc (by simp [hw c List.mem_cons_self])
  · rintro rfl
    exact ⟨[], c :: cs, by simp [hc]⟩

theorem hasPieceAt_cons_zero (hc : p c = false) :
    HasPieceAt p (c :: cs) 0 w ↔ ∃ v, w = c :: v ∧ HasPieceAt p cs 0 v := by
  constructor
  · rintro ⟨before, after, hcs, hk, hw, -, hafter⟩
    obtain rfl := List.length_eq_zero_iff.1 hk
    cases w with
    | nil =>
        rw [List.nil_append, List.nil_append] at hcs
        subst hcs
        simp [hc] at hafter
    | cons d v =>
        obtain ⟨rfl, hrest⟩ := List.cons.inj hcs
        exact ⟨v, rfl, [], after, hrest, rfl, fun x hx => hw x (List.mem_cons_of_mem c hx), rfl,
          hafter⟩
  · rintro ⟨v, rfl, before, after, rfl, hk, hv, -, hafter⟩
    obtain rfl := List.length_eq_zero_iff.1 hk
    exact ⟨[], after, rfl, rfl, List.forall_mem_cons.2 ⟨hc, hv⟩, rfl, hafter⟩

/-- A character in front moves the pieces, apart from one that starts right behind it and so is
another unless the character is a separator. -/
theorem hasPieceAt_cons_succ :
    HasPieceAt p (c :: cs) (k + 1) w ↔ HasPieceAt p cs k w ∧ (k = 0 → p c = true) := by
  constructor
  · rintro ⟨before, after, hcs, hk, hw, hbefore, hafter⟩
    cases before with
    | nil => simp at hk
    | cons d before =>
        obtain ⟨rfl, hrest⟩ := List.cons.inj hcs
        have hlength : before.length = k := Nat.succ.inj hk
        cases before with
        | nil =>
            refine ⟨⟨[], after, hrest, hlength, hw, rfl, hafter⟩, fun _ => ?_⟩
            simpa using hbefore
        | cons e before =>
            rw [List.getLast?_cons_cons] at hbefore
            refine ⟨⟨e :: before, after, hrest, hlength, hw, hbefore, hafter⟩, ?_⟩
            rintro rfl
            cases hlength
  · rintro ⟨⟨before, after, rfl, rfl, hw, hbefore, hafter⟩, hseparator⟩
    refine ⟨c :: before, after, rfl, rfl, hw, ?_, hafter⟩
    cases before with
    | nil => simpa using hseparator rfl
    | cons d before => rwa [List.getLast?_cons_cons]

/-- The pieces with their places, when the first starts at `k` and one separator follows each. -/
def placed (k : Nat) : List (List Char) → List (Nat × List Char)
  | [] => []
  | w :: ws => (k, w) :: placed (k + w.length + 1) ws

theorem map_snd_placed (k : Nat) (ws : List (List Char)) : (placed k ws).map (·.2) = ws := by
  induction ws generalizing k with
  | nil => rfl
  | cons w ws ih => rw [placed, List.map_cons, ih]

theorem le_of_mem_placed {j : Nat} (h : (j, w) ∈ placed k ws) : k ≤ j := by
  induction ws generalizing k with
  | nil => cases h
  | cons v ws ih =>
      rcases List.mem_cons.1 h with heq | hrest
      · cases heq
        exact Nat.le_refl _
      · have hle := ih hrest
        omega

theorem pairwise_placed (k : Nat) (ws : List (List Char)) :
    (placed k ws).Pairwise fun a b => a.1 < b.1 := by
  induction ws generalizing k with
  | nil => exact List.Pairwise.nil
  | cons w ws ih =>
      refine List.pairwise_cons.2 ⟨fun b hb => ?_, ih _⟩
      have hle := le_of_mem_placed hb
      omega

theorem mem_placed_succ {j : Nat} : (j + 1, w) ∈ placed (k + 1) ws ↔ (j, w) ∈ placed k ws := by
  induction ws generalizing k with
  | nil => simp [placed]
  | cons v ws ih =>
      have hnext : k + 1 + v.length + 1 = k + v.length + 1 + 1 := by omega
      rw [placed, placed, List.mem_cons, List.mem_cons, hnext, ih, Prod.mk.injEq, Prod.mk.injEq,
        Nat.succ_inj]

theorem not_mem_placed_succ : (0, w) ∉ placed (k + 1) ws :=
  fun h => Nat.not_succ_le_zero k (le_of_mem_placed h)

/-- Each piece with its place, and nothing else. -/
theorem mem_placed_pieces : (k, w) ∈ placed 0 (pieces p cs) ↔ HasPieceAt p cs k w := by
  induction cs generalizing k w with
  | nil =>
      rw [pieces, placed, placed, List.mem_singleton, Prod.mk.injEq, hasPieceAt_nil]
  | cons c cs ih =>
      cases hc : p c with
      | true =>
          rw [pieces, if_pos hc, placed, List.mem_cons, Prod.mk.injEq]
          cases k with
          | zero => simp [hasPieceAt_cons_zero_of_separator hc, not_mem_placed_succ]
          | succ k => simp [hasPieceAt_cons_succ, hc, mem_placed_succ, ih]
      | false =>
          obtain ⟨v, vs, hpieces⟩ : ∃ v vs, pieces p cs = v :: vs :=
            List.exists_cons_of_ne_nil (pieces_eq_splitOnP p cs ▸ List.splitOnP_ne_nil p cs)
          -- the character joins the first piece, and the others move by one
          have hnext : 0 + (c :: v).length + 1 = 0 + v.length + 1 + 1 := by simp
          rw [hpieces, placed] at ih
          rw [pieces, hc, if_neg Bool.false_ne_true, hpieces]
          dsimp only
          rw [placed, hnext, List.mem_cons, Prod.mk.injEq]
          cases k with
          | zero => simp [hasPieceAt_cons_zero hc, ← ih, not_mem_placed_succ]
          | succ k =>
              cases k with
              | zero => simp [hasPieceAt_cons_succ, hc, mem_placed_succ, not_mem_placed_succ]
              | succ k => simp [hasPieceAt_cons_succ, mem_placed_succ, ← ih]

end Places

/-! ## First occurrences -/

section First

variable {α β : Type}

/-- What is promised of the first few distinct members of those that have places: they come in the
order in which they occur first, and when one is left out there are enough before it. -/
structure AreFirst (most : Nat) (At : Nat → α → Prop) (xs : List α) : Prop where
  nodup : xs.Nodup
  length_le : xs.length ≤ most
  occurs : ∀ x ∈ xs, ∃ k, At k x
  inOrder : xs.Pairwise fun x y => ∃ k, At k x ∧ ∀ j, At j y → k < j
  complete : ∀ k x, At k x → x ∈ xs ∨ xs.length = most ∧ ∀ y ∈ xs, ∃ j < k, At j y

theorem AreFirst.congr {most : Nat} {At At' : Nat → α → Prop} {xs : List α}
    (h : AreFirst most At xs) (hat : ∀ k x, At k x ↔ At' k x) : AreFirst most At' xs := by
  have heq : At = At' := by
    funext k x
    exact propext (hat k x)
  exact heq ▸ h

/-- The occurrences with one more, which is of `x` and at `k`. -/
def AlsoAt (At : Nat → α → Prop) (k : Nat) (x : α) (j : Nat) (y : α) : Prop :=
  At j y ∨ j = k ∧ y = x

namespace AreFirst

variable {most k : Nat} {At : Nat → α → Prop} {x : α} {xs : List α}

theorem occurs_before (h : AreFirst most At xs) (hk : ∀ j y, At j y → j < k) {y : α}
    (hy : y ∈ xs) : ∃ j < k, AlsoAt At k x j y := by
  obtain ⟨j, hj⟩ := h.occurs y hy
  exact ⟨j, hk j y hj, Or.inl hj⟩

theorem inOrder_alsoAt (h : AreFirst most At xs) (hk : ∀ j y, At j y → j < k) :
    xs.Pairwise fun y z => ∃ j, AlsoAt At k x j y ∧ ∀ i, AlsoAt At k x i z → j < i := by
  refine h.inOrder.imp ?_
  rintro y z ⟨j, hj, hfirst⟩
  refine ⟨j, Or.inl hj, ?_⟩
  rintro i (hi | ⟨rfl, -⟩)
  · exact hfirst i hi
  · exact hk j y hj

theorem skip (h : AreFirst most At xs) (hk : ∀ j y, At j y → j < k)
    (hskip : xs.length = most ∨ x ∈ xs) : AreFirst most (AlsoAt At k x) xs where
  nodup := h.nodup
  length_le := h.length_le
  occurs y hy := by
    obtain ⟨j, -, hj⟩ := h.occurs_before hk hy
    exact ⟨j, hj⟩
  inOrder := h.inOrder_alsoAt hk
  complete := by
    rintro j y (hj | ⟨rfl, rfl⟩)
    · refine (h.complete j y hj).imp_right fun ⟨hfull, hall⟩ => ⟨hfull, fun z hz => ?_⟩
      obtain ⟨i, hi, hz⟩ := hall z hz
      exact ⟨i, hi, Or.inl hz⟩
    · exact hskip.symm.imp_right fun hfull => ⟨hfull, fun z hz => h.occurs_before hk hz⟩

theorem add (h : AreFirst most At xs) (hk : ∀ j y, At j y → j < k) (hroom : xs.length ≠ most)
    (hnew : x ∉ xs) : AreFirst most (AlsoAt At k x) (xs ++ [x]) := by
  have hmem : ∀ j y, At j y → y ∈ xs := fun j y hj =>
    (h.complete j y hj).resolve_right fun hfull => hroom hfull.1
  refine ⟨?_, ?_, fun y hy => ?_, ?_, ?_⟩
  · exact List.nodup_append.2 ⟨h.nodup, List.nodup_singleton x,
      fun y hy z hz heq => hnew (List.mem_singleton.1 hz ▸ heq ▸ hy)⟩
  · rw [List.length_append]
    exact Nat.lt_of_le_of_ne h.length_le hroom
  · rcases List.mem_append.1 hy with hy | hy
    · obtain ⟨j, -, hj⟩ := h.occurs_before hk hy
      exact ⟨j, hj⟩
    · exact ⟨k, Or.inr ⟨rfl, List.mem_singleton.1 hy⟩⟩
  · refine List.pairwise_append.2
      ⟨h.inOrder_alsoAt hk, List.pairwise_singleton _ x, fun y hy z hz => ?_⟩
    obtain rfl := List.mem_singleton.1 hz
    obtain ⟨j, hjk, hj⟩ := h.occurs_before hk hy
    refine ⟨j, hj, ?_⟩
    rintro i (hi | ⟨rfl, -⟩)
    · exact absurd (hmem i z hi) hnew
    · exact hjk
  · rintro j y (hj | ⟨-, rfl⟩)
    · exact Or.inl (List.mem_append_left _ (hmem j y hj))
    · exact Or.inl (List.mem_append_right _ (List.mem_singleton_self _))

end AreFirst

variable [BEq α] [LawfulBEq α]

theorem firstDistinct_concat (most : Nat) (xs : List α) (x : α) :
    firstDistinct most (xs ++ [x]) =
      if (firstDistinct most xs).length = most ∨ x ∈ firstDistinct most xs then
        firstDistinct most xs
      else firstDistinct most xs ++ [x] := by
  have hstep : firstDistinct most (xs ++ [x]) =
      if (firstDistinct most xs).length == most || (firstDistinct most xs).contains x then
        firstDistinct most xs
      else firstDistinct most xs ++ [x] := List.foldl_append
  rw [hstep]
  simp only [Bool.or_eq_true, beq_iff_eq, List.contains_iff_mem]

theorem areFirst_firstDistinct (most : Nat) {found : List (Nat × α)}
    (hfound : found.Pairwise fun a b => a.1 < b.1) :
    AreFirst most (fun k x => (k, x) ∈ found) (firstDistinct most (found.map (·.2))) := by
  -- from the end of the list, where the member stands that is added last
  induction found using List.reverseRecOn with
  | nil =>
      exact ⟨List.nodup_nil, Nat.zero_le most, by simp [firstDistinct], List.Pairwise.nil, by simp⟩
  | append_singleton found last ih =>
      obtain ⟨k, x⟩ := last
      obtain ⟨hrest, -, hlast⟩ := List.pairwise_append.1 hfound
      have hbefore := ih hrest
      have hk : ∀ j y, (j, y) ∈ found → j < k := fun j y hj =>
        hlast (j, y) hj (k, x) (List.mem_singleton_self _)
      have hat : ∀ j y, AlsoAt (fun j y => (j, y) ∈ found) k x j y ↔
          (j, y) ∈ found ++ [(k, x)] := by
        simp [AlsoAt]
      rw [List.map_append, List.map_singleton, firstDistinct_concat]
      split
      · next hskip => exact (hbefore.skip hk hskip).congr hat
      · next hadd =>
        rw [not_or] at hadd
        exact (hbefore.add hk hadd.1 hadd.2).congr hat

theorem map_firstDistinct [BEq β] [LawfulBEq β] {f : α → β} (hf : Function.Injective f)
    (most : Nat) (xs : List α) :
    (firstDistinct most xs).map f = firstDistinct most (xs.map f) := by
  induction xs using List.reverseRecOn with
  | nil => rfl
  | append_singleton xs x ih =>
      rw [List.map_append, List.map_singleton, firstDistinct_concat, firstDistinct_concat, ← ih]
      simp only [List.length_map, List.mem_map_of_injective hf]
      split
      · rfl
      · rw [List.map_append, List.map_singleton]

end First

end CodeIndex.Text

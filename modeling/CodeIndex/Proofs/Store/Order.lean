import CodeIndex.Store.Read
import CodeIndex.Text.Search
import Mathlib.Data.List.Basic
/-!
# Order and repeats

Sorting puts members in order and leaves equal ones as they stood. Leaving out repeats keeps each
member where it occurs first.
-/

namespace CodeIndex.Text

variable {α : Type} [BEq α] [LawfulBEq α]

theorem foldl_distinct (xs seen : List α) :
    xs.foldl (fun seen x => if seen.contains x then seen else seen ++ [x]) seen =
      seen ++ (xs.filter (!seen.contains ·)).eraseDups := by
  induction xs generalizing seen with
  | nil => simp
  | cons x xs ih =>
      simp only [List.foldl_cons]
      cases hx : seen.contains x with
      | true => rw [if_pos rfl, ih, List.filter_cons_of_neg (by simpa using hx)]
      | false =>
          have hrest : xs.filter (!(seen ++ [x]).contains ·) =
              (xs.filter (!seen.contains ·)).filter (!· == x) := by
            rw [List.filter_filter]
            apply List.filter_congr
            intro y _
            by_cases hy : y = x <;> simp [hy]
          rw [if_neg Bool.false_ne_true, ih, List.filter_cons_of_pos (by simpa using hx),
            List.eraseDups_cons, hrest, List.append_assoc, List.singleton_append]

theorem distinct_eq_eraseDups (xs : List α) : distinct xs = xs.eraseDups := by
  unfold distinct
  rw [foldl_distinct]
  simp

theorem foldl_firstDistinct (most : Nat) (xs : List α) {seen : List α}
    (hseen : seen.length ≤ most) :
    xs.foldl (fun seen x =>
        if seen.length == most || seen.contains x then seen else seen ++ [x]) seen =
      (xs.foldl (fun seen x => if seen.contains x then seen else seen ++ [x]) seen).take most := by
  induction xs generalizing seen with
  | nil => exact (List.take_of_length_le hseen).symm
  | cons x xs ih =>
      simp only [List.foldl_cons]
      by_cases hfull : seen.length = most
      · have hpre : seen <+: xs.foldl
            (fun seen x => if seen.contains x then seen else seen ++ [x])
            (if seen.contains x then seen else seen ++ [x]) := by
          rw [foldl_distinct]
          split <;> simp
        have htake := List.prefix_iff_eq_take.1 hpre
        rw [hfull] at htake
        rw [if_pos (by simp [hfull]), ih hseen, ← htake, foldl_distinct, ← hfull,
          List.take_left]
      · have hcond : (seen.length == most || seen.contains x) = seen.contains x := by
          simp [hfull]
        rw [hcond]
        apply ih
        split
        · exact hseen
        · rw [List.length_append, List.length_singleton]
          omega

theorem firstDistinct_eq (most : Nat) (xs : List α) :
    firstDistinct most xs = (distinct xs).take most :=
  foldl_firstDistinct most xs (Nat.zero_le most)

theorem nodup_foldl_distinct (xs : List α) {seen : List α} (hseen : seen.Nodup) :
    (xs.foldl (fun seen x => if seen.contains x then seen else seen ++ [x]) seen).Nodup := by
  induction xs generalizing seen with
  | nil => exact hseen
  | cons x xs ih =>
      rw [List.foldl_cons]
      apply ih
      split
      · exact hseen
      · rename_i hnew
        have hfresh : ∀ y ∈ seen, y ≠ x := by
          rintro y hy rfl
          exact hnew (by simpa using hy)
        rw [List.nodup_append]
        exact ⟨hseen, by simp, by simpa using hfresh⟩

theorem nodup_distinct (xs : List α) : (distinct xs).Nodup :=
  nodup_foldl_distinct xs List.nodup_nil

theorem nodup_firstDistinct (most : Nat) (xs : List α) : (firstDistinct most xs).Nodup := by
  rw [firstDistinct_eq]
  exact (nodup_distinct xs).sublist (List.take_sublist _ _)

theorem mem_of_mem_firstDistinct {most : Nat} {xs : List α} {x : α}
    (h : x ∈ firstDistinct most xs) : x ∈ xs := by
  rw [firstDistinct_eq, distinct_eq_eraseDups] at h
  exact List.mem_eraseDups.1 (List.mem_of_mem_take h)

theorem length_firstDistinct_le (most : Nat) (xs : List α) :
    (firstDistinct most xs).length ≤ most := by
  rw [firstDistinct_eq]
  exact List.length_take_le _ _

end CodeIndex.Text

namespace CodeIndex.Store

variable {α β : Type}

theorem mem_sortedBy {lt : α → α → Bool} {as : List α} {a : α} :
    a ∈ sortedBy lt as ↔ a ∈ as :=
  List.mem_mergeSort

theorem sortedBy_perm (lt : α → α → Bool) (as : List α) : (sortedBy lt as).Perm as :=
  List.mergeSort_perm as _

theorem map_sortedBy {lt : α → α → Bool} {lt' : β → β → Bool} {f : α → β}
    (hf : ∀ a b, lt a b = lt' (f a) (f b)) (as : List α) :
    (sortedBy lt as).map f = sortedBy lt' (as.map f) := by
  apply List.map_mergeSort
  intro a _ b _
  rw [hf]

/-- What a sort needs of a strict comparison: not to come before another is transitive, and of
any two members one does not come before the other. -/
structure Ranked (lt : α → α → Bool) : Prop where
  trans : ∀ a b c, lt b a = false → lt c b = false → lt c a = false
  total : ∀ a b, lt b a = false ∨ lt a b = false

namespace Ranked

variable {lt : α → α → Bool}

theorem pairwise_sortedBy (h : Ranked lt) (as : List α) :
    (sortedBy lt as).Pairwise fun a b => lt b a = false := by
  have htrans : ∀ a b c, (!lt b a) = true → (!lt c b) = true → (!lt c a) = true := by
    simpa using h.trans
  have htotal : ∀ a b, (!lt b a || !lt a b) = true := by
    simpa using h.total
  exact (List.pairwise_mergeSort htrans htotal as).imp fun hab => by simpa using hab

/-- Members of which none comes before another keep their order. -/
theorem filter_sortedBy (h : Ranked lt) {p : α → Bool}
    (hp : ∀ a b, p a = true → p b = true → lt b a = false) (as : List α) :
    (sortedBy lt as).filter p = as.filter p := by
  have htrans : ∀ a b c, (!lt b a) = true → (!lt c b) = true → (!lt c a) = true := by
    simpa using h.trans
  have htotal : ∀ a b, (!lt b a || !lt a b) = true := by
    simpa using h.total
  have hequal : (as.filter p).Pairwise fun a b => (!lt b a) = true := by
    rw [List.pairwise_iff_forall_sublist]
    intro a b hab
    have ha := List.of_mem_filter (hab.subset (by simp : a ∈ [a, b]))
    have hb := List.of_mem_filter (hab.subset (by simp : b ∈ [a, b]))
    simp [hp a b ha hb]
  have hsub : (as.filter p).Sublist (sortedBy lt as) :=
    List.sublist_mergeSort htrans htotal hequal List.filter_sublist
  have hkept : (as.filter p).Sublist ((sortedBy lt as).filter p) := by
    simpa using hsub.filter p
  exact (hkept.eq_of_length ((sortedBy_perm lt as).filter p).length_eq.symm).symm

/-- Of two members of which none comes before the other, the one comes first that came first. -/
theorem pairwise_ties (h : Ranked lt) {r : α → α → Prop} {as : List α} (hr : as.Pairwise r) :
    (sortedBy lt as).Pairwise fun a b => lt b a = false ∧ (lt a b = false → r a b) := by
  have hsorted := h.pairwise_sortedBy as
  rw [List.pairwise_iff_forall_sublist] at hsorted hr ⊢
  intro a b hab
  have hba := hsorted hab
  refine ⟨hba, fun htie => hr ?_⟩
  have hself : lt a a = false := (h.total a a).elim id id
  let p : α → Bool := fun x => !lt x a && !lt a x
  have hkept : (sortedBy lt as).filter p = as.filter p := by
    apply h.filter_sortedBy
    intro x y hx hy
    have hx' : lt x a = false ∧ lt a x = false := by simpa [p] using hx
    have hy' : lt y a = false ∧ lt a y = false := by simpa [p] using hy
    exact h.trans x a y hx'.2 hy'.1
  have hpair := hab.filter p
  have hboth : [a, b].filter p = [a, b] := by simp [p, hself, htie, hba]
  rw [hboth, hkept] at hpair
  exact hpair.trans List.filter_sublist

/-- Choosing members before a sort or after it comes to the same, ties included. -/
theorem filter_sortedBy_comm (h : Ranked lt) {r : α → α → Prop} (hasymm : ∀ a b, r a b → ¬ r b a)
    {as : List α} (hr : as.Pairwise r) (p : α → Bool) :
    (sortedBy lt as).filter p = sortedBy lt (as.filter p) := by
  have hperm : ((sortedBy lt as).filter p).Perm (sortedBy lt (as.filter p)) :=
    ((sortedBy_perm lt as).filter p).trans (sortedBy_perm lt (as.filter p)).symm
  refine List.Perm.eq_of_pairwise ?_ ((h.pairwise_ties hr).filter p)
    (h.pairwise_ties (hr.filter p)) hperm
  rintro a b _ _ ⟨hba, hties⟩ ⟨hab, hties'⟩
  exact absurd (hties' hba) (hasymm a b (hties hab))

end Ranked

theorem ranked_key (key : α → Int) : Ranked fun a b => decide (key a < key b) := by
  constructor
  · simp
    omega
  · simp
    omega

/-- Texts first, and of equal texts the numbers. -/
theorem ranked_textThenInt (text : α → String) (number : α → Int) :
    Ranked fun a b => textThenInt (text a, number a) (text b, number b) := by
  have hlt : ∀ a b : α, text a ≤ text b → text a ≠ text b → text a < text b := by
    intro a b hle hne
    by_contra hnot
    exact hne (String.le_antisymm hle (String.not_lt.1 hnot))
  have hfalse : ∀ a b : α, textThenInt (text b, number b) (text a, number a) = false ↔
      text a < text b ∨ text a = text b ∧ number a ≤ number b := by
    intro a b
    unfold textThenInt
    rw [Bool.or_eq_false_iff, Bool.and_eq_false_iff, decide_eq_false_iff_not,
      decide_eq_false_iff_not, beq_eq_false_iff_ne, String.not_lt]
    constructor
    · rintro ⟨hle, hne | hnumber⟩
      · exact Or.inl (hlt a b hle (Ne.symm hne))
      · by_cases heq : text a = text b
        · exact Or.inr ⟨heq, Int.not_lt.1 hnumber⟩
        · exact Or.inl (hlt a b hle heq)
    · rintro (hlt | ⟨heq, hnumber⟩)
      · have hle : text a ≤ text b := String.not_lt.1 fun hgt =>
          String.lt_irrefl _ (String.lt_trans hlt hgt)
        exact ⟨hle, Or.inl (String.ne_of_lt hlt).symm⟩
      · exact ⟨heq ▸ String.le_refl _, Or.inr (Int.not_lt.2 hnumber)⟩
  constructor
  · intro a b c hab hbc
    rw [hfalse] at hab hbc ⊢
    rcases hab with hab | ⟨heq, hab⟩
    · rcases hbc with hbc | ⟨heq', -⟩
      · exact Or.inl (String.lt_trans hab hbc)
      · exact Or.inl (heq' ▸ hab)
    · rcases hbc with hbc | ⟨heq', hbc⟩
      · exact Or.inl (heq ▸ hbc)
      · exact Or.inr ⟨heq.trans heq', Int.le_trans hab hbc⟩
  · intro a b
    rw [hfalse, hfalse]
    by_cases hlt : text a < text b
    · exact Or.inl (Or.inl hlt)
    by_cases hgt : text b < text a
    · exact Or.inr (Or.inl hgt)
    have heq : text a = text b := String.le_antisymm (String.not_lt.1 hgt) (String.not_lt.1 hlt)
    rcases Int.le_total (number a) (number b) with hle | hle
    · exact Or.inl (Or.inr ⟨heq, hle⟩)
    · exact Or.inr (Or.inr ⟨heq.symm, hle⟩)

/-- Spans by where they start; of those that start together the longer one comes first. -/
theorem ranked_span (first last : α → Int) :
    Ranked fun a b => decide (first a < first b) ||
      (first a == first b && decide (last b < last a)) := by
  constructor
  · intro a b c
    simp only [Bool.or_eq_false_iff, Bool.and_eq_false_iff, decide_eq_false_iff_not,
      beq_eq_false_iff_ne]
    omega
  · intro a b
    simp only [Bool.or_eq_false_iff, Bool.and_eq_false_iff, decide_eq_false_iff_not,
      beq_eq_false_iff_ne]
    omega

end CodeIndex.Store

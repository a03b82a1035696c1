import CodeIndex.Debounce.Change
import Mathlib.Data.List.Nodup
/-!
# The table of waiting changes

The table holds each path once. A change that is put into it decides the kind of its path and of
no other, and the sorted table is strictly in the order of paths.
-/

namespace CodeIndex.PathPart

/-! ## The order of paths -/

theorem isBefore_name {s t : String} : (name s).isBefore (name t) = true ↔ s < t := by
  unfold isBefore
  exact decide_eq_true_iff

theorem isBefore_irrefl (a : PathPart) : ¬ a.isBefore a = true := by
  cases a with
  | name s => exact mt isBefore_name.1 (String.lt_irrefl s)
  | _ => decide

theorem isBefore_trans {a b c : PathPart} (hab : a.isBefore b = true)
    (hbc : b.isBefore c = true) : a.isBefore c = true := by
  cases a with
  | name s =>
      cases b with
      | name t =>
          cases c with
          | name u =>
              rw [isBefore_name] at hab hbc ⊢
              exact String.lt_trans hab hbc
          | _ => simp [isBefore, rank] at hbc
      | _ => simp [isBefore, rank] at hab
  | _ => cases b <;> cases c <;> simp_all [isBefore, rank]

theorem isBefore_trichotomy (a b : PathPart) :
    a.isBefore b = true ∨ a = b ∨ b.isBefore a = true := by
  cases a with
  | name s =>
      cases b with
      | name t =>
          rw [isBefore_name, isBefore_name, name.injEq]
          by_cases hst : s < t
          · exact Or.inl hst
          · by_cases hts : t < s
            · exact Or.inr (Or.inr hts)
            · exact Or.inr (Or.inl (String.le_antisymm hts hst))
      | _ => simp [isBefore, rank]
  | _ => cases b <;> simp [isBefore, rank]

theorem allBefore_cons {a b : PathPart} {as bs : List PathPart} :
    allBefore (a :: as) (b :: bs) = true ↔
      a.isBefore b = true ∨ a = b ∧ allBefore as bs = true := by
  simp [allBefore]

theorem allBefore_irrefl (as : List PathPart) : ¬ allBefore as as = true := by
  induction as with
  | nil => decide
  | cons a as ih =>
      rw [allBefore_cons, not_or]
      exact ⟨isBefore_irrefl a, fun h => ih h.2⟩

theorem allBefore_trans {as bs cs : List PathPart} (hab : allBefore as bs = true)
    (hbc : allBefore bs cs = true) : allBefore as cs = true := by
  induction as generalizing bs cs with
  | nil =>
      cases cs with
      | nil => cases bs <;> simp [allBefore] at hbc
      | cons c cs => rfl
  | cons a as ih =>
      cases bs with
      | nil => simp [allBefore] at hab
      | cons b bs =>
          cases cs with
          | nil => simp [allBefore] at hbc
          | cons c cs =>
              rw [allBefore_cons] at hab hbc ⊢
              rcases hab with hab | ⟨rfl, hab⟩
              · rcases hbc with hbc | ⟨rfl, -⟩
                · exact Or.inl (isBefore_trans hab hbc)
                · exact Or.inl hab
              · rcases hbc with hbc | ⟨rfl, hbc⟩
                · exact Or.inl hbc
                · exact Or.inr ⟨rfl, ih hab hbc⟩

theorem allBefore_trichotomy (as bs : List PathPart) :
    allBefore as bs = true ∨ as = bs ∨ allBefore bs as = true := by
  induction as generalizing bs with
  | nil => cases bs <;> simp [allBefore]
  | cons a as ih =>
      cases bs with
      | nil => simp [allBefore]
      | cons b bs =>
          simp only [allBefore_cons, List.cons.injEq]
          rcases isBefore_trichotomy a b with hab | rfl | hba
          · exact Or.inl (Or.inl hab)
          · rcases ih bs with hlt | rfl | hgt
            · exact Or.inl (Or.inr ⟨rfl, hlt⟩)
            · exact Or.inr (Or.inl ⟨rfl, rfl⟩)
            · exact Or.inr (Or.inr (Or.inr ⟨rfl, hgt⟩))
          · exact Or.inr (Or.inr (Or.inl hba))

end CodeIndex.PathPart

namespace CodeIndex.Change

/-! ## The table -/

/-- What the path of a change is known by. -/
def key (c : Change) : List PathPart :=
  Path.parts c.path

/-- The changes have distinct paths. -/
def Distinct (cs : List Change) : Prop :=
  (cs.map key).Nodup

/-- The changes hold a path with a kind. -/
def Holds (cs : List Change) (path : String) (kind : ChangeKind) : Prop :=
  ∃ d ∈ cs, d.key = Path.parts path ∧ d.kind = kind

theorem samePath_iff {a b : Change} : a.samePath b = true ↔ a.key = b.key := by
  simp [samePath, key]

theorem map_key_insert (c : Change) (cs : List Change) :
    (c.insert cs).map key =
      if c.key ∈ cs.map key then cs.map key else cs.map key ++ [c.key] := by
  induction cs with
  | nil => rfl
  | cons d cs ih =>
      unfold insert
      by_cases hsame : d.key = c.key
      · rw [if_pos (samePath_iff.2 hsame), if_pos (by simp [hsame])]
        rfl
      · rw [if_neg (mt samePath_iff.1 hsame), List.map_cons, ih]
        by_cases hmem : c.key ∈ cs.map key
        · rw [if_pos hmem, if_pos (by simp [hmem])]
          rfl
        · rw [if_neg hmem, if_neg (by simpa using ⟨Ne.symm hsame, by simpa using hmem⟩)]
          rfl

theorem Distinct.insert {cs : List Change} (h : Distinct cs) (c : Change) :
    Distinct (c.insert cs) := by
  unfold Distinct
  rw [map_key_insert]
  split
  · exact h
  · rename_i hnew
    rw [List.nodup_append]
    refine ⟨h, List.nodup_singleton c.key, ?_⟩
    intro k hk k' hk' heq
    rw [List.mem_singleton] at hk'
    rw [heq, hk'] at hk
    exact hnew hk

theorem holds_cons {d : Change} {cs : List Change} {path : String} {kind : ChangeKind} :
    Holds (d :: cs) path kind ↔
      (d.key = Path.parts path ∧ d.kind = kind) ∨ Holds cs path kind := by
  simp [Holds]

theorem not_holds_of_distinct {d : Change} {cs : List Change} (h : Distinct (d :: cs))
    {path : String} (hpath : d.key = Path.parts path) (kind : ChangeKind) :
    ¬ Holds cs path kind := by
  rintro ⟨e, he, hkey, -⟩
  have hnot := (List.nodup_cons.1 h).1
  rw [hpath, ← hkey] at hnot
  exact hnot (List.mem_map_of_mem he)

/-- The change that is put into the table decides what it holds at that path. -/
theorem holds_insert {cs : List Change} (h : Distinct cs) (c : Change) (path : String)
    (kind : ChangeKind) :
    Holds (c.insert cs) path kind ↔
      if c.key = Path.parts path then c.kind = kind else Holds cs path kind := by
  induction cs with
  | nil =>
      by_cases hpath : c.key = Path.parts path <;> simp [Change.insert, Holds, hpath]
  | cons d cs ih =>
      -- a path that is there is changed in place, and the rest of the table does not hold it
      have ih := ih (List.nodup_cons.1 h).2
      unfold Change.insert
      by_cases hsame : d.key = c.key
      · rw [if_pos (samePath_iff.2 hsame), holds_cons, holds_cons]
        have hkey : ({ d with kind := c.kind } : Change).key = c.key := hsame
        rw [hkey, hsame]
        by_cases hpath : c.key = Path.parts path
        · have hrest := not_holds_of_distinct h (hsame.trans hpath) kind
          simp [hpath, hrest]
        · simp [hpath]
      · rw [if_neg (mt samePath_iff.1 hsame), holds_cons, ih, holds_cons]
        by_cases hpath : c.key = Path.parts path
        · have hne : d.key ≠ Path.parts path := fun hd => hsame (hd.trans hpath.symm)
          simp [hpath, hne]
        · simp [hpath]

/-! ## The table in order -/

theorem perm_sorted (cs : List Change) : (sorted cs).Perm cs :=
  List.mergeSort_perm cs _

theorem pairwise_sorted {cs : List Change} (h : Distinct cs) :
    (sorted cs).Pairwise fun a b => PathPart.allBefore a.key b.key = true := by
  have htrans : ∀ a b c : Change, (!PathPart.allBefore b.key a.key) = true →
      (!PathPart.allBefore c.key b.key) = true → (!PathPart.allBefore c.key a.key) = true := by
    intro a b c hab hbc
    rw [Bool.not_eq_true', Bool.eq_false_iff] at hab hbc ⊢
    intro hca
    rcases PathPart.allBefore_trichotomy a.key b.key with hlt | heq | hgt
    · exact hbc (PathPart.allBefore_trans hca hlt)
    · exact hbc (heq ▸ hca)
    · exact hab hgt
  have htotal : ∀ a b : Change,
      ((!PathPart.allBefore b.key a.key) || (!PathPart.allBefore a.key b.key)) = true := by
    intro a b
    rw [← Bool.not_and, Bool.not_eq_true', Bool.eq_false_iff, ne_eq, Bool.and_eq_true]
    rintro ⟨hba, hab⟩
    exact PathPart.allBefore_irrefl b.key (PathPart.allBefore_trans hba hab)
  have hordered := List.pairwise_mergeSort htrans htotal cs
  have hdistinct : ((sorted cs).map key).Nodup := ((perm_sorted cs).map key).nodup_iff.2 h
  refine (hordered.and (List.pairwise_map.1 hdistinct)).imp ?_
  rintro a b ⟨hle, hne⟩
  rw [Bool.not_eq_true', Bool.eq_false_iff] at hle
  rcases PathPart.allBefore_trichotomy a.key b.key with hlt | heq | hgt
  · exact hlt
  · exact absurd heq hne
  · exact absurd hgt hle

end CodeIndex.Change

import CodeIndex.Chunk.Parse
import CodeIndex.Proofs.Text.Lines
import Mathlib.Data.List.Pairwise
/-!
# Between definitions

The lines that no definition holds form runs. A run with enough content is a chunk, without the
blank lines at its ends; any other run is left out.
-/

namespace CodeIndex.ParsedFile

open Text Syntax

/-! ## Runs -/

/-- A longest run of rows from `lo` up to `hi` that satisfy `p`. -/
structure IsRun (p : Nat → Bool) (lo hi first last : Nat) : Prop where
  lower : lo ≤ first
  ordered : first ≤ last
  upper : last < hi
  inside : ∀ row, first ≤ row → row ≤ last → p row = true
  before : first = lo ∨ p (first - 1) = false
  after : last + 1 = hi ∨ p (last + 1) = false

/-- All longest runs, from top to bottom. -/
structure AreRuns (p : Nat → Bool) (lo hi : Nat) (runs : List (Nat × Nat)) : Prop where
  each : ∀ r ∈ runs, IsRun p lo hi r.1 r.2
  apart : runs.Pairwise fun a b => a.2 < b.1
  covers : ∀ row, lo ≤ row → row < hi → p row = true → ∃ r ∈ runs, r.1 ≤ row ∧ row ≤ r.2

section Runs

variable {p : Nat → Bool} {lo hi first last : Nat} {more runs : List (Nat × Nat)}

theorem areRuns_nil (p : Nat → Bool) (lo : Nat) : AreRuns p lo lo [] := by
  refine ⟨by simp, List.Pairwise.nil, fun row hlower hupper => ?_⟩
  omega

/-- A run that does not follow the row before it at once stays a longest one. -/
theorem IsRun.with_row (h : IsRun p (lo + 1) hi first last)
    (hbefore : first = lo + 1 → p lo = false) : IsRun p lo hi first last where
  lower := Nat.le_of_succ_le h.lower
  ordered := h.ordered
  upper := h.upper
  inside := h.inside
  before := by
    rcases h.before with heq | hfalse
    · have hp := hbefore heq
      rw [heq]
      exact Or.inr hp
    · exact Or.inr hfalse
  after := h.after

theorem AreRuns.skip (h : AreRuns p (lo + 1) hi runs) (hp : p lo = false) :
    AreRuns p lo hi runs := by
  refine ⟨fun r hr => (h.each r hr).with_row fun _ => hp, h.apart, ?_⟩
  intro row hlower hupper hrow
  have hne : row ≠ lo := by
    rintro rfl
    rw [hp] at hrow
    cases hrow
  exact h.covers row (by omega) hupper hrow

/-- A row makes a run of its own when no run starts at the next one. -/
theorem AreRuns.start (h : AreRuns p (lo + 1) hi runs) (hlo : lo < hi) (hp : p lo = true)
    (hnext : ∀ r ∈ runs, r.1 ≠ lo + 1) : AreRuns p lo hi ((lo, lo) :: runs) := by
  have hafter : lo + 1 = hi ∨ p (lo + 1) = false := by
    by_cases hend : lo + 1 = hi
    · exact Or.inl hend
    · refine Or.inr (Bool.eq_false_iff.2 fun hrow => ?_)
      obtain ⟨r, hr, hfirst, -⟩ := h.covers (lo + 1) (Nat.le_refl _) (by omega) hrow
      exact hnext r hr (Nat.le_antisymm hfirst (h.each r hr).lower)
  refine ⟨List.forall_mem_cons.2 ⟨?_, ?_⟩, List.pairwise_cons.2 ⟨?_, h.apart⟩, ?_⟩
  · refine ⟨Nat.le_refl lo, Nat.le_refl lo, hlo, fun row hfirst hlast => ?_, Or.inl rfl, hafter⟩
    rwa [Nat.le_antisymm hlast hfirst]
  · exact fun r hr => (h.each r hr).with_row fun heq => absurd heq (hnext r hr)
  · exact fun r hr => (h.each r hr).lower
  · intro row hlower hupper hrow
    by_cases heq : row = lo
    · exact ⟨(lo, lo), List.mem_cons_self, by omega, by omega⟩
    · obtain ⟨r, hr, hin⟩ := h.covers row (by omega) hupper hrow
      exact ⟨r, List.mem_cons_of_mem _ hr, hin⟩

/-- A row joins the run that starts at the next one. -/
theorem AreRuns.extend (h : AreRuns p (lo + 1) hi ((lo + 1, last) :: more)) (hp : p lo = true) :
    AreRuns p lo hi ((lo, last) :: more) := by
  obtain ⟨hhead, hmore⟩ := List.forall_mem_cons.1 h.each
  obtain ⟨hlt, hapart⟩ := List.pairwise_cons.1 h.apart
  have hordered : lo + 1 ≤ last := hhead.ordered
  refine ⟨List.forall_mem_cons.2 ⟨?_, ?_⟩, List.pairwise_cons.2 ⟨hlt, hapart⟩, ?_⟩
  · refine ⟨Nat.le_refl lo, Nat.le_of_succ_le hordered, hhead.upper, ?_, Or.inl rfl, hhead.after⟩
    intro row hfirst hlast
    by_cases heq : row = lo
    · rwa [heq]
    · exact hhead.inside row (by omega) hlast
  · intro r hr
    have hbelow : last < r.1 := hlt r hr
    exact (hmore r hr).with_row fun heq => by omega
  · intro row hlower hupper hrow
    by_cases heq : row = lo
    · exact ⟨(lo, last), List.mem_cons_self, by omega, by omega⟩
    · obtain ⟨r, hr, hfirst, hlast⟩ := h.covers row (by omega) hupper hrow
      rcases List.mem_cons.1 hr with rfl | hr
      · exact ⟨(lo, last), List.mem_cons_self, hlower, hlast⟩
      · exact ⟨r, List.mem_cons_of_mem _ hr, hfirst, hlast⟩

/-- Runs are found row by row from the bottom; only the first one can go on above. -/
theorem areRuns_runsFrom (p : Nat → Bool) (n row : Nat) :
    AreRuns p row (row + n) (runsFrom p n row) := by
  induction n generalizing row with
  | zero => exact areRuns_nil p row
  | succ n ih =>
      have hrest := ih (row + 1)
      rw [Nat.add_right_comm, Nat.add_assoc] at hrest
      have hrow : row < row + (n + 1) := by omega
      rw [runsFrom]
      cases hp : p row with
      | false => exact hrest.skip hp
      | true =>
          rw [if_pos rfl]
          split
          · rename_i first last more hruns
            rw [hruns] at hrest
            split
            · rename_i hfirst
              rw [beq_iff_eq] at hfirst
              rw [hfirst] at hrest
              exact hrest.extend hp
            · rename_i hfirst
              rw [beq_iff_eq] at hfirst
              rw [hruns]
              refine hrest.start hrow hp (List.forall_mem_cons.2 ⟨hfirst, fun r hr => ?_⟩)
              have hhead := hrest.each (first, last) List.mem_cons_self
              have hlower : row + 1 ≤ first := hhead.lower
              have hordered : first ≤ last := hhead.ordered
              have hlt : last < r.1 := (List.pairwise_cons.1 hrest.apart).1 r hr
              omega
          · rename_i hruns
            rw [hruns] at hrest
            exact hrest.start hrow hp (by simp)

end Runs

/-! ## Rows with content -/

/-- The row is blank, or the text has no such row. -/
def isBlankRow (ls : List String) (row : Nat) : Bool :=
  isBlankString ((ls[row]?).getD "")

/-- The rows with content from `first` to `last`. -/
def inkedRows (blank : Nat → Bool) (first last : Nat) : List Nat :=
  (List.range' first (last + 1 - first)).filter (!blank ·)

theorem mem_inkedRows {blank : Nat → Bool} {first last row : Nat} :
    row ∈ inkedRows blank first last ↔ first ≤ row ∧ row ≤ last ∧ blank row = false := by
  simp only [inkedRows, List.mem_filter, List.mem_range'_1, Bool.not_eq_true']
  constructor
  · rintro ⟨⟨hfirst, hlast⟩, hink⟩
    exact ⟨hfirst, by omega, hink⟩
  · rintro ⟨hfirst, hlast, hink⟩
    exact ⟨⟨hfirst, by omega⟩, hink⟩

theorem pairwise_inkedRows (blank : Nat → Bool) (first last : Nat) :
    (inkedRows blank first last).Pairwise (· < ·) :=
  List.Pairwise.filter _ List.pairwise_lt_range'

theorem trimRows_eq (blank : Nat → Bool) (first last : Nat) :
    trimRows blank first last =
      match (inkedRows blank first last).head?, (inkedRows blank first last).getLast? with
      | some a, some b => some (a, b)
      | _, _ => none := by
  have hinked : inkedRows blank first last =
      ((List.range (last + 1 - first)).map (first + ·)).filter (!blank ·) :=
    congrArg (List.filter (!blank ·)) List.range'_eq_map_range
  exact hinked ▸ rfl

/-- Without content there is nothing left. -/
theorem trimRows_eq_none {blank : Nat → Bool} {first last : Nat}
    (h : trimRows blank first last = none) : inkedRows blank first last = [] := by
  rw [trimRows_eq] at h
  cases hrows : inkedRows blank first last with
  | nil => rfl
  | cons row rows =>
      rw [hrows, List.head?_cons, List.getLast?_cons] at h
      cases h

/-- The rows with content from the first to the last of them are all of them. -/
theorem inkedRows_eq {blank : Nat → Bool} {first last a b : Nat} (hfirst : first ≤ a)
    (hab : a ≤ b) (hlast : b ≤ last)
    (hall : ∀ row ∈ inkedRows blank first last, a ≤ row ∧ row ≤ b) :
    inkedRows blank a b = inkedRows blank first last := by
  have hsplit : List.range' first (last + 1 - first) =
      List.range' first (a - first) ++
        (List.range' a (b + 1 - a) ++ List.range' (b + 1) (last - b)) := by
    obtain ⟨m, rfl⟩ := Nat.exists_eq_add_of_le hfirst
    obtain ⟨n, rfl⟩ := Nat.exists_eq_add_of_le hab
    obtain ⟨k, rfl⟩ := Nat.exists_eq_add_of_le hlast
    have hm : first + m - first = m := by omega
    have hn : first + m + n + 1 - (first + m) = n + 1 := by omega
    have hk : first + m + n + k - (first + m + n) = k := by omega
    have hall : first + m + n + k + 1 - first = m + (n + 1 + k) := by omega
    rw [hm, hn, hk, hall, Nat.add_assoc (first + m) n 1, List.range'_append_1,
      List.range'_append_1]
  have hnone : ∀ n m, (∀ row, n ≤ row → row < n + m → first ≤ row ∧ row ≤ last ∧
      (row < a ∨ b < row)) → (List.range' n m).filter (!blank ·) = [] := by
    intro n m hrows
    rw [List.filter_eq_nil_iff]
    intro row hrow hink
    rw [List.mem_range'_1] at hrow
    obtain ⟨hlower, hupper, hout⟩ := hrows row hrow.1 hrow.2
    have hin := hall row (mem_inkedRows.2 ⟨hlower, hupper, by simpa using hink⟩)
    omega
  unfold inkedRows
  rw [hsplit, List.filter_append, List.filter_append, hnone first, hnone (b + 1),
    List.nil_append, List.append_nil] <;> omega

/-- What is left starts and ends with content and has all of it. -/
theorem trimRows_eq_some {blank : Nat → Bool} {first last a b : Nat}
    (h : trimRows blank first last = some (a, b)) :
    (first ≤ a ∧ a ≤ b ∧ b ≤ last) ∧ (blank a = false ∧ blank b = false) ∧
      inkedRows blank a b = inkedRows blank first last := by
  have hpairwise := pairwise_inkedRows blank first last
  rw [trimRows_eq] at h
  split at h
  · rename_i a' b' ha hb
    cases h
    obtain ⟨hfirst, -, hinka⟩ := mem_inkedRows.1 (List.mem_of_head? ha)
    obtain ⟨-, hlast, hinkb⟩ := mem_inkedRows.1 (List.mem_of_getLast? hb)
    have hall : ∀ row ∈ inkedRows blank first last, a ≤ row ∧ row ≤ b := by
      intro row hrow
      constructor
      · obtain ⟨rows, hrows⟩ := List.head?_eq_some_iff.1 ha
        rw [hrows] at hrow hpairwise
        rcases List.mem_cons.1 hrow with rfl | hrow
        · exact Nat.le_refl _
        · exact Nat.le_of_lt ((List.pairwise_cons.1 hpairwise).1 row hrow)
      · obtain ⟨rows, hrows⟩ := List.getLast?_eq_some_iff.1 hb
        rw [hrows] at hrow hpairwise
        rcases List.mem_append.1 hrow with hrow | hrow
        · exact Nat.le_of_lt ((List.pairwise_append.1 hpairwise).2.2 row hrow b (by simp))
        · exact Nat.le_of_eq (List.mem_singleton.1 hrow)
    have hab := (hall b (List.mem_of_getLast? hb)).1
    exact ⟨⟨hfirst, hab, hlast⟩, ⟨hinka, hinkb⟩, inkedRows_eq hfirst hab hlast hall⟩
  · cases h

/-- The rows of a text that has them all. -/
theorem take_drop_eq_map (ls : List String) {first count : Nat} (h : first + count ≤ ls.length) :
    (ls.drop first).take count = (List.range' first count).map fun row => (ls[row]?).getD "" := by
  apply List.ext_getElem?
  intro i
  by_cases hi : i < count
  · have hrow : first + i < ls.length := by omega
    rw [List.getElem?_take_of_lt hi, List.getElem?_drop, List.getElem?_map,
      List.getElem?_range' hi, List.getElem?_eq_getElem hrow]
    simp [hrow]
  · rw [List.getElem?_eq_none (by rw [List.length_take]; omega),
      List.getElem?_eq_none (by rw [List.length_map, List.length_range']; omega)]

theorem length_filter_rows (ls : List String) {first last : Nat} (hordered : first ≤ last)
    (hlast : last < ls.length) :
    (((ls.drop first).take (last + 1 - first)).filter (!isBlankString ·)).length =
      (inkedRows (isBlankRow ls) first last).length := by
  rw [take_drop_eq_map ls (by omega), List.filter_map, List.length_map]
  rfl

/-! ## The chunk of a run -/

/-- The chunk has the lines of a run, but for the blank ones at its ends, and there are enough
with content. -/
structure Fills (limits : ChunkLimits) (ls : List String) (run : Nat × Nat) (c : Chunk)
    (first last : Nat) : Prop where
  lines : c.startLine = first + 1 ∧ c.endLine = last + 1
  content : c.content = limits.truncate (rowsText ls first last)
  rows : run.1 ≤ first ∧ first ≤ last ∧ last ≤ run.2
  ends : isBlankRow ls first = false ∧ isBlankRow ls last = false
  same : inkedRows (isBlankRow ls) first last = inkedRows (isBlankRow ls) run.1 run.2
  enough : limits.minModuleLines ≤ (inkedRows (isBlankRow ls) first last).length

variable {limits : ChunkLimits} {ls : List String} {a : Outline.Assignment} {run : Nat × Nat}

theorem moduleChunk?_eq_some {c : Chunk} (hrun : run.2 < ls.length)
    (h : moduleChunk? limits ls a run = some c) :
    ∃ first last, Fills limits ls run c first last := by
  obtain ⟨⟨first, last⟩, htrim, hchunk⟩ := Option.bind_eq_some_iff.1 h
  obtain ⟨hrows, hends, hsame⟩ := trimRows_eq_some htrim
  dsimp only at hchunk
  split at hchunk
  · cases hchunk
  · rename_i henough
    cases hchunk
    rw [length_filter_rows ls hrows.2.1 (by omega)] at henough
    exact ⟨first, last, ⟨rfl, rfl⟩, rfl, hrows, hends, hsame, Nat.le_of_not_lt henough⟩

/-- A run without a chunk has too little content. -/
theorem moduleChunk?_eq_none (hrun : run.2 < ls.length) (h : moduleChunk? limits ls a run = none) :
    inkedRows (isBlankRow ls) run.1 run.2 = [] ∨
      (inkedRows (isBlankRow ls) run.1 run.2).length < limits.minModuleLines := by
  cases htrim : trimRows (isBlankRow ls) run.1 run.2 with
  | none => exact Or.inl (trimRows_eq_none htrim)
  | some rows =>
      obtain ⟨first, last⟩ := rows
      obtain ⟨hrows, -, hsame⟩ := trimRows_eq_some htrim
      refine Or.inr ?_
      rw [← hsame, ← length_filter_rows ls hrows.2.1 (by omega)]
      change (trimRows (isBlankRow ls) run.1 run.2).bind _ = none at h
      rw [htrim, Option.bind_some] at h
      dsimp only at h
      split at h
      · assumption
      · cases h

end CodeIndex.ParsedFile

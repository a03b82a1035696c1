import CodeIndex.Proofs.Text.Lines
import CodeIndex.Syntax.Tree
import Mathlib.Data.List.Basic
/-!
# The rows of a node

A node that covers some characters of a text owns rows that the text has. A text is taken apart
into what comes before the node, what the node covers, and what follows.
-/

namespace CodeIndex.Syntax

open Text

/-! ## Offsets in bytes -/

def byteLength : List Char → Nat
  | [] => 0
  | c :: cs => c.utf8Size + byteLength cs

@[simp] theorem byteLength_nil : byteLength [] = 0 := rfl

@[simp] theorem byteLength_cons (c : Char) (cs : List Char) :
    byteLength (c :: cs) = c.utf8Size + byteLength cs := rfl

@[simp] theorem byteLength_append (as bs : List Char) :
    byteLength (as ++ bs) = byteLength as + byteLength bs := by
  induction as with
  | nil => simp
  | cons c as ih =>
      rw [List.cons_append, byteLength_cons, ih, byteLength_cons, Nat.add_assoc]

theorem byteLength_cons_beq_zero (c : Char) (cs : List Char) :
    (byteLength (c :: cs) == 0) = false := by
  have hc := c.utf8Size_pos
  rw [byteLength_cons, beq_eq_false_iff_ne]
  omega

theorem byteLength_cons_sub (c : Char) (cs : List Char) :
    byteLength (c :: cs) - c.utf8Size = byteLength cs := by
  rw [byteLength_cons, Nat.add_sub_cancel_left]

theorem dropBytes_eq_some {cs rest : List Char} {n : Nat} (h : dropBytes cs n = some rest) :
    ∃ before, cs = before ++ rest ∧ n = byteLength before := by
  fun_induction dropBytes cs n with
  | case1 cs =>
      cases h
      exact ⟨[], rfl, rfl⟩
  | case2 => cases h
  | case3 c cs n hsize ih =>
      obtain ⟨before, rfl, hn⟩ := ih h
      refine ⟨c :: before, rfl, ?_⟩
      rw [byteLength_cons]
      omega
  | case4 => cases h

theorem takeBytes_eq_some {cs front : List Char} {n : Nat} (h : takeBytes cs n = some front) :
    ∃ rest, cs = front ++ rest ∧ n = byteLength front := by
  fun_induction takeBytes cs n generalizing front with
  | case1 cs =>
      cases h
      exact ⟨cs, rfl, rfl⟩
  | case2 => cases h
  | case3 c cs n hsize ih =>
      obtain ⟨front, hfront, rfl⟩ := Option.map_eq_some_iff.1 h
      obtain ⟨rest, rfl, hn⟩ := ih hfront
      refine ⟨rest, rfl, ?_⟩
      rw [byteLength_cons]
      omega
  | case4 => cases h

theorem slice?_eq_some {text cs : List Char} {start stop : Nat}
    (h : slice? text start stop = some cs) :
    ∃ before after, text = before ++ cs ++ after ∧ start = byteLength before ∧
      stop = byteLength (before ++ cs) := by
  unfold slice? at h
  split at h
  · rename_i hle
    obtain ⟨rest, hdrop, htake⟩ := Option.bind_eq_some_iff.1 h
    obtain ⟨before, rfl, hstart⟩ := dropBytes_eq_some hdrop
    obtain ⟨after, rfl, hlength⟩ := takeBytes_eq_some htake
    refine ⟨before, after, by rw [List.append_assoc], hstart, ?_⟩
    rw [byteLength_append]
    omega
  · cases h

/-! ## Rows and columns -/

theorem rowAt_append (before after : List Char) :
    rowAt (before ++ after) (byteLength before) = before.count '\n' := by
  induction before with
  | nil => cases after <;> rfl
  | cons c before ih =>
      rw [List.cons_append, rowAt, byteLength_cons_beq_zero, if_neg Bool.false_ne_true,
        byteLength_cons_sub, ih, List.count_cons]
      omega

theorem columnFrom_eq_zero_iff (seen : Nat) (before after : List Char) :
    columnFrom seen (before ++ after) (byteLength before) = 0 ↔
      (before = [] ∧ seen = 0) ∨ before.getLast? = some '\n' := by
  induction before generalizing seen with
  | nil => cases after <;> simp [columnFrom]
  | cons c before ih =>
      have hc := c.utf8Size_pos
      rw [List.cons_append, columnFrom, byteLength_cons_beq_zero, if_neg Bool.false_ne_true,
        byteLength_cons_sub, ih]
      cases before with
      | nil =>
          by_cases hnewline : c = '\n'
          · simp [hnewline]
          · have hseen : ¬ (seen = 0 ∧ c.utf8Size = 0) := by omega
            simpa [hnewline] using hseen
      | cons d before => simp [List.getLast?_cons_cons]

theorem columnAt_eq_zero_iff {before : List Char} (hbefore : before ≠ []) (after : List Char) :
    columnAt (before ++ after) (byteLength before) = 0 ↔ before.getLast? = some '\n' := by
  rw [columnAt, columnFrom_eq_zero_iff]
  simp [hbefore]

theorem count_newline_pos {cs : List Char} (hend : cs.getLast? = some '\n') :
    0 < cs.count '\n' :=
  List.count_pos_iff.2 (List.mem_of_getLast? hend)

/-! ## Trees that are laid out over a text -/

/-- The node covers some characters of the text, and its children lie inside it, one after the
other. -/
structure Node.Fits (source : List Char) (n : Node) : Prop where
  text : ∃ cs, cs ≠ [] ∧ n.text? source = some cs
  nested : ∀ c ∈ n.children, n.start ≤ c.start ∧ c.stop ≤ n.stop
  ordered : n.children.Pairwise fun a b => a.stop ≤ b.start

mutual

/-- The node and all nodes below it satisfy `P`. -/
def Node.Throughout (P : Node → Prop) : Node → Prop
  | .mk named kind field start stop children =>
    P (.mk named kind field start stop children) ∧ ThroughoutAll P children

def ThroughoutAll (P : Node → Prop) : List Node → Prop
  | [] => True
  | c :: cs => c.Throughout P ∧ ThroughoutAll P cs

end

/-- All nodes of the tree are laid out over the text. -/
def Node.IsLaidOut (source : List Char) (root : Node) : Prop :=
  root.Throughout (Node.Fits source)

instance (source : List Char) (n : Node) : Decidable (n.Fits source) :=
  decidable_of_iff ((n.text? source).any (!·.isEmpty) = true ∧
      (∀ c ∈ n.children, n.start ≤ c.start ∧ c.stop ≤ n.stop) ∧
      n.children.Pairwise fun a b => a.stop ≤ b.start) <| by
    constructor
    · rintro ⟨htext, hnested, hordered⟩
      obtain ⟨cs, hcs, hsome⟩ := (Option.any_eq_true _ _).1 htext
      exact ⟨⟨cs, by simpa using hsome, hcs⟩, hnested, hordered⟩
    · rintro ⟨⟨cs, hcs, hsome⟩, hnested, hordered⟩
      exact ⟨(Option.any_eq_true _ _).2 ⟨cs, hsome, by simpa using hcs⟩, hnested, hordered⟩

section Decide

variable {P : Node → Prop} [DecidablePred P]

mutual

def Node.decideThroughout : (n : Node) → Decidable (n.Throughout P)
  | .mk named kind field start stop children =>
    have := decideThroughoutAll children
    inferInstanceAs (Decidable (P (.mk named kind field start stop children) ∧
      ThroughoutAll P children))

def decideThroughoutAll : (ns : List Node) → Decidable (ThroughoutAll P ns)
  | [] => isTrue trivial
  | c :: cs =>
    have := c.decideThroughout
    have := decideThroughoutAll cs
    inferInstanceAs (Decidable (c.Throughout P ∧ ThroughoutAll P cs))

end

instance (n : Node) : Decidable (n.Throughout P) :=
  n.decideThroughout

end Decide

instance (source : List Char) (root : Node) : Decidable (root.IsLaidOut source) :=
  inferInstanceAs (Decidable (root.Throughout (Node.Fits source)))

theorem Node.Throughout.here {P : Node → Prop} {n : Node} (h : n.Throughout P) : P n := by
  cases n
  exact h.1

theorem Node.Throughout.below {P : Node → Prop} {n : Node} (h : n.Throughout P) :
    ThroughoutAll P n.children := by
  cases n
  exact h.2

namespace Node.Fits

variable {source : List Char} {n : Node} (h : n.Fits source)

include h

/-- The text around a node, and the rows that it owns: from that of its first character to that
of its last one. -/
theorem rows_eq : ∃ before cs after, cs ≠ [] ∧ source = before ++ cs ++ after ∧
    n.rows source = (before.count '\n',
      if cs.getLast? = some '\n' then (before ++ cs).count '\n' - 1
      else (before ++ cs).count '\n') := by
  obtain ⟨cs, hcs, htext⟩ := h.text
  obtain ⟨before, after, rfl, hstart, hstop⟩ := slice?_eq_some htext
  refine ⟨before, cs, after, hcs, rfl, ?_⟩
  have hfirst : n.startRow (before ++ cs ++ after) = before.count '\n' := by
    rw [startRow, hstart, List.append_assoc, rowAt_append]
  have hlast : n.stopRow (before ++ cs ++ after) = (before ++ cs).count '\n' := by
    rw [stopRow, hstop, rowAt_append]
  have hcolumn : columnAt (before ++ cs ++ after) n.stop = 0 ↔ cs.getLast? = some '\n' := by
    rw [hstop, columnAt_eq_zero_iff (by simp [hcs]), List.getLast?_append_of_ne_nil _ hcs]
  unfold rows
  dsimp only
  rw [hfirst, hlast]
  by_cases hend : cs.getLast? = some '\n'
  · have hnewline := count_newline_pos hend
    have hlt : before.count '\n' < (before ++ cs).count '\n' := by
      rw [List.count_append]
      omega
    rw [hcolumn.2 hend, decide_eq_true hlt, if_pos hend]
    rfl
  · rw [beq_false_of_ne (mt hcolumn.1 hend), if_neg hend]
    rfl

theorem rows_le : (n.rows source).1 ≤ (n.rows source).2 := by
  obtain ⟨before, cs, after, -, -, hrows⟩ := h.rows_eq
  rw [hrows]
  dsimp only
  split
  · rename_i hend
    have hnewline := count_newline_pos hend
    rw [List.count_append]
    omega
  · rw [List.count_append]
    omega

theorem rows_lt : (n.rows source).2 < (lines source).length := by
  obtain ⟨before, cs, after, hcs, rfl, hrows⟩ := h.rows_eq
  rw [hrows]
  dsimp only
  split
  · rename_i hend
    have hnewline := count_newline_pos hend
    have hle := count_le_length_lines (before ++ cs) after
    rw [List.count_append] at hle ⊢
    omega
  · rename_i hend
    obtain ⟨c, hlast⟩ := Option.ne_none_iff_exists'.1 (mt List.getLast?_eq_none_iff.1 hcs)
    have hc : c ≠ '\n' := fun hnewline => hend (hnewline ▸ hlast)
    apply count_lt_length_lines _ hc
    rw [List.getLast?_append_of_ne_nil _ hcs, hlast]

end Node.Fits

end CodeIndex.Syntax

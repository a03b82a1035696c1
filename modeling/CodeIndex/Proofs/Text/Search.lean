import CodeIndex.Text.Search
import Mathlib.Data.List.Basic
import Mathlib.Data.List.Infix
/-!
# Occurrences in a text

Where a text is cut at the first, the last or each occurrence of another one, and what replacing
all occurrences does to a text whose beginning is known. An occurrence is recognised by its first
character: before it nothing is found, and nothing is replaced.
-/

namespace CodeIndex.Text

variable {w a b cs rest : List Char} {c x : Char}

/-! ## The start of a text -/

theorem stripStart_eq_some_iff : stripStart w cs = some rest ↔ cs = w ++ rest := by
  induction w generalizing cs with
  | nil => simp [stripStart]
  | cons x w ih =>
      cases cs with
      | nil => simp [stripStart]
      | cons c cs =>
          by_cases hxc : x = c
          · simp [stripStart, hxc, ih]
          · simp [stripStart, hxc, Ne.symm hxc]

theorem stripStart_append (w rest : List Char) : stripStart w (w ++ rest) = some rest :=
  stripStart_eq_some_iff.2 rfl

theorem stripStart_cons_of_ne (hc : c ≠ x) (w cs : List Char) :
    stripStart (x :: w) (c :: cs) = none := by
  simp [stripStart, hc.symm]

theorem stripEnd_append (cs w : List Char) : stripEnd w (cs ++ w) = some cs := by
  rw [stripEnd, List.reverse_append, stripStart_append, Option.map_some, List.reverse_reverse]

theorem stripEnd_eq_some_iff : stripEnd w cs = some rest ↔ cs = rest ++ w := by
  constructor
  · intro h
    obtain ⟨front, hfront, rfl⟩ := Option.map_eq_some_iff.1 h
    rw [← List.reverse_inj, stripStart_eq_some_iff.1 hfront, List.reverse_append,
      List.reverse_reverse]
  · rintro rfl
    exact stripEnd_append rest w

theorem stripEnd_eq_none (hx : x ∉ cs.getLast?) (w : List Char) :
    stripEnd (w ++ [x]) cs = none := by
  rw [stripEnd, List.reverse_append, List.reverse_singleton, List.singleton_append]
  rcases List.eq_nil_or_concat cs with rfl | ⟨init, c, rfl⟩
  · rfl
  · have hc : c ≠ x := by
      rintro rfl
      simp at hx
    rw [List.concat_eq_append, List.reverse_append, List.reverse_singleton, List.singleton_append,
      stripStart_cons_of_ne hc, Option.map_none]

/-! ## The first and the last occurrence -/

theorem splitFirst_append (hx : x ∉ a) (w b : List Char) :
    splitFirst (x :: w) (a ++ (x :: w ++ b)) = some (a, b) := by
  induction a with
  | nil =>
      have hstrip := stripStart_append (x :: w) b
      rw [List.cons_append] at hstrip
      rw [List.nil_append, List.cons_append, splitFirst, hstrip]
  | cons c a ih =>
      rw [List.mem_cons, not_or] at hx
      rw [List.cons_append, splitFirst, stripStart_cons_of_ne (Ne.symm hx.1), ih hx.2]
      rfl

theorem splitFirst_eq_none (hx : x ∉ cs) (w : List Char) : splitFirst (x :: w) cs = none := by
  induction cs with
  | nil => rfl
  | cons c cs ih =>
      rw [List.mem_cons, not_or] at hx
      rw [splitFirst, stripStart_cons_of_ne (Ne.symm hx.1), ih hx.2]
      rfl

theorem splitFirst_singleton : splitFirst [x] cs = some (a, b) ↔ cs = a ++ x :: b ∧ x ∉ a := by
  constructor
  · intro h
    by_cases hx : x ∈ cs
    · obtain ⟨front, back, rfl, hfront⟩ := List.eq_append_cons_of_mem hx
      have hsplit : splitFirst [x] (front ++ x :: back) = some (front, back) :=
        splitFirst_append hfront [] back
      rw [hsplit] at h
      cases h
      exact ⟨rfl, hfront⟩
    · rw [splitFirst_eq_none hx] at h
      cases h
  · rintro ⟨rfl, hx⟩
    exact splitFirst_append hx [] b

theorem splitLast_append (hx : x ∉ b) (a w : List Char) :
    splitLast (w ++ [x]) (a ++ (w ++ [x]) ++ b) = some (a, b) := by
  have hsplit := splitFirst_append (List.mem_reverse.not.2 hx) w.reverse a.reverse
  have hw : (w ++ [x]).reverse = x :: w.reverse := by simp
  have hwhole : (a ++ (w ++ [x]) ++ b).reverse = b.reverse ++ (x :: w.reverse ++ a.reverse) := by
    simp
  rw [splitLast, hw, hwhole, hsplit]
  simp

theorem splitLast_eq_none (hx : x ∉ cs) (w : List Char) : splitLast (w ++ [x]) cs = none := by
  rw [splitLast, List.reverse_append, List.reverse_singleton, List.singleton_append,
    splitFirst_eq_none (List.mem_reverse.not.2 hx), Option.map_none]

theorem splitLast_singleton : splitLast [x] cs = some (a, b) ↔ cs = a ++ x :: b ∧ x ∉ b := by
  have hreverse : splitLast [x] cs = some (a, b) ↔
      splitFirst [x] cs.reverse = some (b.reverse, a.reverse) := by
    unfold splitLast
    rw [List.reverse_singleton, Option.map_eq_some_iff]
    constructor
    · rintro ⟨⟨b', a'⟩, hsplit, heq⟩
      cases heq
      rw [hsplit, List.reverse_reverse, List.reverse_reverse]
    · intro hsplit
      exact ⟨_, hsplit, by simp⟩
  rw [hreverse, splitFirst_singleton, List.mem_reverse, ← List.reverse_inj]
  simp

theorem exists_splitLast_of_mem (hx : x ∈ cs) : ∃ a b, cs = a ++ x :: b ∧ x ∉ b := by
  obtain ⟨back, front, hreverse, hback⟩ := List.eq_append_cons_of_mem (List.mem_reverse.2 hx)
  refine ⟨front.reverse, back.reverse, ?_, List.mem_reverse.not.2 hback⟩
  rw [← List.reverse_inj, hreverse]
  simp

theorem hasPart_eq_true_iff : hasPart w cs = true ↔ w <:+: cs := by
  induction cs with
  | nil =>
      rw [hasPart, splitFirst, Option.isSome_map, Option.isSome_iff_exists]
      simp [stripStart_eq_some_iff]
  | cons c cs ih =>
      rw [hasPart, splitFirst, List.infix_cons_iff, ← ih]
      cases hstrip : stripStart w (c :: cs) with
      | none =>
          have hnot : ¬w <+: c :: cs := by
            rintro ⟨rest, hrest⟩
            rw [stripStart_eq_some_iff.2 hrest.symm] at hstrip
            cases hstrip
          simp [hnot, hasPart]
      | some rest => simp [stripStart_eq_some_iff.1 hstrip]

/-! ## Pieces -/

theorem pieces_eq_splitOnP (p : Char → Bool) (cs : List Char) : pieces p cs = cs.splitOnP p := by
  induction cs with
  | nil => rw [pieces, List.splitOnP_nil]
  | cons c cs ih =>
      obtain ⟨v, vs, hv⟩ := List.exists_cons_of_ne_nil (List.splitOnP_ne_nil p cs)
      rw [pieces, List.splitOnP_cons_eq_if_modifyHead, ih, hv]
      rfl

theorem pieces_append_cons {p : Char → Bool} (hc : p c = true) (a b : List Char) :
    pieces p (a ++ c :: b) = pieces p a ++ pieces p b := by
  simp only [pieces_eq_splitOnP]
  exact List.splitOnP_append_cons a b hc

theorem pieces_append {p : Char → Bool} {v : List Char} {vs : List (List Char)}
    (ha : ∀ c ∈ a, p c = false) (hcs : pieces p cs = v :: vs) :
    pieces p (a ++ cs) = (a ++ v) :: vs := by
  induction a with
  | nil => exact hcs
  | cons c a ih =>
      rw [List.forall_mem_cons] at ha
      rw [List.cons_append, pieces, ha.1, if_neg Bool.false_ne_true, ih ha.2]
      rfl

theorem pieces_eq_singleton {p : Char → Bool} (hcs : ∀ c ∈ cs, p c = false) :
    pieces p cs = [cs] := by
  rw [pieces_eq_splitOnP]
  exact List.splitOnP_eq_singleton hcs

theorem beq_of_not_mem (hx : x ∉ cs) : ∀ c ∈ cs, (c == x) = false := by
  intro c hc
  rw [beq_eq_false_iff_ne]
  rintro rfl
  exact hx hc

/-! ## Replacing -/

theorem replaceFrom_eq_drop (old new : List Char) (skip : Nat) (cs : List Char) :
    replaceFrom old new skip cs = replaceAll old new (cs.drop skip) := by
  induction skip generalizing cs with
  | zero => rfl
  | succ skip ih =>
      cases cs with
      | nil => simp [replaceFrom, replaceAll]
      | cons c cs => exact ih cs

theorem replaceAll_append (hx : x ∉ a) (old new cs : List Char) :
    replaceAll (x :: old) new (a ++ cs) = a ++ replaceAll (x :: old) new cs := by
  induction a with
  | nil => rfl
  | cons c a ih =>
      rw [List.mem_cons, not_or] at hx
      rw [List.cons_append, replaceAll, replaceFrom, stripStart_cons_of_ne (Ne.symm hx.1),
        List.cons_append, ← ih hx.2]
      rfl

theorem replaceAll_eq_self (hx : x ∉ cs) (old new : List Char) :
    replaceAll (x :: old) new cs = cs := by
  have hwhole := replaceAll_append hx old new []
  have hnil : replaceAll (x :: old) new [] = [] := by rw [replaceAll, replaceFrom.eq_def]
  rwa [hnil, List.append_nil] at hwhole

theorem replaceAll_occurrence (x : Char) (old new cs : List Char) :
    replaceAll (x :: old) new (x :: old ++ cs) = new ++ replaceAll (x :: old) new cs := by
  have hstrip := stripStart_append (x :: old) cs
  rw [List.cons_append] at hstrip
  rw [List.cons_append, replaceAll, replaceFrom, hstrip]
  simp [replaceFrom_eq_drop]

end CodeIndex.Text

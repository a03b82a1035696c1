import CodeIndex.Text.Blank
import Mathlib.Data.List.DropRight
import Mathlib.Data.List.Infix
/-!
# Trimming

A text without the blanks at its end is the beginning of it that ends in another character and has
nothing but blanks behind it. The longer the beginning of a text, the longer what is left of it.
-/

namespace CodeIndex.Text

variable {p : Char → Bool} {cs front back : List Char}

/-! ## Dropping from the end -/

theorem rdropWhile_append (p : Char → Bool) (front back : List Char) :
    (front ++ back).rdropWhile p =
      if back.rdropWhile p = [] then front.rdropWhile p else front ++ back.rdropWhile p := by
  simp only [List.rdropWhile, List.reverse_append, List.dropWhile_append, List.isEmpty_iff,
    List.reverse_eq_nil_iff]
  split <;> simp

theorem dropEnd_eq_rdropWhile (p : Char → Bool) (cs : List Char) :
    dropEnd p cs = cs.rdropWhile p := by
  induction cs with
  | nil => rfl
  | cons c cs ih =>
      have hcons := rdropWhile_append p [c] cs
      rw [List.singleton_append, List.rdropWhile_singleton] at hcons
      rw [dropEnd, ih, hcons]
      cases cs.rdropWhile p with
      | nil => simp
      | cons d ds => simp

theorem dropEnd_append (p : Char → Bool) (front back : List Char) :
    dropEnd p (front ++ back) =
      if dropEnd p back = [] then dropEnd p front else front ++ dropEnd p back := by
  simp only [dropEnd_eq_rdropWhile]
  exact rdropWhile_append p front back

theorem dropEnd_eq_nil (hback : ∀ c ∈ back, p c = true) : dropEnd p back = [] := by
  rw [dropEnd_eq_rdropWhile]
  exact List.rdropWhile_eq_nil_iff.2 hback

theorem dropEnd_eq_self (hlast : ∀ c, front.getLast? = some c → p c = false) :
    dropEnd p front = front := by
  rw [dropEnd_eq_rdropWhile, List.rdropWhile_eq_self_iff]
  intro hne
  simp [hlast _ (List.getLast?_eq_some_getLast hne)]

theorem exists_dropped (p : Char → Bool) (cs : List Char) :
    ∃ back, cs = dropEnd p cs ++ back ∧ ∀ c ∈ back, p c = true := by
  refine ⟨cs.rtakeWhile p, ?_, fun c hc => List.mem_rtakeWhile_imp hc⟩
  rw [dropEnd_eq_rdropWhile, List.rdropWhile_append_rtakeWhile]

theorem not_of_getLast?_dropEnd {c : Char} (hlast : (dropEnd p cs).getLast? = some c) :
    p c = false := by
  rw [dropEnd_eq_rdropWhile] at hlast
  have hne : cs.rdropWhile p ≠ [] := by
    intro hnil
    simp [hnil] at hlast
  rw [List.getLast?_eq_some_getLast hne, Option.some.injEq] at hlast
  simpa [hlast] using List.rdropWhile_last_not p cs hne

/-- What lies between characters that are dropped, and neither starts nor ends in one. -/
theorem dropAround_append (hfront : ∀ c ∈ front, p c = true)
    (hhead : ∀ c, cs.head? = some c → p c = false) (hlast : ∀ c, cs.getLast? = some c → p c = false)
    (hback : ∀ c ∈ back, p c = true) : dropAround p (front ++ cs ++ back) = cs := by
  have hrest : dropEnd p (cs ++ back) = cs := by
    rw [dropEnd_append, if_pos (dropEnd_eq_nil hback), dropEnd_eq_self hlast]
  rw [dropAround, dropStart, List.append_assoc, List.dropWhile_append_of_pos hfront]
  cases cs with
  | nil => rw [List.nil_append, List.dropWhile_eq_nil_iff.2 hback]; rfl
  | cons c cs => rw [List.cons_append, List.dropWhile_cons_of_neg (by simp [hhead c rfl]),
      ← List.cons_append, hrest]

theorem dropAround_eq_self (hcs : ∀ c ∈ cs, p c = false) : dropAround p cs = cs := by
  have hstart : dropStart p cs = cs := by
    cases cs with
    | nil => rfl
    | cons c cs => exact List.dropWhile_cons_of_neg (by simp [hcs c List.mem_cons_self])
  rw [dropAround, hstart, dropEnd_eq_self fun c hc => hcs c (List.mem_of_getLast? hc)]

/-! ## Beginnings of a text -/

theorem dropEnd_isPrefix (p : Char → Bool) (cs : List Char) :
    dropEnd p cs <+: cs := by
  obtain ⟨back, hcs, -⟩ := exists_dropped p cs
  exact ⟨back, hcs.symm⟩

theorem trimEnd_isPrefix (cs : List Char) :
    trimEnd cs <+: cs :=
  dropEnd_isPrefix isBlank cs

/-- What ends in a character that stays is not cut. -/
theorem isPrefix_dropEnd {c : Char} (hfront : front <+: cs) (hlast : front.getLast? = some c)
    (hc : p c = false) : front <+: dropEnd p cs := by
  obtain ⟨more, rfl⟩ := hfront
  have hself : dropEnd p front = front := by
    refine dropEnd_eq_self fun d hd => ?_
    rw [hlast, Option.some.injEq] at hd
    exact hd ▸ hc
  rw [dropEnd_append, hself]
  split
  · exact List.prefix_refl front
  · exact List.prefix_append front _

theorem dropEnd_isPrefix_dropEnd (hfront : front <+: cs) : dropEnd p front <+: dropEnd p cs := by
  cases hlast : (dropEnd p front).getLast? with
  | none =>
      rw [List.getLast?_eq_none_iff.1 hlast]
      exact List.nil_prefix
  | some c =>
      exact isPrefix_dropEnd ((dropEnd_isPrefix p front).trans hfront) hlast
        (not_of_getLast?_dropEnd hlast)

theorem not_of_head?_dropAround {c : Char} (hhead : (dropAround p cs).head? = some c) :
    p c = false := by
  obtain ⟨more, hmore⟩ := dropEnd_isPrefix p (dropStart p cs)
  have hstart : (cs.dropWhile p).head? = some c := by
    rw [dropAround] at hhead
    rw [← dropStart, ← hmore, List.head?_append, hhead, Option.some_or]
  have hnot := List.head?_dropWhile_not p cs
  rw [hstart] at hnot
  exact hnot

/-! ## Blanks at the end -/

/-- The text is the other one without the blanks at its end. -/
structure IsTrimmed (cs front : List Char) : Prop where
  blanks : ∃ back, cs = front ++ back ∧ allBlank back = true
  inked : ∀ c, front.getLast? = some c → isBlank c = false

theorem isTrimmed_trimEnd (cs : List Char) : IsTrimmed cs (trimEnd cs) := by
  obtain ⟨back, hcs, hback⟩ := exists_dropped isBlank cs
  exact ⟨⟨back, hcs, List.all_eq_true.2 hback⟩, fun c hlast => not_of_getLast?_dropEnd hlast⟩

theorem IsTrimmed.trimEnd_eq (h : IsTrimmed cs front) : trimEnd cs = front := by
  obtain ⟨back, rfl, hback⟩ := h.blanks
  rw [trimEnd, dropEnd_append, if_pos (dropEnd_eq_nil (List.all_eq_true.1 hback)),
    dropEnd_eq_self h.inked]

end CodeIndex.Text

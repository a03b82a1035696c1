import CodeIndex.Proofs.Context.Fit
/-!
# What a budget leaves of a text

A text that is cut to a number of tokens keeps its first characters, or those of them that stand
before the last newline when that gives up no more than half. More tokens never leave less: where
the longer cut ends at a newline, the shorter one ends before it or at the same one.
-/

namespace CodeIndex.Budget

open Text

/-! ## Where a text is cut -/

/-- What is left of a text that has room for so many characters, before blanks are trimmed. -/
inductive IsHead (keep : Nat) (cs : List Char) : List Char → Prop
  | line {before after : List Char} (hcut : cs.take keep = before ++ '\n' :: after)
      (hafter : '\n' ∉ after) (hhalf : keep ≤ 2 * before.length) : IsHead keep cs before
  | whole (hearly : ∀ before after, cs.take keep = before ++ '\n' :: after → '\n' ∉ after →
      2 * before.length < keep) : IsHead keep cs (cs.take keep)

theorem isHead_head (keep : Nat) (cs : List Char) : IsHead keep cs (head keep cs) := by
  by_cases hmem : '\n' ∈ cs.take keep
  · obtain ⟨before, after, hcut, hafter⟩ := exists_last_newline hmem
    by_cases hhalf : keep ≤ 2 * before.length
    · rw [head_of_newline hcut hafter, if_pos (by omega)]
      exact .line hcut hafter hhalf
    · rw [head_of_newline hcut hafter, if_neg (by omega)]
      refine .whole fun before' after' hcut' hafter' => ?_
      have hsame := beforeNewline_append before' hafter'
      rw [← hcut', hcut, beforeNewline_append before hafter, Option.some.injEq] at hsame
      subst hsame
      omega
  · rw [head_of_not_mem hmem]
    exact .whole fun before after hcut _ => absurd (hcut ▸ by simp) hmem

/-- The last newline of a text is the last one of every beginning of it that reaches so far. -/
theorem last_newline_of_isPrefix {front cs before after : List Char} (hfront : front <+: cs)
    (hcs : cs = before ++ '\n' :: after) (hafter : '\n' ∉ after)
    (hlength : before.length < front.length) :
    ∃ rest, front = before ++ '\n' :: rest ∧ '\n' ∉ rest := by
  have hbefore : before <+: cs := ⟨'\n' :: after, hcs.symm⟩
  obtain ⟨rest, rfl⟩ :=
    List.prefix_of_prefix_length_le hbefore hfront (Nat.le_of_lt hlength)
  obtain ⟨back, hback⟩ := hfront
  rw [hcs, List.append_assoc, List.append_cancel_left_eq] at hback
  cases rest with
  | nil => simp at hlength
  | cons c rest =>
      obtain ⟨rfl, rfl⟩ := List.cons.inj hback
      exact ⟨rest, rfl, fun hmem => hafter (List.mem_append_left back hmem)⟩

/-- Room for more characters leaves no less of a text. -/
theorem head_isPrefix_head {keep more : Nat} (h : keep ≤ more) (cs : List Char) :
    head keep cs <+: head more cs := by
  have hhead := head_isPrefix keep cs
  have hcuts : cs.take keep <+: cs.take more := List.take_prefix_take_left h
  have hmore := isHead_head more cs
  generalize head more cs = longer at hmore ⊢
  cases hmore with
  | whole => exact hhead.trans hcuts
  | line hcut hafter hhalf =>
      by_cases hlength : (cs.take keep).length ≤ longer.length
      · have hlonger : longer <+: cs.take more := ⟨_, hcut.symm⟩
        exact hhead.trans (List.prefix_of_prefix_length_le hcuts hlonger hlength)
      · -- that newline is far enough behind for the shorter cut to end there as well
        obtain ⟨rest, hrest, hnone⟩ :=
          last_newline_of_isPrefix hcuts hcut hafter (Nat.lt_of_not_le hlength)
        rw [head_of_newline hrest hnone, if_pos (by omega)]

theorem kept_isPrefix_kept {m n : Nat} (h : m ≤ n) (cs : List Char) : kept m cs <+: kept n cs :=
  dropEnd_isPrefix_dropEnd (head_isPrefix_head (by omega) cs)

/-! ## Texts that are fitted -/

/-- What is promised of a text that is fitted into so many tokens: the result, and whether something
was removed. -/
structure IsFitted (max : Nat) (text : String) (fitted : String × Bool) : Prop where
  within : tokensOf fitted.1 ≤ max
  flagged_iff : fitted.2 = true ↔ max < tokensOf text
  whole : fitted.2 = false → fitted.1 = text
  cut : fitted.2 = true → 0 < 4 * max - 16 → ∃ front part,
    IsHead (4 * max - 16) text.toList front ∧ IsTrimmed front part ∧
      fitted.1 = String.ofList part ++ "\n... [truncated]"
  bare : fitted.2 = true → 4 * max - 16 = 0 → 4 ≤ max → fitted.1 = "... [truncated]"
  nothing : fitted.2 = true → max < 4 → fitted.1 = ""

theorem fitString_eq (max : Nat) (text : String) :
    fitString max text = (String.ofList (fit max text.toList).1, (fit max text.toList).2) :=
  rfl

theorem isFitted_fitString (max : Nat) (text : String) :
    IsFitted max text (fitString max text) := by
  rw [fitString_eq]
  refine ⟨?_, fit_flag max text.toList, fun hflag => ?_, fun hflag hkeep => ?_,
    fun hflag hkeep hmax => ?_, fun hflag hmax => ?_⟩
  · rw [tokensOf, String.toList_ofList]
    exact tokens_fit_le max text.toList
  · have hfits : ¬ max < tokens text.toList := fun h => by simp [(fit_flag max _).2 h] at hflag
    rw [fit_of_le (Nat.le_of_not_lt hfits), String.ofList_toList]
  · have hkept : fit max text.toList = (kept max text.toList ++ truncationMark, true) :=
      fit_of_four_lt ((fit_flag max _).1 hflag) (by omega)
    refine ⟨head (4 * max - 16) text.toList, kept max text.toList, isHead_head _ _, ?_, ?_⟩
    · rw [kept, Nat.mul_comm max 4]
      exact isTrimmed_trimEnd _
    · rw [hkept, String.ofList_append]
      rfl
  · obtain rfl : max = 4 := by omega
    rw [fit_four ((fit_flag 4 _).1 hflag), bareMark_eq, String.ofList_toList]
  · rw [fit_of_lt_four ((fit_flag max _).1 hflag) hmax]

/-! ## More tokens -/

/-- The part of a text that a fitted text still shows: everything without the flag, otherwise what
stands before the mark, and nothing where the mark is not behind anything. -/
def shown (fitted : String × Bool) : List Char :=
  if fitted.2 then (fitted.1.toList.dropSuffix? truncationMark).getD [] else fitted.1.toList

theorem dropSuffix?_append (cs : List Char) :
    (cs ++ truncationMark).dropSuffix? truncationMark = some cs :=
  List.dropSuffix?_eq_some_iff.2 ⟨truncationMark, rfl, beq_self_eq_true _⟩

theorem dropSuffix?_of_short {cs : List Char} (h : cs.length < 16) :
    cs.dropSuffix? truncationMark = none := by
  cases hsuffix : cs.dropSuffix? truncationMark with
  | none => rfl
  | some part =>
      obtain ⟨mark, rfl, hmark⟩ := List.dropSuffix?_eq_some_iff.1 hsuffix
      rw [beq_iff_eq] at hmark
      rw [List.length_append, hmark, truncationMark_length] at h
      omega

theorem shown_of_le {max : Nat} {text : String} (h : tokensOf text ≤ max) :
    shown (fitString max text) = text.toList := by
  rw [fitString_eq, fit_of_le h]
  simp [shown]

theorem shown_of_four_lt {max : Nat} {text : String} (h : max < tokensOf text) (hmax : 4 < max) :
    shown (fitString max text) = kept max text.toList := by
  rw [fitString_eq, fit_of_four_lt h hmax]
  simp [shown, dropSuffix?_append, kept]

theorem shown_of_le_four {max : Nat} {text : String} (h : max < tokensOf text) (hmax : max ≤ 4) :
    shown (fitString max text) = [] := by
  rw [fitString_eq]
  rcases Nat.lt_or_eq_of_le hmax with hlt | rfl
  · rw [fit_of_lt_four h hlt]
    simp [shown, dropSuffix?_of_short]
  · rw [fit_four h]
    simp [shown, dropSuffix?_of_short, bareMark_eq]

/-- A larger budget never shows less. -/
theorem shown_isPrefix_shown {m n : Nat} (h : m ≤ n) (text : String) :
    shown (fitString m text) <+: shown (fitString n text) := by
  by_cases hm : tokensOf text ≤ m
  · rw [shown_of_le hm, shown_of_le (hm.trans h)]
  by_cases hfour : m ≤ 4
  · rw [shown_of_le_four (by omega) hfour]
    exact List.nil_prefix
  rw [shown_of_four_lt (by omega) (by omega)]
  by_cases hn : tokensOf text ≤ n
  · rw [shown_of_le hn]
    exact kept_isPrefix m text.toList
  · rw [shown_of_four_lt (by omega) (by omega)]
    exact kept_isPrefix_kept h text.toList

/-- The smaller budget cuts in the middle of a line that the larger one ends with. -/
theorem shown_isPrefix_shown_line :
    let text := "abcdefghij\nklmnopqrstuvwxyz 0123456789"
    6 ≤ 8 ∧ shown (fitString 6 text) = "abcdefgh".toList ∧
      shown (fitString 8 text) = "abcdefghij".toList ∧
      shown (fitString 6 text) <+: shown (fitString 8 text) := by
  intro text
  exact ⟨by decide, by decide +kernel, by decide +kernel, shown_isPrefix_shown (by decide) text⟩

end CodeIndex.Budget

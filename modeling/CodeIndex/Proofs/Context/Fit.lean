import CodeIndex.Context.Budget
import CodeIndex.Proofs.Text.Trimming
/-!
# Fitting a text into a number of tokens

A text of at most the given tokens is kept as it is. A longer one is cut so that the mark
fits behind it, down to the bare mark and, where not even that fits, to nothing.
-/

namespace CodeIndex

namespace Budget

open Text

/-! ## Tokens -/

theorem tokens_le_iff (cs : List Char) (n : Nat) :
    tokens cs ≤ n ↔ cs.length ≤ 4 * n := by
  unfold tokens charsPerToken
  omega

theorem tokens_nil : tokens [] = 0 := by
  simp [tokens, charsPerToken]

/-! ## The mark -/

theorem truncationMark_length : truncationMark.length = 16 := by
  decide

theorem bareMark_eq : bareMark = "... [truncated]".toList := by
  decide

theorem truncationMark_eq : truncationMark = '\n' :: bareMark := by
  decide

theorem tokens_bareMark : tokens bareMark = 4 := by
  decide

/-! ## Cutting -/

theorem beforeNewline_append (before : List Char) {after : List Char} (hafter : '\n' ∉ after) :
    beforeNewline (before ++ '\n' :: after) = some before := by
  have hdrop : (before ++ '\n' :: after).reverse.dropWhile (· != '\n') =
      '\n' :: before.reverse := by
    have hkept : ∀ c ∈ after.reverse, (c != '\n') = true := by
      intro c hc
      exact bne_iff_ne.2 fun h => hafter (h ▸ List.mem_reverse.1 hc)
    rw [List.reverse_append, List.reverse_cons, List.append_assoc,
      List.dropWhile_append_of_pos hkept]
    simp
  rw [beforeNewline, hdrop]
  simp

theorem beforeNewline_eq_none {cs : List Char} (h : '\n' ∉ cs) : beforeNewline cs = none := by
  have hdrop : cs.reverse.dropWhile (· != '\n') = [] := by
    refine List.dropWhile_eq_nil_iff.2 fun c hc => ?_
    exact bne_iff_ne.2 fun hc' => h (hc' ▸ List.mem_reverse.1 hc)
  rw [beforeNewline, hdrop]

theorem exists_last_newline {cs : List Char} (h : '\n' ∈ cs) :
    ∃ before after, cs = before ++ '\n' :: after ∧ '\n' ∉ after := by
  obtain ⟨after, before, hcs, hafter⟩ := List.eq_append_cons_of_mem (List.mem_reverse.2 h)
  refine ⟨before.reverse, after.reverse, ?_, by simpa using hafter⟩
  rw [← List.reverse_reverse cs, hcs]
  simp

theorem head_of_newline {keep : Nat} {cs before after : List Char}
    (hcut : cs.take keep = before ++ '\n' :: after) (hafter : '\n' ∉ after) :
    head keep cs = if keep ≤ before.length * 2 then before else cs.take keep := by
  unfold head
  dsimp only
  rw [hcut, beforeNewline_append before hafter]

theorem head_of_not_mem {keep : Nat} {cs : List Char} (h : '\n' ∉ cs.take keep) :
    head keep cs = cs.take keep := by
  unfold head
  dsimp only
  rw [beforeNewline_eq_none h]

theorem head_isPrefix (keep : Nat) (cs : List Char) :
    head keep cs <+: cs.take keep := by
  by_cases hmem : '\n' ∈ cs.take keep
  · obtain ⟨before, after, hcut, hafter⟩ := exists_last_newline hmem
    rw [head_of_newline hcut hafter]
    split
    · exact ⟨'\n' :: after, hcut.symm⟩
    · exact List.prefix_refl _
  · rw [head_of_not_mem hmem]

theorem length_head_le (keep : Nat) (cs : List Char) :
    (head keep cs).length ≤ keep := by
  have h := (head_isPrefix keep cs).length_le
  rw [List.length_take] at h
  omega

/-- A row that ends within what is kept stays whole. -/
theorem isPrefix_head {keep : Nat} {cs more : List Char} (h : cs.length < keep) :
    cs <+: head keep (cs ++ '\n' :: more) := by
  obtain ⟨k, rfl⟩ : ∃ k, keep = cs.length + (k + 1) := ⟨keep - cs.length - 1, by omega⟩
  have htake : (cs ++ '\n' :: more).take (cs.length + (k + 1)) = cs ++ '\n' :: more.take k := by
    rw [List.take_length_add_append, List.take_succ_cons]
  -- the last newline is the one behind the row or comes after it
  obtain ⟨before, after, hcut, hafter, hrow⟩ : ∃ before after,
      cs ++ '\n' :: more.take k = before ++ '\n' :: after ∧ '\n' ∉ after ∧ cs <+: before := by
    by_cases hmem : '\n' ∈ more.take k
    · obtain ⟨before, after, hcut, hafter⟩ := exists_last_newline hmem
      exact ⟨cs ++ '\n' :: before, after, by simp [hcut], hafter, List.prefix_append cs _⟩
    · exact ⟨cs, more.take k, rfl, hmem, List.prefix_refl cs⟩
  rw [head_of_newline (htake.trans hcut) hafter, htake]
  split
  · exact hrow
  · exact List.prefix_append _ _

/-- What is left of a text that is cut to so many tokens, the mark aside. -/
def kept (max : Nat) (cs : List Char) : List Char :=
  trimEnd (head (max * 4 - 16) cs)

theorem kept_isPrefix (max : Nat) (cs : List Char) : kept max cs <+: cs :=
  (trimEnd_isPrefix _).trans ((head_isPrefix _ cs).trans (List.take_prefix _ cs))

/-- A row that ends in ink is kept when the row and the mark are within the tokens. -/
theorem isPrefix_kept {max : Nat} {cs more : List Char} {c : Char}
    (h : cs.length + 16 < 4 * max) (hlast : cs.getLast? = some c) (hc : isBlank c = false) :
    cs <+: kept max (cs ++ '\n' :: more) :=
  isPrefix_dropEnd (isPrefix_head (by omega)) hlast hc

/-! ## Fitting -/

theorem fit_of_le {max : Nat} {cs : List Char} (h : tokens cs ≤ max) :
    fit max cs = (cs, false) := by
  rw [fit, if_pos h]

/-- A text that does not fit into fewer tokens than the mark has is dropped. -/
theorem fit_of_lt_four {max : Nat} {cs : List Char} (h : max < tokens cs) (hm : max < 4) :
    fit max cs = ([], true) := by
  have hroom : max * charsPerToken ≤ truncationMark.length := by
    rw [truncationMark_length, charsPerToken]
    omega
  rw [fit, if_neg (by omega), if_pos hroom, tokens_bareMark, if_neg (by omega)]

/-- With room for the mark and nothing else only the mark is left. -/
theorem fit_four {cs : List Char} (h : 4 < tokens cs) :
    fit 4 cs = (bareMark, true) := by
  have hroom : 4 * charsPerToken ≤ truncationMark.length := by
    decide
  rw [fit, if_neg (by omega), if_pos hroom, tokens_bareMark, if_pos (by omega)]

theorem fit_of_four_lt {max : Nat} {cs : List Char} (h : max < tokens cs) (hm : 4 < max) :
    fit max cs = (trimEnd (head (max * 4 - 16) cs) ++ truncationMark, true) := by
  have hroom : ¬max * charsPerToken ≤ truncationMark.length := by
    rw [truncationMark_length, charsPerToken]
    omega
  rw [fit, if_neg (by omega), if_neg hroom, truncationMark_length, charsPerToken]

/-- The flag says that the text has more tokens than there is room for. -/
theorem fit_flag (max : Nat) (cs : List Char) :
    (fit max cs).2 = true ↔ max < tokens cs := by
  unfold fit
  split
  · next h => simpa using h
  · next h =>
    split <;> simpa using h

/-- A fitted text is within its tokens, the mark included. -/
theorem tokens_fit_le (max : Nat) (cs : List Char) :
    tokens (fit max cs).1 ≤ max := by
  by_cases h : tokens cs ≤ max
  · rw [fit_of_le h]
    exact h
  have hmax : max < tokens cs := by omega
  rcases Nat.lt_trichotomy max 4 with hm | rfl | hm
  · rw [fit_of_lt_four hmax hm, tokens_nil]
    exact Nat.zero_le max
  · rw [fit_four hmax]
    exact Nat.le_of_eq tokens_bareMark
  · rw [fit_of_four_lt hmax hm, tokens_le_iff]
    have htrim := (trimEnd_isPrefix (head (max * 4 - 16) cs)).length_le
    have hhead := length_head_le (max * 4 - 16) cs
    rw [List.length_append, truncationMark_length]
    omega

/-- A text that was cut ends with the mark wherever the mark fits. -/
theorem fit_marked {max : Nat} {cs : List Char} (h : max < tokens cs) (hm : 4 ≤ max) :
    bareMark <:+ (fit max cs).1 := by
  rcases Nat.eq_or_lt_of_le hm with rfl | hlt
  · simp [fit_four h]
  · rw [fit_of_four_lt h hlt, truncationMark_eq]
    exact (List.suffix_cons _ _).trans (List.suffix_append _ _)

/-- Nothing is left of a text exactly when it does not fit and the mark does not either. -/
theorem fit_eq_nil_iff {cs : List Char} (max : Nat) (hcs : cs ≠ []) :
    (fit max cs).1 = [] ↔ (fit max cs).2 = true ∧ max < 4 := by
  rw [fit_flag]
  constructor
  · intro hnil
    have hflag : max < tokens cs := by
      by_cases h : tokens cs ≤ max
      · rw [fit_of_le h] at hnil
        exact absurd hnil hcs
      · omega
    refine ⟨hflag, ?_⟩
    by_cases hm : 4 ≤ max
    · have hmark := fit_marked hflag hm
      rw [hnil] at hmark
      exact absurd (List.eq_nil_of_suffix_nil hmark) (by decide)
    · omega
  · rintro ⟨hflag, hm⟩
    rw [fit_of_lt_four hflag hm]

end Budget

end CodeIndex

import CodeIndex.Chunk.Limits
import CodeIndex.Proofs.Text.Trimming
/-!
# Truncated chunks

The length of a chunk is the number of its characters other than blanks. Of a text that is too long
the shortest beginning with as many of them as are allowed is left, and marked. The mark is not
counted: a text that was cut stays as it is when it is cut again.
-/

namespace CodeIndex

namespace Text

variable {n : Nat} {cs front : List Char} {c : Char}

/-- The number of characters of a text other than blanks. -/
def ink (cs : List Char) : Nat :=
  cs.countP fun c => !isBlank c

theorem ink_append (front back : List Char) : ink (front ++ back) = ink front + ink back :=
  List.countP_append

theorem ink_cons_of_blank (hc : isBlank c = true) (cs : List Char) : ink (c :: cs) = ink cs :=
  List.countP_cons_of_neg (by simp [hc])

theorem ink_cons_of_not_blank (hc : isBlank c = false) (cs : List Char) :
    ink (c :: cs) = ink cs + 1 :=
  List.countP_cons_of_pos (by simp [hc])

theorem ink_eq_zero_iff : ink cs = 0 ↔ allBlank cs = true := by
  simp [ink, List.countP_eq_zero, allBlank]

theorem IsTrimmed.ink_eq (h : IsTrimmed cs front) : ink front = ink cs := by
  obtain ⟨back, rfl, hback⟩ := h.blanks
  rw [ink_append, ink_eq_zero_iff.2 hback, Nat.add_zero]

/-- A beginning of a text with so many characters other than blanks, and the shortest one. -/
structure IsShortest (n : Nat) (cs front : List Char) : Prop where
  isPrefix : front <+: cs
  ink_eq : ink front = n
  least : ∀ other, other <+: cs → ink other = n → front.length ≤ other.length

theorem isShortest_of_inked (hfront : front <+: cs) (hink : ink front = n)
    (hlast : ∀ c, front.getLast? = some c → isBlank c = false) : IsShortest n cs front := by
  refine ⟨hfront, hink, fun other hother hotherink => ?_⟩
  by_contra hlt
  obtain ⟨more, rfl⟩ := List.prefix_of_prefix_length_le hother hfront (by omega)
  -- a longer beginning has only blanks more, and yet does not end in one
  have hmore : allBlank more = true := by
    rw [ink_append] at hink
    exact ink_eq_zero_iff.1 (by omega)
  rcases List.eq_nil_or_concat more with rfl | ⟨init, c, rfl⟩
  · simp at hlt
  · have hc : isBlank c = false := hlast c (by simp)
    simp [allBlank, hc] at hmore

theorem IsShortest.eq_nil (h : IsShortest 0 cs front) : front = [] := by
  have hlength := h.least [] List.nil_prefix rfl
  exact List.length_eq_zero_iff.1 (Nat.le_zero.1 hlength)

end Text

open Text

variable {n : Nat} {cs front : List Char} {c : Char}

/-! ## Up to a character -/

theorem takeInked_cons_of_blank (hc : isBlank c = true) (n : Nat) (cs : List Char) :
    takeInked n (c :: cs) = (takeInked n cs).map (c :: ·) := by
  cases n <;> simp [takeInked, hc]

theorem takeInked_succ_cons (hc : isBlank c = false) (n : Nat) (cs : List Char) :
    takeInked (n + 1) (c :: cs) = (takeInked n cs).map (c :: ·) := by
  simp [takeInked, hc]

theorem takeInked_eq_none (h : ink cs ≤ n) : takeInked n cs = none := by
  induction cs generalizing n with
  | nil => rfl
  | cons c cs ih =>
      cases hc : isBlank c with
      | true =>
          rw [ink_cons_of_blank hc] at h
          rw [takeInked_cons_of_blank hc, ih h, Option.map_none]
      | false =>
          rw [ink_cons_of_not_blank hc] at h
          cases n with
          | zero => omega
          | succ n => rw [takeInked_succ_cons hc, ih (Nat.le_of_succ_le_succ h), Option.map_none]

theorem takeInked_append (hfront : ink front = n) (hc : isBlank c = false) (back : List Char) :
    takeInked n (front ++ c :: back) = some front := by
  induction front generalizing n with
  | nil =>
      obtain rfl : 0 = n := hfront
      simp [takeInked, hc]
  | cons d front ih =>
      rw [List.cons_append]
      cases hd : isBlank d with
      | true =>
          rw [ink_cons_of_blank hd] at hfront
          rw [takeInked_cons_of_blank hd, ih hfront, Option.map_some]
      | false =>
          rw [ink_cons_of_not_blank hd] at hfront
          rw [← hfront, takeInked_succ_cons hd, ih rfl, Option.map_some]

theorem exists_next_ink (h : n < ink cs) :
    ∃ front c back, cs = front ++ c :: back ∧ isBlank c = false ∧ ink front = n := by
  induction cs generalizing n with
  | nil => exact absurd h (Nat.not_lt_zero n)
  | cons d cs ih =>
      cases hd : isBlank d with
      | true =>
          rw [ink_cons_of_blank hd] at h
          obtain ⟨front, c, back, rfl, hc, hfront⟩ := ih h
          exact ⟨d :: front, c, back, rfl, hc, by rw [ink_cons_of_blank hd, hfront]⟩
      | false =>
          cases n with
          | zero => exact ⟨[], d, cs, rfl, hd, rfl⟩
          | succ n =>
              rw [ink_cons_of_not_blank hd] at h
              obtain ⟨front, c, back, rfl, hc, hfront⟩ := ih (Nat.lt_of_succ_lt_succ h)
              exact ⟨d :: front, c, back, rfl, hc, by rw [ink_cons_of_not_blank hd, hfront]⟩

/-! ## Texts that are cut -/

theorem truncateInked_of_le (h : ink cs ≤ n) : truncateInked n cs = cs := by
  rw [truncateInked, takeInked_eq_none h]

theorem truncateInked_append (hfront : ink front = n) (hc : isBlank c = false)
    (back : List Char) :
    truncateInked n (front ++ c :: back) = trimEnd front ++ truncationMark := by
  rw [truncateInked, takeInked_append hfront hc]

theorem exists_front_of_lt (h : n < ink cs) :
    ∃ front, IsShortest n cs front ∧ (∀ c, front.getLast? = some c → isBlank c = false) ∧
      truncateInked n cs = front ++ truncationMark := by
  obtain ⟨front, c, back, rfl, hc, hfront⟩ := exists_next_ink h
  have htrimmed := isTrimmed_trimEnd front
  refine ⟨trimEnd front, ?_, htrimmed.inked, truncateInked_append hfront hc back⟩
  refine isShortest_of_inked ?_ (htrimmed.ink_eq.trans hfront) htrimmed.inked
  exact (trimEnd_isPrefix front).trans (List.prefix_append front _)

/-- A marked text is cut behind the newline of its mark, which is trimmed, and marked again. -/
theorem truncateInked_marked (hfront : ink front = n)
    (hlast : ∀ c, front.getLast? = some c → isBlank c = false) :
    truncateInked n (front ++ truncationMark) = front ++ truncationMark := by
  have hmark : front ++ truncationMark = (front ++ ['\n']) ++ '.' :: truncationMark.drop 2 := by
    rw [List.append_assoc]
    rfl
  have hink : ink (front ++ ['\n']) = n := by
    rw [ink_append, hfront]
    rfl
  have htrimmed : IsTrimmed (front ++ ['\n']) front := ⟨⟨['\n'], rfl, by decide⟩, hlast⟩
  rw [hmark, truncateInked_append hink (by decide), htrimmed.trimEnd_eq, ← hmark]

theorem truncateInked_truncateInked (n : Nat) (cs : List Char) :
    truncateInked n (truncateInked n cs) = truncateInked n cs := by
  rcases Nat.lt_or_ge n (ink cs) with h | h
  · obtain ⟨front, hfront, hlast, heq⟩ := exists_front_of_lt h
    rw [heq, truncateInked_marked hfront.ink_eq hlast]
  · rw [truncateInked_of_le h, truncateInked_of_le h]

/-! ## Chunks -/

/-- What is promised of a text that is cut to so many characters other than blanks. -/
structure IsTruncated (n : Nat) (text truncated : String) : Prop where
  whole : ink text.toList ≤ n → truncated = text
  cut : n < ink text.toList → ∃ front : String, IsShortest n text.toList front.toList ∧
    truncated = front ++ "\n... [truncated]"
  nothing : n = 0 → 0 < ink text.toList → truncated = "\n... [truncated]"

theorem isTruncated_ofList (n : Nat) (text : String) :
    IsTruncated n text (String.ofList (truncateInked n text.toList)) := by
  have hcut : n < ink text.toList → ∃ front : String, IsShortest n text.toList front.toList ∧
      String.ofList (truncateInked n text.toList) = front ++ "\n... [truncated]" := by
    intro h
    obtain ⟨front, hfront, -, heq⟩ := exists_front_of_lt h
    refine ⟨String.ofList front, by rwa [String.toList_ofList], ?_⟩
    rw [heq, String.ofList_append]
    rfl
  refine ⟨fun h => ?_, hcut, fun hzero hink => ?_⟩
  · rw [truncateInked_of_le h, String.ofList_toList]
  · subst hzero
    obtain ⟨front, hfront, heq⟩ := hcut hink
    rw [heq, String.toList_eq_nil_iff.1 hfront.eq_nil, String.empty_append]

/-- Every text is cut as promised, and only once. -/
theorem isTruncated_truncate (l : ChunkLimits) (text : String) :
    IsTruncated l.maxChars text (l.truncate text) ∧
      l.truncate (l.truncate text) = l.truncate text := by
  refine ⟨isTruncated_ofList l.maxChars text, ?_⟩
  unfold ChunkLimits.truncate
  rw [String.toList_ofList, truncateInked_truncateInked]

/-- The blanks among the six characters are not counted, the one behind them is dropped. -/
example :
    ({ maxChars := 6 } : ChunkLimits).truncate "let x = 1 ; y" = "let x = 1\n... [truncated]" := by
  decide +kernel

end CodeIndex

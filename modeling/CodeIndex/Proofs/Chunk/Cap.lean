import CodeIndex.Proofs.Chunk.Fidelity
/-!
# The cap on chunks

How many chunks a file may have decides where its list of definitions is cut, how many of the
stretches between them are taken, and when the windows stop. A higher cap only adds chunks: those
under the lower one are among them, in the same order.
-/

namespace CodeIndex

open Text Syntax

/-! ## Sorting some of the members -/

section Sorting

variable {α : Type} {le : α → α → Bool}

/-- A sort puts a first member between those that come strictly before it and all others. -/
theorem mergeSort_cons_eq (trans : ∀ a b c, le a b = true → le b c = true → le a c = true)
    (total : ∀ a b, (le a b || le b a) = true) (a : α) (as : List α) :
    (a :: as).mergeSort le =
        (as.mergeSort le).filter (!le a ·) ++ a :: (as.mergeSort le).filter (le a ·) ∧
      as.mergeSort le =
        (as.mergeSort le).filter (!le a ·) ++ (as.mergeSort le).filter (le a ·) := by
  obtain ⟨front, back, hcons, hrest, hfront⟩ := List.mergeSort_cons trans total a as
  have hsorted := List.pairwise_mergeSort trans total (a :: as)
  rw [hcons] at hsorted
  have hback : ∀ b ∈ back, le a b = true :=
    (List.pairwise_cons.1 (List.pairwise_append.1 hsorted).2.1).1
  have hbefore : (front ++ back).filter (!le a ·) = front := by
    rw [List.filter_append, List.filter_eq_self.2 hfront, List.filter_eq_nil_iff.2, List.append_nil]
    exact fun b hb => by simp [hback b hb]
  have hafter : (front ++ back).filter (le a ·) = back := by
    rw [List.filter_append, List.filter_eq_self.2 hback, List.filter_eq_nil_iff.2, List.nil_append]
    exact fun b hb => by simpa using hfront b hb
  rw [hcons, hrest, hbefore, hafter]
  exact ⟨rfl, rfl⟩

/-- A stable sort of some members of a list keeps them in the order that the sort of all gives. -/
theorem sublist_mergeSort_mergeSort
    (trans : ∀ a b c, le a b = true → le b c = true → le a c = true)
    (total : ∀ a b, (le a b || le b a) = true) {as bs : List α} (h : as.Sublist bs) :
    (as.mergeSort le).Sublist (bs.mergeSort le) := by
  induction h with
  | slnil => exact List.Sublist.refl _
  | @cons as bs b _ ih =>
      obtain ⟨hcons, hrest⟩ := mergeSort_cons_eq trans total b bs
      rw [hrest] at ih
      rw [hcons]
      exact ih.trans ((List.Sublist.refl _).append (List.sublist_cons_self b _))
  | @cons_cons as bs a _ ih =>
      rw [(mergeSort_cons_eq trans total a as).1, (mergeSort_cons_eq trans total a bs).1]
      exact (ih.filter _).append ((ih.filter _).cons_cons a)

end Sorting

/-- The same limits with another cap on the number of chunks. -/
abbrev ChunkLimits.withCap (limits : ChunkLimits) (cap : Nat) : ChunkLimits :=
  { limits with maxChunks := cap }

variable {limits : ChunkLimits} {cap higher : Nat}

/-! ## Windows -/

theorem windowAt_withCap (cap : Nat) (ls : List String) (start : Nat) :
    windowAt (limits.withCap cap) ls start = windowAt limits ls start :=
  rfl

/-- Windows that stop earlier are the first of those that stop later. -/
theorem WindowLoop.take {ls : List String} {start made : Nat} {cs : List Chunk}
    (h : WindowLoop (limits.withCap higher) ls start made cs) (hle : cap ≤ higher)
    (hmade : made < cap) :
    WindowLoop (limits.withCap cap) ls start made (cs.take (cap - made)) := by
  induction h with
  | @last start made hstart hend =>
      have hone := length_windowAt_le limits ls start
      rw [windowAt_withCap, List.take_of_length_le (by omega)]
      exact .last hstart (hend.imp_right fun hmany => Nat.le_trans hle hmany)
  | @next start made cs hmore hroom hrest ih =>
      have hone := length_windowAt_le limits ls start
      rw [windowAt_withCap] at hroom ih ⊢
      rw [List.take_append, List.take_of_length_le (by omega), Nat.sub_sub]
      by_cases hfull : cap ≤ made + (windowAt limits ls start).length
      · rw [Nat.sub_eq_zero_of_le hfull, List.take_zero, List.append_nil]
        exact .last (by omega) (Or.inr hfull)
      · exact .next hmore (Nat.lt_of_not_le hfull) (ih (by omega))

theorem windowChunks_withCap (hcap : 1 ≤ cap) (hle : cap ≤ higher) (text : String) :
    windowChunks (limits.withCap cap) text =
      (windowChunks (limits.withCap higher) text).take cap := by
  cases hblank : isBlankString text with
  | true => rw [windowChunks_of_blank _ hblank, windowChunks_of_blank _ hblank, List.take_nil]
  | false =>
      have hlonger := windowLoop_windowChunks (limits.withCap higher) hblank
      exact (windowLoop_windowChunks (limits.withCap cap) hblank).unique (hlonger.take hle hcap)

/-! ## Whole files -/

/-- The first file has fewer of the chunks of the second one, in their order, as a cap on them
demands, and is the same otherwise. -/
structure ParsedFile.IsCapped (cap : Nat) (a b : ParsedFile) : Prop where
  chunks : a.chunks.Sublist b.chunks
  length : a.chunks.length = min cap b.chunks.length
  imports : a.imports = b.imports
  usedWindows : a.usedWindows = b.usedWindows
  /-- Where the cap is not exceeded nothing is missing. -/
  same : b.chunks.length ≤ cap → a.chunks = b.chunks

namespace ParsedFile

theorem IsCapped.of_sublist {a b : ParsedFile} (hchunks : a.chunks.Sublist b.chunks)
    (hlength : a.chunks.length = min cap b.chunks.length) (himports : a.imports = b.imports)
    (hwindows : a.usedWindows = b.usedWindows) : IsCapped cap a b := by
  refine ⟨hchunks, hlength, himports, hwindows, fun hfew => hchunks.eq_of_length ?_⟩
  omega

theorem isCapped_ofWindows (hcap : 1 ≤ cap) (hle : cap ≤ higher) (text : String)
    (imports : List Import) :
    IsCapped cap (ofWindows (limits.withCap cap) text imports)
      (ofWindows (limits.withCap higher) text imports) := by
  have hchunks : (ofWindows (limits.withCap cap) text imports).chunks =
      (windowChunks (limits.withCap higher) text).take cap := windowChunks_withCap hcap hle text
  refine .of_sublist ?_ ?_ rfl rfl
  · exact hchunks ▸ List.take_sublist _ _
  · rw [hchunks, List.length_take]
    rfl

/-- The first members of two lists, those of the second one as far as there is room left. -/
theorem take_append_take_sublist {α : Type} (hle : cap ≤ higher) (as bs : List α) :
    (as.take cap ++ bs.take (cap - (as.take cap).length)).Sublist
      (as.take higher ++ bs.take (higher - (as.take higher).length)) := by
  by_cases hfull : cap ≤ as.length
  · rw [List.length_take_of_le hfull, Nat.sub_self, List.take_zero]
    exact (List.take_sublist_take_left hle).append (List.nil_sublist _)
  · rw [List.take_of_length_le (by omega), List.take_of_length_le (l := as) (by omega)]
    exact (List.Sublist.refl as).append (List.take_sublist_take_left (by omega))

theorem structuralChunks_withCap (cap : Nat) (l : Language) (text : String) (root : Node) :
    structuralChunks (limits.withCap cap) l text root = structuralChunks limits l text root :=
  rfl

theorem betweenChunks_withCap (cap : Nat) (l : Language) (text : String) (root : Node) :
    betweenChunks (limits.withCap cap) l text root = betweenChunks limits l text root :=
  rfl

theorem isCapped_ofTree (hcap : 1 ≤ cap) (hle : cap ≤ higher) (l : Language) (text : String)
    (root : Node) :
    IsCapped cap (ofTree (limits.withCap cap) l text root)
      (ofTree (limits.withCap higher) l text root) := by
  by_cases hfound : Outline.collect l text.toList root = []
  · rw [ofTree_of_nil hfound, ofTree_of_nil hfound]
    exact isCapped_ofWindows hcap hle text _
  · simp only [ofTree_of_ne_nil hfound, structuralChunks_withCap, betweenChunks_withCap]
    refine .of_sublist ?_ ?_ rfl rfl
    · exact sublist_mergeSort_mergeSort Chunk.comesBefore_trans Chunk.comesBefore_total
        (take_append_take_sublist hle _ _)
    · simp only [List.length_mergeSort, List.length_append, List.length_take]
      omega

/-- Whatever the text, its language and its tree, a higher cap only adds chunks. -/
theorem parse_withCap (grammar : Grammar) (limits : ChunkLimits) (language text : String)
    (hcap : 1 ≤ cap) (hle : cap ≤ higher) :
    IsCapped cap (parse grammar (limits.withCap cap) language text)
      (parse grammar (limits.withCap higher) language text) := by
  unfold parse
  split
  · exact .of_sublist (List.Sublist.refl _) (Nat.min_zero cap).symm rfl rfl
  · split
    · exact isCapped_ofWindows hcap hle text []
    · rename_i l _
      split
      · exact isCapped_ofWindows hcap hle text []
      · exact isCapped_ofTree hcap hle l text _

/-! ## A function after statements -/

def laterText : String :=
  "a = 1\nb = 2\n\ndef f(x):\n    return x\n"

def laterTree : Node :=
  .mk true "module" "" 0 36 [
    .mk true "expression_statement" "" 0 5 [],
    .mk true "expression_statement" "" 6 11 [],
    .mk true "function_definition" "" 13 35 [
      .mk false "def" "" 13 16 [],
      .mk true "identifier" "name" 17 18 [],
      .mk true "parameters" "parameters" 18 21 [],
      .mk true "block" "body" 27 35 [.mk true "return_statement" "" 27 35 []]]]

/-- The function is the only chunk where one is allowed, and the statements above it are the
second one. -/
theorem parse_withCap_later :
    let grammar : Grammar := fun _ _ => some laterTree
    let one := parse grammar (sampleLimits.withCap 1) "python" laterText
    let two := parse grammar (sampleLimits.withCap 2) "python" laterText
    1 ≤ 1 ∧ 1 ≤ 2 ∧ one.chunks.map Chunk.range = [(4, 5)] ∧
      (two.chunks.map Chunk.range).Perm [(4, 5), (1, 2)] ∧ IsCapped 1 one two := by
  intro grammar one two
  have hcapped : IsCapped 1 one two :=
    parse_withCap grammar sampleLimits "python" laterText (by decide) (by decide)
  have hink : isBlankString laterText = false := by decide +kernel
  have hparse : two = ofTree (sampleLimits.withCap 2) .python laterText laterTree :=
    parse_of_tree hink rfl rfl
  have hfound : Outline.collect .python laterText.toList laterTree ≠ [] :=
    List.isEmpty_eq_false_iff.1 (by decide +kernel)
  have hboth : (two.chunks.map Chunk.range).Perm [(4, 5), (1, 2)] := by
    rw [hparse]
    refine ((perm_chunks_ofTree hfound ?_).map Chunk.range).trans ?_ <;> decide +kernel
  exact ⟨by decide, by decide, by decide +kernel, hboth, hcapped⟩

end ParsedFile

end CodeIndex

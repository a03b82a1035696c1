import CodeIndex.Proofs.Chunk.Coverage
import CodeIndex.Proofs.Chunk.Windows
/-!
# Fidelity of chunks

Every text with content has chunks, and no more than are allowed. Each of them holds the lines
that it says it holds, whether it comes from a definition, from between definitions, or from a
window.
-/

namespace CodeIndex

open Text Syntax

/-- The chunk holds lines that the text has, and as much of their text as is allowed. -/
structure Chunk.Quotes (limits : ChunkLimits) (ls : List String) (c : Chunk) : Prop where
  first : 1 ≤ c.startLine
  ordered : c.startLine ≤ c.endLine
  last : c.endLine ≤ ls.length
  content : c.content = limits.truncate (joinLines ((ls.take c.endLine).drop (c.startLine - 1)))

/-- At least one chunk and at most as many as are allowed, each with the lines of the text that it
names, in source order. -/
structure AreFaithful (limits : ChunkLimits) (ls : List String) (cs : List Chunk) : Prop where
  some : cs ≠ []
  capped : cs.length ≤ limits.maxChunks
  quotes : ∀ c ∈ cs, c.Quotes limits ls
  ordered : cs.Pairwise fun a b => a.startLine < b.startLine ∨
    a.startLine = b.startLine ∧ b.endLine ≤ a.endLine

variable {limits : ChunkLimits}

theorem Chunk.quotes_of_rows {ls : List String} {c : Chunk} {first last : Nat}
    (hfirst : c.startLine = first + 1) (hlast : c.endLine = last + 1)
    (hcontent : c.content = limits.truncate (rowsText ls first last)) (hordered : first ≤ last)
    (hupper : last < ls.length) : c.Quotes limits ls := by
  refine ⟨by omega, by omega, by omega, ?_⟩
  rw [hcontent, hfirst, hlast, rowsText, List.drop_take, Nat.add_sub_cancel]

/-! ## Source order -/

theorem Chunk.comesBefore_iff {a b : Chunk} : a.comesBefore b = true ↔
    a.startLine < b.startLine ∨ a.startLine = b.startLine ∧ b.endLine ≤ a.endLine := by
  simp [Chunk.comesBefore]

theorem Chunk.comesBefore_trans (a b c : Chunk) (hab : a.comesBefore b = true)
    (hbc : b.comesBefore c = true) : a.comesBefore c = true := by
  rw [Chunk.comesBefore_iff] at hab hbc ⊢
  omega

theorem Chunk.comesBefore_total (a b : Chunk) : (a.comesBefore b || b.comesBefore a) = true := by
  rw [Bool.or_eq_true, Chunk.comesBefore_iff, Chunk.comesBefore_iff]
  omega

theorem pairwise_mergeSort_comesBefore (cs : List Chunk) :
    (cs.mergeSort Chunk.comesBefore).Pairwise fun a b => a.startLine < b.startLine ∨
      a.startLine = b.startLine ∧ b.endLine ≤ a.endLine := by
  have hsorted := List.pairwise_mergeSort Chunk.comesBefore_trans Chunk.comesBefore_total cs
  exact hsorted.imp Chunk.comesBefore_iff.1

/-! ## Windows -/

theorem quotes_windowAt {ls : List String} {start : Nat} (hstart : start < ls.length) {c : Chunk}
    (hc : c ∈ windowAt limits ls start) : c.Quotes limits ls := by
  have hlt : start < windowStop limits ls start := lt_windowStop hstart
  have hupper := windowStop_le limits ls start
  rw [(mem_windowAt.1 hc).2]
  obtain ⟨last, hlast⟩ : ∃ last, windowStop limits ls start = last + 1 :=
    ⟨windowStop limits ls start - 1, by omega⟩
  rw [hlast] at hlt hupper ⊢
  exact Chunk.quotes_of_rows rfl rfl rfl (by omega) hupper

theorem quotes_windowChunks {text : String} (hink : isBlankString text = false) :
    ∀ c ∈ windowChunks limits text, c.Quotes limits (linesOf text) := by
  intro c hc
  obtain ⟨first, -, hfirst, hmem⟩ := (windowLoop_windowChunks limits hink).exists_windowAt hc
  exact quotes_windowAt hfirst hmem

theorem areFaithful_windowChunks (hmax : 1 ≤ limits.maxChunks) {text : String}
    (hink : isBlankString text = false) :
    AreFaithful limits (linesOf text) (windowChunks limits text) := by
  have hloop := windowLoop_windowChunks limits hink
  obtain ⟨row, line, hrow, hline⟩ := exists_row_of_ink hink
  have hlength := hloop.length_le hmax
  refine ⟨hloop.ne_nil hmax (Nat.zero_le row) hrow hline, by omega, quotes_windowChunks hink, ?_⟩
  exact hloop.pairwise.imp fun h => Or.inl h.1

/-! ## Definitions and what lies between them -/

namespace ParsedFile

theorem quotes_structural {l : Language} {text : String} {root : Node}
    (hroot : root.IsLaidOut text.toList) :
    ∀ c ∈ structuralChunks limits l text root, c.Quotes limits (linesOf text) := by
  intro c hc
  obtain ⟨f, hf, rfl⟩ := List.mem_map.1 hc
  obtain ⟨hordered, hupper⟩ := rows_of_assign hroot f hf
  refine Chunk.quotes_of_rows rfl rfl rfl hordered ?_
  rwa [linesOf, List.length_map]

theorem quotes_between {l : Language} {text : String} {root : Node} :
    ∀ c ∈ betweenChunks limits l text root, c.Quotes limits (linesOf text) := by
  intro c hc
  obtain ⟨run, hrun, first, last, hfills⟩ := fills_of_mem limits hc
  have hupper := ((areRuns_freeRuns _ _ _).each run hrun).upper
  obtain ⟨-, hordered, hlast⟩ := hfills.rows
  exact Chunk.quotes_of_rows hfills.lines.1 hfills.lines.2 hfills.content hordered (by omega)

theorem areFaithful_ofTree (hmax : 1 ≤ limits.maxChunks) {l : Language} {text : String}
    {root : Node} (hink : isBlankString text = false) (hroot : root.IsLaidOut text.toList) :
    AreFaithful limits (linesOf text) (ofTree limits l text root).chunks := by
  by_cases hfound : Outline.collect l text.toList root = []
  · rw [chunks_ofTree_of_nil hfound]
    exact areFaithful_windowChunks hmax hink
  · have hsome : 0 < (structuralChunks limits l text root).length := by
      rw [structuralChunks, List.length_map, Outline.length_assign]
      exact List.length_pos_iff.2 hfound
    rw [chunks_ofTree hfound]
    refine ⟨List.ne_nil_of_length_pos ?_, ?_, fun c hc => ?_, pairwise_mergeSort_comesBefore _⟩
    · rw [List.length_mergeSort, List.length_append, List.length_take]
      omega
    · rw [List.length_mergeSort, List.length_append, List.length_take, List.length_take]
      omega
    · rw [List.mem_mergeSort, List.mem_append] at hc
      rcases hc with hc | hc
      · exact quotes_structural hroot c (List.mem_of_mem_take hc)
      · exact quotes_between c (List.mem_of_mem_take hc)

/-! ## Any text in any language -/

/-- The chunks of a text with content, whatever its language and whatever tree the grammar gives,
as long as the nodes cover characters of the text; a blank text has none. -/
theorem parse_faithful (grammar : Grammar) (limits : ChunkLimits) (hmax : 1 ≤ limits.maxChunks)
    (language text : String)
    (htree : ∀ l root, Language.ofName? language = some l → grammar language text = some root →
      root.IsLaidOut text.toList) :
    (isBlankString text = false →
      AreFaithful limits (linesOf text) (parse grammar limits language text).chunks) ∧
      (isBlankString text = true → (parse grammar limits language text).chunks = []) := by
  refine ⟨fun hink => ?_, parse_of_blank grammar limits language⟩
  have hwindows := areFaithful_windowChunks hmax hink
  unfold parse
  rw [hink, if_neg Bool.false_ne_true]
  split
  · exact hwindows
  · rename_i l hl
    split
    · exact hwindows
    · rename_i root hroot
      exact areFaithful_ofTree hmax hink (htree l root hl hroot)

/-- A text with a definition and a stretch after it. -/
theorem parse_faithful_sample :
    let grammar : Grammar := fun _ _ => some sampleTree
    1 ≤ sampleLimits.maxChunks ∧
      (∀ l root, Language.ofName? "python" = some l → grammar "python" sampleText = some root →
        root.IsLaidOut sampleText.toList) ∧
      isBlankString sampleText = false ∧
      AreFaithful sampleLimits (linesOf sampleText)
        (parse grammar sampleLimits "python" sampleText).chunks := by
  intro grammar
  have hmax : 1 ≤ sampleLimits.maxChunks := by decide
  have htree : ∀ l root, Language.ofName? "python" = some l →
      grammar "python" sampleText = some root → root.IsLaidOut sampleText.toList := by
    intro l root _ hroot
    cases hroot
    decide +kernel
  have hink : isBlankString sampleText = false := by decide +kernel
  exact ⟨hmax, htree, hink, (parse_faithful grammar sampleLimits hmax "python" sampleText htree).1
    hink⟩

end ParsedFile

end CodeIndex

import CodeIndex.Proofs.Chunk.Fidelity
/-!
# What windows cover

A text without structure is cut into windows of lines. The chunks that come of it stand in order,
each holds a line with content and no more lines than a window has, and as long as there may be more
of them, together they hold every line with content. None of this depends on how far windows
overlap.
-/

namespace CodeIndex

open Text

/-- What is promised of the chunks of a text that is cut into windows. -/
structure AreWindows (l : ChunkLimits) (text : String) (cs : List Chunk) : Prop where
  /-- The loop over the windows comes to an end, with these chunks and no others. -/
  looped : isBlankString text = false → ∀ ds, WindowLoop l (linesOf text) 0 0 ds ↔ ds = cs
  nil_iff : cs = [] ↔ isBlankString text = true
  ordered : cs.Pairwise fun a b => a.startLine < b.startLine ∧ a.endLine < b.endLine
  quotes : ∀ c ∈ cs, c.Quotes l (linesOf text)
  narrow : ∀ c ∈ cs, c.endLine + 1 - c.startLine ≤ max l.windowLines 1
  inked : ∀ c ∈ cs, ∃ row line, c.Holds (row + 1) ∧ (linesOf text)[row]? = some line ∧
    isBlankString line = false
  capped : cs.length ≤ l.maxChunks
  covers : cs.length < l.maxChunks → ∀ row line, (linesOf text)[row]? = some line →
    isBlankString line = false → ∃ c ∈ cs, c.Holds (row + 1)

variable {l : ChunkLimits}

/-! ## One window -/

theorem narrow_of_mem {ls : List String} {start : Nat} {c : Chunk}
    (hc : c ∈ windowAt l ls start) : c.endLine + 1 - c.startLine ≤ max l.windowLines 1 := by
  rw [startLine_of_mem hc, endLine_of_mem hc]
  unfold windowStop
  omega

theorem inked_of_mem {ls : List String} {start : Nat} {c : Chunk}
    (hc : c ∈ windowAt l ls start) :
    ∃ row line, c.Holds (row + 1) ∧ ls[row]? = some line ∧ isBlankString line = false := by
  obtain ⟨row, line, hlower, hupper, hline, hink⟩ :=
    exists_row_of_windowText (mem_windowAt.1 hc).1
  refine ⟨row, line, ?_, hline, hink⟩
  rw [Chunk.Holds, startLine_of_mem hc, endLine_of_mem hc]
  omega

/-! ## The whole text -/

theorem areWindows_nil (l : ChunkLimits) {text : String} (hblank : isBlankString text = true) :
    AreWindows l text [] where
  looped hink := by simp [hblank] at hink
  nil_iff := by simp [hblank]
  ordered := List.Pairwise.nil
  quotes _ hc := absurd hc List.not_mem_nil
  narrow _ hc := absurd hc List.not_mem_nil
  inked _ hc := absurd hc List.not_mem_nil
  capped := Nat.zero_le _
  covers _ row line hline hink := by
    rw [isBlankString_eq_all_lines, List.all_eq_true] at hblank
    have hlineblank := hblank line (List.mem_of_getElem? hline)
    simp [hink] at hlineblank

/-- Windows over any text, whatever their length and overlap, as long as one chunk is allowed. -/
theorem areWindows_windowChunks (l : ChunkLimits) (hmax : 1 ≤ l.maxChunks) (text : String) :
    AreWindows l text (windowChunks l text) := by
  cases hink : isBlankString text with
  | true =>
      rw [windowChunks_of_blank l hink]
      exact areWindows_nil l hink
  | false =>
      have hloop := windowLoop_windowChunks l hink
      have hfaithful := areFaithful_windowChunks hmax hink
      have hwindow : ∀ c ∈ windowChunks l text, ∃ first, c ∈ windowAt l (linesOf text) first := by
        intro c hc
        obtain ⟨first, -, -, hmem⟩ := hloop.exists_windowAt hc
        exact ⟨first, hmem⟩
      refine ⟨fun _ ds => ?_, ?_, hloop.pairwise, hfaithful.quotes, fun c hc => ?_,
        fun c hc => ?_, hfaithful.capped, fun hroom row line hline hlineink => ?_⟩
      · exact ⟨fun hds => hds.unique hloop, fun hds => hds ▸ hloop⟩
      · simp [hfaithful.some, hink]
      · obtain ⟨first, hmem⟩ := hwindow c hc
        exact narrow_of_mem hmem
      · obtain ⟨first, hmem⟩ := hwindow c hc
        exact inked_of_mem hmem
      · exact hloop.covers (by omega) (Nat.zero_le row) hline hlineink

/-- Windows of two lines that are to overlap by five, with nothing but blank lines in between. -/
theorem areWindows_windowChunks_overlapping :
    let l : ChunkLimits := { windowLines := 2, overlapLines := 5 }
    let text := "a\n\n \n\nb\nc\n"
    1 ≤ l.maxChunks ∧ (windowChunks l text).map Chunk.range = [(1, 2), (4, 5), (5, 6)] ∧
      AreWindows l text (windowChunks l text) := by
  intro l text
  have hmax : 1 ≤ l.maxChunks := by decide
  exact ⟨hmax, by decide +kernel, areWindows_windowChunks l hmax text⟩

end CodeIndex

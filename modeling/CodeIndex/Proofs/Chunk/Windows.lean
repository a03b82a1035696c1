import CodeIndex.Chunk.Windows
import CodeIndex.Proofs.Text.Lines
/-!
# Windows over a text

The windows over a text are looked at one after the other, and this comes to an end. Windows start
and stop ever further down, and no more chunks are made than are allowed; while there are fewer,
no line with content is left out, so that a text with content has a window with content.
-/

namespace CodeIndex

open Text

variable {l : ChunkLimits} {ls : List String}

theorem ChunkLimits.step_pos (l : ChunkLimits) : 1 ≤ l.step := by
  unfold step
  omega

theorem ChunkLimits.step_le (l : ChunkLimits) : l.step ≤ max l.windowLines 1 := by
  unfold step
  omega

/-! ## One window -/

/-- Where the window that starts at `start` stops. -/
def windowStop (l : ChunkLimits) (ls : List String) (start : Nat) : Nat :=
  min (start + max l.windowLines 1) ls.length

/-- The text of the lines from `start` up to `stop`. -/
def windowText (ls : List String) (start stop : Nat) : String :=
  joinLines ((ls.drop start).take (stop - start))

/-- The chunk of the window that starts at `start`, if it has content. -/
def windowAt (l : ChunkLimits) (ls : List String) (start : Nat) : List Chunk :=
  let stop := windowStop l ls start
  let text := windowText ls start stop
  if isBlankString text then [] else [windowChunk l start stop text]

theorem mem_windowAt {start : Nat} {c : Chunk} :
    c ∈ windowAt l ls start ↔
      isBlankString (windowText ls start (windowStop l ls start)) = false ∧
        c = windowChunk l start (windowStop l ls start)
          (windowText ls start (windowStop l ls start)) := by
  unfold windowAt
  dsimp only
  split
  · next hblank => simp [hblank]
  · next hink => simp [hink]

theorem startLine_of_mem {start : Nat} {c : Chunk} (hc : c ∈ windowAt l ls start) :
    c.startLine = start + 1 := by
  rw [(mem_windowAt.1 hc).2]
  rfl

theorem endLine_of_mem {start : Nat} {c : Chunk} (hc : c ∈ windowAt l ls start) :
    c.endLine = windowStop l ls start := by
  rw [(mem_windowAt.1 hc).2]
  rfl

theorem length_windowAt_le (l : ChunkLimits) (ls : List String) (start : Nat) :
    (windowAt l ls start).length ≤ 1 := by
  unfold windowAt
  dsimp only
  split <;> simp

theorem pairwise_windowAt (r : Chunk → Chunk → Prop) (start : Nat) :
    (windowAt l ls start).Pairwise r := by
  unfold windowAt
  dsimp only
  split
  · exact List.Pairwise.nil
  · exact List.pairwise_singleton r _

/-- A window with a line with content gives a chunk that holds the line. -/
theorem exists_mem_windowAt {start row : Nat} (hrow : start ≤ row)
    (hstop : row < windowStop l ls start) {line : String} (hline : ls[row]? = some line)
    (hink : isBlankString line = false) :
    ∃ c ∈ windowAt l ls start, c.startLine ≤ row + 1 ∧ row + 1 ≤ c.endLine := by
  have hmem : line ∈ (ls.drop start).take (windowStop l ls start - start) := by
    rw [List.mem_iff_getElem?]
    refine ⟨row - start, ?_⟩
    rw [List.getElem?_take_of_lt (by omega), List.getElem?_drop, Nat.add_sub_cancel' hrow, hline]
  have htext : isBlankString (windowText ls start (windowStop l ls start)) = false := by
    rw [windowText, isBlankString_joinLines, List.all_eq_false]
    exact ⟨line, hmem, by simp [hink]⟩
  have hc := mem_windowAt.2 ⟨htext, rfl⟩
  refine ⟨_, hc, ?_⟩
  rw [startLine_of_mem hc, endLine_of_mem hc]
  omega

/-- The text of a window with content has a line with content. -/
theorem exists_row_of_windowText {start stop : Nat}
    (hink : isBlankString (windowText ls start stop) = false) :
    ∃ row line, start ≤ row ∧ row < stop ∧ ls[row]? = some line ∧ isBlankString line = false := by
  rw [windowText, isBlankString_joinLines, List.all_eq_false] at hink
  obtain ⟨line, hmem, hline⟩ := hink
  obtain ⟨i, hi⟩ := List.mem_iff_getElem?.1 hmem
  have hlt : i < stop - start := by
    have hi' := (List.getElem?_eq_some_iff.1 hi).1
    rw [List.length_take] at hi'
    omega
  rw [List.getElem?_take_of_lt hlt, List.getElem?_drop] at hi
  exact ⟨start + i, line, by omega, by omega, hi, by simpa using hline⟩

/-! ## All windows -/

/-- The chunks of the windows from `start` on, when `made` chunks exist already: one window after
the other is looked at, and each has lines, until the text is used up or there are enough chunks. As
a further window is looked at only where this one stops within the text, no later sum of a start and
a length reaches twice the number of lines. -/
inductive WindowLoop (l : ChunkLimits) (ls : List String) : Nat → Nat → List Chunk → Prop
  | last {start made : Nat} (hstart : start < ls.length)
      (hend : ls.length ≤ windowStop l ls start ∨
        l.maxChunks ≤ made + (windowAt l ls start).length) :
      WindowLoop l ls start made (windowAt l ls start)
  | next {start made : Nat} {cs : List Chunk} (hmore : start + max l.windowLines 1 < ls.length)
      (hroom : made + (windowAt l ls start).length < l.maxChunks)
      (hrest : WindowLoop l ls (start + l.step) (made + (windowAt l ls start).length) cs) :
      WindowLoop l ls start made (windowAt l ls start ++ cs)

theorem windowStop_eq {start : Nat} (hmore : start + max l.windowLines 1 < ls.length) :
    windowStop l ls start = start + max l.windowLines 1 :=
  Nat.min_eq_left (Nat.le_of_lt hmore)

theorem windowStop_le (l : ChunkLimits) (ls : List String) (start : Nat) :
    windowStop l ls start ≤ ls.length :=
  Nat.min_le_right _ _

theorem lt_windowStop {start : Nat} (hstart : start < ls.length) :
    start < windowStop l ls start := by
  unfold windowStop
  omega

theorem windowsFrom_succ (l : ChunkLimits) (ls : List String) (fuel start made : Nat) :
    windowsFrom l ls (fuel + 1) start made =
      if ls.length ≤ windowStop l ls start ∨ l.maxChunks ≤ made + (windowAt l ls start).length
      then windowAt l ls start
      else windowAt l ls start ++
        windowsFrom l ls fuel (start + l.step) (made + (windowAt l ls start).length) := by
  rw [windowsFrom]
  simp only [Bool.or_eq_true, decide_eq_true_eq]
  rfl

/-- As each window starts after the one before it, there is an end. -/
theorem windowLoop_windowsFrom {fuel start made : Nat} (hstart : start < ls.length)
    (hfuel : ls.length ≤ start + fuel) :
    WindowLoop l ls start made (windowsFrom l ls fuel start made) := by
  induction fuel generalizing start made with
  | zero => omega
  | succ fuel ih =>
      rw [windowsFrom_succ]
      split
      · next hend => exact .last hstart hend
      · next hmore =>
        have hstep := l.step_le
        have hpos := l.step_pos
        have hbelow : start + max l.windowLines 1 < ls.length := by
          unfold windowStop at hmore
          omega
        exact .next hbelow (by omega) (ih (by omega) (by omega))

namespace WindowLoop

variable {start made : Nat} {cs : List Chunk}

theorem unique {ds : List Chunk} (hcs : WindowLoop l ls start made cs)
    (hds : WindowLoop l ls start made ds) : cs = ds := by
  induction hcs generalizing ds with
  | last _ hend =>
      cases hds with
      | last => rfl
      | next hmore hroom hrest =>
          rw [windowStop_eq hmore] at hend
          omega
  | next hmore hroom hrest ih =>
      cases hds with
      | last _ hend =>
          rw [windowStop_eq hmore] at hend
          omega
      | next _ _ hrest' => rw [ih hrest']

theorem exists_windowAt (h : WindowLoop l ls start made cs) {c : Chunk} (hc : c ∈ cs) :
    ∃ first, start ≤ first ∧ first < ls.length ∧ c ∈ windowAt l ls first := by
  induction h with
  | last hstart => exact ⟨_, Nat.le_refl _, hstart, hc⟩
  | next hmore hroom hrest ih =>
      rcases List.mem_append.1 hc with hc | hc
      · exact ⟨_, Nat.le_refl _, by omega, hc⟩
      · obtain ⟨first, hfirst, hwindow⟩ := ih hc
        exact ⟨first, by omega, hwindow⟩

/-- Each window starts and stops after the ones before it. -/
theorem pairwise (h : WindowLoop l ls start made cs) :
    cs.Pairwise fun a b => a.startLine < b.startLine ∧ a.endLine < b.endLine := by
  induction h with
  | last => exact pairwise_windowAt _ _
  | @next start made cs hmore hroom hrest ih =>
      refine List.pairwise_append.2 ⟨pairwise_windowAt _ start, ih, fun a ha b hb => ?_⟩
      have hpos := l.step_pos
      obtain ⟨first, hfirst, -, hb⟩ := hrest.exists_windowAt hb
      rw [startLine_of_mem ha, startLine_of_mem hb, endLine_of_mem ha, endLine_of_mem hb,
        windowStop_eq hmore]
      unfold windowStop
      omega

theorem length_le (h : WindowLoop l ls start made cs) (hmade : made < l.maxChunks) :
    made + cs.length ≤ l.maxChunks := by
  induction h with
  | @last start made _ hend =>
      have hone := length_windowAt_le l ls start
      omega
  | next hmore hroom hrest ih =>
      have hlength := ih hroom
      rw [List.length_append]
      omega

/-- A line with content lies in some window, as each window starts within the one before it or
where that stops. -/
theorem covers (h : WindowLoop l ls start made cs) (hroom : made + cs.length < l.maxChunks)
    {row : Nat} (hrow : start ≤ row) {line : String} (hline : ls[row]? = some line)
    (hink : isBlankString line = false) :
    ∃ c ∈ cs, c.startLine ≤ row + 1 ∧ row + 1 ≤ c.endLine := by
  have hlt : row < ls.length := (List.getElem?_eq_some_iff.1 hline).1
  induction h with
  | last _ hend => exact exists_mem_windowAt hrow (by omega) hline hink
  | @next start made cs hmore _ hrest ih =>
      rw [List.length_append] at hroom
      by_cases hstop : row < windowStop l ls start
      · obtain ⟨c, hc, hrows⟩ := exists_mem_windowAt hrow hstop hline hink
        exact ⟨c, List.mem_append_left _ hc, hrows⟩
      · have hstep := l.step_le
        rw [windowStop_eq hmore] at hstop
        obtain ⟨c, hc, hrows⟩ := ih (by omega) (by omega)
        exact ⟨c, List.mem_append_right _ hc, hrows⟩

theorem ne_nil (h : WindowLoop l ls start made cs) (hmade : made < l.maxChunks) {row : Nat}
    (hrow : start ≤ row) {line : String} (hline : ls[row]? = some line)
    (hink : isBlankString line = false) : cs ≠ [] := by
  rintro rfl
  obtain ⟨c, hc, -⟩ := h.covers hmade hrow hline hink
  exact List.not_mem_nil hc

end WindowLoop

/-! ## The windows over a whole text -/

theorem exists_row_of_ink {text : String} (hink : isBlankString text = false) :
    ∃ (row : Nat) (line : String), (linesOf text)[row]? = some line ∧
      isBlankString line = false := by
  rw [isBlankString_eq_all_lines, List.all_eq_false] at hink
  obtain ⟨line, hmem, hline⟩ := hink
  obtain ⟨row, hrow⟩ := List.mem_iff_getElem?.1 hmem
  exact ⟨row, line, hrow, by simpa using hline⟩

theorem length_linesOf_pos {text : String} (hink : isBlankString text = false) :
    0 < (linesOf text).length := by
  obtain ⟨row, line, hrow, -⟩ := exists_row_of_ink hink
  exact Nat.zero_lt_of_lt (List.getElem?_eq_some_iff.1 hrow).1

theorem windowChunks_of_blank (l : ChunkLimits) {text : String}
    (hblank : isBlankString text = true) : windowChunks l text = [] := by
  rw [windowChunks, if_pos hblank]

theorem windowLoop_windowChunks (l : ChunkLimits) {text : String}
    (hink : isBlankString text = false) :
    WindowLoop l (linesOf text) 0 0 (windowChunks l text) := by
  rw [windowChunks, if_neg (by simp [hink])]
  exact windowLoop_windowsFrom (length_linesOf_pos hink) (by omega)

end CodeIndex

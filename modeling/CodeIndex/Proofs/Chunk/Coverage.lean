import CodeIndex.Proofs.Chunk.Between
import CodeIndex.Proofs.Chunk.Definitions
/-!
# Coverage

Where the number of chunks is not capped, a line with content that no chunk holds lies in a stretch
between definitions that has too little content. The chunks between definitions overlap neither
each other nor a definition.
-/

namespace CodeIndex

open Text Syntax

/-- The line, counted from one, is one of the chunk's. -/
def Chunk.Holds (c : Chunk) (line : Nat) : Prop :=
  c.startLine ≤ line ∧ line ≤ c.endLine

namespace ParsedFile

/-- The lines with content among the lines `first` to `last`, counted from one. -/
def inkedLines (ls : List String) (first last : Nat) : List String :=
  ((ls.take last).drop (first - 1)).filter (!isBlankString ·)

/-- A longest stretch of the `n` lines of a text of which no chunk holds any. -/
structure IsGap (cs : List Chunk) (n first last : Nat) : Prop where
  lines : 1 ≤ first ∧ first ≤ last ∧ last ≤ n
  free : ∀ line, first ≤ line → line ≤ last → ∀ c ∈ cs, ¬ c.Holds line
  before : first = 1 ∨ ∃ c ∈ cs, c.Holds (first - 1)
  after : last = n ∨ ∃ c ∈ cs, c.Holds (last + 1)

/-- What the chunks of definitions and those between them hold of the lines of a text. -/
structure Covers (limits : ChunkLimits) (ls : List String) (structural between : List Chunk) :
    Prop where
  /-- A line is held, or blank, or part of a gap that has too little content for a chunk. -/
  lines : ∀ line, 1 ≤ line → line ≤ ls.length →
    (∃ c ∈ structural, c.Holds line) ∨ (∃! c, c ∈ between ∧ c.Holds line) ∨
      isBlankRow ls (line - 1) = true ∨
      ∃ first last, IsGap structural ls.length first last ∧ first ≤ line ∧ line ≤ last ∧
        (inkedLines ls first last).length < limits.minModuleLines
  apart : between.Pairwise fun a b => ∀ line, ¬ (a.Holds line ∧ b.Holds line)
  outside : ∀ c ∈ between, ∀ d ∈ structural, ∀ line, ¬ (c.Holds line ∧ d.Holds line)
  ends : ∀ c ∈ between, 1 ≤ c.startLine ∧ c.startLine ≤ c.endLine ∧ c.endLine ≤ ls.length ∧
    isBlankRow ls (c.startLine - 1) = false ∧ isBlankRow ls (c.endLine - 1) = false
  enough : ∀ c ∈ between,
    limits.minModuleLines ≤ (inkedLines ls c.startLine c.endLine).length

theorem length_inkedLines (ls : List String) {first last : Nat} (hordered : first ≤ last)
    (hlast : last < ls.length) :
    (inkedLines ls (first + 1) (last + 1)).length =
      (inkedRows (isBlankRow ls) first last).length := by
  rw [← length_filter_rows ls hordered hlast, inkedLines, Nat.add_sub_cancel, List.drop_take]

section Cover

variable {limits : ChunkLimits} {source : List Char} {ls : List String} {a : Outline.Assignment}

theorem holds_chunkOf {f : Found} {row : Nat} :
    (chunkOf limits source ls f).Holds (row + 1) ↔
      (f.rows source).1 ≤ row ∧ row ≤ (f.rows source).2 := by
  change (f.rows source).1 + 1 ≤ row + 1 ∧ row + 1 ≤ (f.rows source).2 + 1 ↔ _
  omega

theorem isCovered_iff {row : Nat} :
    isCovered (a.founds.map (·.rows source)) row = true ↔
      ∃ c ∈ a.founds.map (chunkOf limits source ls), c.Holds (row + 1) := by
  simp only [isCovered, List.any_map, List.any_eq_true, List.mem_map, exists_exists_and_eq_and,
    holds_chunkOf, Function.comp_apply, Bool.and_eq_true, decide_eq_true_eq]

variable (limits source ls a)

/-- The rows that no definition holds, as runs from top to bottom. -/
def freeRuns : List (Nat × Nat) :=
  runsFrom (fun row => !isCovered (a.founds.map (·.rows source)) row) ls.length 0

theorem areRuns_freeRuns :
    AreRuns (fun row => !isCovered (a.founds.map (·.rows source)) row) 0 ls.length
      (freeRuns source ls a) := by
  have hruns := areRuns_runsFrom (fun row => !isCovered (a.founds.map (·.rows source)) row)
    ls.length 0
  rwa [Nat.zero_add] at hruns

variable {source ls a}

/-- A chunk between definitions fills a run of rows that no definition holds. -/
theorem mem_moduleChunks {c : Chunk} :
    c ∈ moduleChunks limits source ls a ↔
      ∃ run ∈ freeRuns source ls a, moduleChunk? limits ls a run = some c :=
  List.mem_filterMap

theorem fills_of_mem {c : Chunk} (hc : c ∈ moduleChunks limits source ls a) :
    ∃ run ∈ freeRuns source ls a, ∃ first last, Fills limits ls run c first last := by
  obtain ⟨run, hrun, hchunk⟩ := (mem_moduleChunks limits).1 hc
  have hupper := ((areRuns_freeRuns source ls a).each run hrun).upper
  exact ⟨run, hrun, moduleChunk?_eq_some hupper hchunk⟩

/-- The rows of a run, as lines, are a gap between the chunks of definitions. -/
theorem isGap_of_run {run : Nat × Nat} (hrun : run ∈ freeRuns source ls a) :
    IsGap (a.founds.map (chunkOf limits source ls)) ls.length (run.1 + 1) (run.2 + 1) := by
  have h := (areRuns_freeRuns source ls a).each run hrun
  have hcovered : ∀ row, (!isCovered (a.founds.map (·.rows source)) row) = false →
      ∃ c ∈ a.founds.map (chunkOf limits source ls), c.Holds (row + 1) := by
    intro row hrow
    exact isCovered_iff.1 (by simpa using hrow)
  have hordered := h.ordered
  have hupper := h.upper
  refine ⟨by omega, fun line hfirst hlast c hc hholds => ?_, ?_, ?_⟩
  · obtain ⟨row, rfl⟩ : ∃ row, line = row + 1 := ⟨line - 1, by omega⟩
    have hfree := h.inside row (by omega) (by omega)
    rw [isCovered_iff.2 ⟨c, hc, hholds⟩] at hfree
    cases hfree
  · rcases h.before with hzero | hrow
    · exact Or.inl (by omega)
    · by_cases hzero : run.1 = 0
      · exact Or.inl (by omega)
      · have hrows : run.1 - 1 + 1 = run.1 + 1 - 1 := by omega
        exact Or.inr (hrows ▸ hcovered _ hrow)
  · rcases h.after with hend | hrow
    · exact Or.inl hend
    · exact Or.inr (hcovered _ hrow)

theorem Fills.holds_iff {run : Nat × Nat} {c : Chunk} {first last row : Nat}
    (h : Fills limits ls run c first last) :
    c.Holds (row + 1) ↔ first ≤ row ∧ row ≤ last := by
  unfold Chunk.Holds
  rw [h.lines.1, h.lines.2]
  omega

/-- A chunk that fills a run holds only lines of the run. -/
theorem Fills.holds_run {run : Nat × Nat} {c : Chunk} {first last line : Nat}
    (h : Fills limits ls run c first last) (hline : c.Holds line) :
    run.1 + 1 ≤ line ∧ line ≤ run.2 + 1 := by
  obtain ⟨hfirst, hlast⟩ := hline
  rw [h.lines.1] at hfirst
  rw [h.lines.2] at hlast
  obtain ⟨hlower, -, hupper⟩ := h.rows
  omega

theorem apart_moduleChunks :
    (moduleChunks limits source ls a).Pairwise fun a b =>
      ∀ line, ¬ (a.Holds line ∧ b.Holds line) := by
  have hruns := areRuns_freeRuns source ls a
  refine List.pairwise_filterMap.2 (hruns.apart.imp_of_mem ?_)
  rintro r r' hr hr' hlt c hc c' hc' line ⟨hheld, hheld'⟩
  obtain ⟨first, last, hfills⟩ := moduleChunk?_eq_some (hruns.each r hr).upper hc
  obtain ⟨first', last', hfills'⟩ := moduleChunk?_eq_some (hruns.each r' hr').upper hc'
  have hline := hfills.holds_run limits hheld
  have hline' := hfills'.holds_run limits hheld'
  omega

/-- At most one chunk between definitions holds a line. -/
theorem eq_of_holds {c d : Chunk} (hc : c ∈ moduleChunks limits source ls a)
    (hd : d ∈ moduleChunks limits source ls a) {line : Nat} (hcline : c.Holds line)
    (hdline : d.Holds line) : c = d := by
  by_contra hne
  have hsymm : Std.Symm fun a b : Chunk => ∀ line, ¬ (a.Holds line ∧ b.Holds line) :=
    ⟨fun a b hab line hline => hab line hline.symm⟩
  exact (apart_moduleChunks limits).forall hc hd hne line ⟨hcline, hdline⟩

/-- A line that no definition holds is held by the chunk of its run, or is blank, or its run has
too little content. -/
theorem line_of_free {row : Nat} (hrow : row < ls.length)
    (hfree : isCovered (a.founds.map (·.rows source)) row = false) :
    (∃! c, c ∈ moduleChunks limits source ls a ∧ c.Holds (row + 1)) ∨
      isBlankRow ls row = true ∨
      ∃ first last, IsGap (a.founds.map (chunkOf limits source ls)) ls.length first last ∧
        first ≤ row + 1 ∧ row + 1 ≤ last ∧
        (inkedLines ls first last).length < limits.minModuleLines := by
  have hruns := areRuns_freeRuns source ls a
  obtain ⟨run, hrun, hfirst, hlast⟩ := hruns.covers row (Nat.zero_le row) hrow (by simp [hfree])
  have hupper := (hruns.each run hrun).upper
  cases hblank : isBlankRow ls row with
  | true => exact Or.inr (Or.inl rfl)
  | false =>
      have hinked : row ∈ inkedRows (isBlankRow ls) run.1 run.2 :=
        mem_inkedRows.2 ⟨hfirst, hlast, hblank⟩
      cases hchunk : moduleChunk? limits ls a run with
      | some c =>
          obtain ⟨first, last, hfills⟩ := moduleChunk?_eq_some hupper hchunk
          have hmem : c ∈ moduleChunks limits source ls a :=
            (mem_moduleChunks limits).2 ⟨run, hrun, hchunk⟩
          rw [← hfills.same] at hinked
          obtain ⟨hlower, hbelow, -⟩ := mem_inkedRows.1 hinked
          have hholds : c.Holds (row + 1) := (hfills.holds_iff limits).2 ⟨hlower, hbelow⟩
          refine Or.inl ⟨c, ⟨hmem, hholds⟩, ?_⟩
          rintro d ⟨hd, hdholds⟩
          exact eq_of_holds limits hd hmem hdholds hholds
      | none =>
          refine Or.inr (Or.inr ⟨run.1 + 1, run.2 + 1, isGap_of_run limits hrun, by omega, by omega,
            ?_⟩)
          rw [length_inkedLines ls (hruns.each run hrun).ordered hupper]
          rcases moduleChunk?_eq_none hupper hchunk with hnone | hfew
          · rw [hnone] at hinked
            cases hinked
          · exact hfew

/-- The chunks of definitions and those between them, however many there are. -/
theorem covers_moduleChunks :
    Covers limits ls (a.founds.map (chunkOf limits source ls))
      (moduleChunks limits source ls a) where
  lines := by
    intro line hfirst hlast
    obtain ⟨row, rfl⟩ : ∃ row, line = row + 1 := ⟨line - 1, by omega⟩
    cases hcovered : isCovered (a.founds.map (·.rows source)) row with
    | true => exact Or.inl (isCovered_iff.1 hcovered)
    | false => exact Or.inr (line_of_free limits (by omega) hcovered)
  apart := apart_moduleChunks limits
  outside := by
    rintro c hc d hd line ⟨hcline, hdline⟩
    obtain ⟨run, hrun, first, last, hfills⟩ := fills_of_mem limits hc
    obtain ⟨hlower, hupper⟩ := hfills.holds_run limits hcline
    exact (isGap_of_run limits hrun).free line hlower hupper d hd hdline
  ends := by
    intro c hc
    obtain ⟨run, hrun, first, last, hfills⟩ := fills_of_mem limits hc
    have hupper := ((areRuns_freeRuns source ls a).each run hrun).upper
    obtain ⟨-, hordered, hlast⟩ := hfills.rows
    rw [hfills.lines.1, hfills.lines.2]
    exact ⟨by omega, by omega, by omega, hfills.ends⟩
  enough := by
    intro c hc
    obtain ⟨run, hrun, first, last, hfills⟩ := fills_of_mem limits hc
    have hupper := ((areRuns_freeRuns source ls a).each run hrun).upper
    obtain ⟨-, hordered, hlast⟩ := hfills.rows
    rw [hfills.lines.1, hfills.lines.2, length_inkedLines ls hordered (by omega)]
    exact hfills.enough

end Cover

/-! ## Whole files -/

theorem perm_chunks_ofTree {limits : ChunkLimits} {l : Language} {text : String} {root : Node}
    (hfound : Outline.collect l text.toList root ≠ [])
    (hcap : (structuralChunks limits l text root).length +
      (betweenChunks limits l text root).length ≤ limits.maxChunks) :
    (ofTree limits l text root).chunks.Perm
      (structuralChunks limits l text root ++ betweenChunks limits l text root) := by
  rw [chunks_ofTree hfound, List.take_of_length_le (by omega), List.take_of_length_le (by omega)]
  exact List.mergeSort_perm _ _

/-- A text whose tree has definitions is cut into the chunks of these and those between them,
which leave out what is blank and what has too little content, unless there are more than are
allowed. A blank text has no chunks. -/
theorem parse_covers {grammar : Grammar} {limits : ChunkLimits} {language text : String}
    {l : Language} {root : Node} (hl : Language.ofName? language = some l)
    (hroot : grammar language text = some root)
    (hfound : Outline.collect l text.toList root ≠ [])
    (hcap : (structuralChunks limits l text root).length +
      (betweenChunks limits l text root).length ≤ limits.maxChunks) :
    (isBlankString text = false →
      (parse grammar limits language text).chunks.Perm
          (structuralChunks limits l text root ++ betweenChunks limits l text root) ∧
        Covers limits (linesOf text) (structuralChunks limits l text root)
          (betweenChunks limits l text root)) ∧
      (isBlankString text = true → (parse grammar limits language text).chunks = [] ∧
        ∀ line ∈ linesOf text, isBlankString line = true) := by
  constructor
  · intro hink
    rw [parse_of_tree hink hl hroot]
    exact ⟨perm_chunks_ofTree hfound hcap, covers_moduleChunks limits⟩
  · intro hblank
    refine ⟨parse_of_blank grammar limits language hblank, ?_⟩
    rwa [isBlankString_eq_all_lines, List.all_eq_true] at hblank

/-! ## A function between statements -/

def sampleText : String :=
  "import a\n\ndef f(x):\n    return x\n\nb = f(1)\nc = 2\n"

def sampleTree : Node :=
  .mk true "module" "" 0 49 [
    .mk true "import_statement" "" 0 8 [.mk true "dotted_name" "name" 7 8 []],
    .mk true "function_definition" "" 10 32 [
      .mk false "def" "" 10 13 [],
      .mk true "identifier" "name" 14 15 [],
      .mk true "parameters" "parameters" 15 18 [],
      .mk true "block" "body" 24 32 [.mk true "return_statement" "" 24 32 []]],
    .mk true "expression_statement" "" 34 42 [
      .mk true "assignment" "" 34 42 [
        .mk true "identifier" "left" 34 35 [],
        .mk true "call" "right" 38 42 [
          .mk true "identifier" "function" 38 39 [],
          .mk true "argument_list" "arguments" 39 42 []]]],
    .mk true "expression_statement" "" 43 48 []]

def sampleLimits : ChunkLimits :=
  { minModuleLines := 2 }

/-- The statements after the function are a chunk, the one before it is too short. -/
theorem parse_covers_sample :
    let grammar : Grammar := fun _ _ => some sampleTree
    let structural := structuralChunks sampleLimits .python sampleText sampleTree
    let between := betweenChunks sampleLimits .python sampleText sampleTree
    Language.ofName? "python" = some .python ∧
      Outline.collect .python sampleText.toList sampleTree ≠ [] ∧
      structural.length + between.length ≤ sampleLimits.maxChunks ∧
      structural.map Chunk.range = [(3, 4)] ∧ between.map Chunk.range = [(6, 7)] ∧
      (parse grammar sampleLimits "python" sampleText).chunks.Perm (structural ++ between) ∧
      Covers sampleLimits (linesOf sampleText) structural between := by
  intro grammar structural between
  have hl : Language.ofName? "python" = some .python := rfl
  have hfound : Outline.collect .python sampleText.toList sampleTree ≠ [] :=
    List.isEmpty_eq_false_iff.1 (by decide +kernel)
  have hcap : structural.length + between.length ≤ sampleLimits.maxChunks := by decide +kernel
  have hink : isBlankString sampleText = false := by decide +kernel
  have hroot : grammar "python" sampleText = some sampleTree := rfl
  have hcovers := (parse_covers hl hroot hfound hcap).1 hink
  exact ⟨hl, hfound, hcap, by decide +kernel, by decide +kernel, hcovers⟩

end ParsedFile

end CodeIndex

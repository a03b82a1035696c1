import CodeIndex.Chunk.Header
import CodeIndex.Chunk.Windows
import CodeIndex.Relation.Import
/-!
# The chunks of a file

A file in a language with a grammar is cut along its definitions, and the stretches between
them become chunks when they have enough content. Any other file, and one without
definitions, is cut into windows of lines.
-/

namespace CodeIndex

open Text Syntax

/-- The chunks and imports of a file. -/
structure ParsedFile where
  chunks : List Chunk := []
  imports : List Import := []
  usedWindows : Bool := false

namespace ParsedFile

def chunkOf (limits : ChunkLimits) (source : List Char) (ls : List String) (f : Found) : Chunk :=
  let (first, last) := f.rows source
  { kind := f.kind
    name := f.name
    signature := Header.signature source f.place.node
    docstring := Header.docstring? source f.place
    startLine := first + 1
    endLine := last + 1
    content := limits.truncate (rowsText ls first last)
    scopePath := f.scopePath
    calls := f.calls
    typeRefs := f.typeRefs }

/-! ## Between definitions -/

def isCovered (ranges : List (Nat × Nat)) (row : Nat) : Bool :=
  ranges.any fun (first, last) => first ≤ row && row ≤ last

/-- Maximal runs of rows that satisfy `p`, among the `n` rows from `row` on. -/
def runsFrom (p : Nat → Bool) : (n row : Nat) → List (Nat × Nat)
  | 0, _ => []
  | n + 1, row =>
    let rest := runsFrom p n (row + 1)
    if p row then
      match rest with
      | (first, last) :: more =>
        if first == row + 1 then (row, last) :: more else (row, row) :: rest
      | [] => [(row, row)]
    else rest

/-- A run of rows without blank rows at its ends; `none` when all are blank. -/
def trimRows (blank : Nat → Bool) (first last : Nat) : Option (Nat × Nat) :=
  let inked := ((List.range (last + 1 - first)).map (first + ·)).filter (!blank ·)
  match inked.head?, inked.getLast? with
  | some a, some b => some (a, b)
  | _, _ => none

/-- The names that occur in a run of rows, without repeats. -/
def namesIn (loose : List Outline.Loose) (first last : Nat) : List String :=
  distinct ((loose.filter fun x => first ≤ x.row && x.row ≤ last).map (·.name))

/-- The chunk of a run of rows between definitions, if it has enough content. -/
def moduleChunk? (limits : ChunkLimits) (ls : List String) (a : Outline.Assignment)
    (run : Nat × Nat) : Option Chunk := do
  let blank (row : Nat) : Bool := isBlankString ((ls[row]?).getD "")
  let (first, last) ← trimRows blank run.1 run.2
  let inked := ((ls.drop first).take (last + 1 - first)).filter (!isBlankString ·)
  if inked.length < limits.minModuleLines then none
  else
    some
      { kind := .moduleDef
        name := none
        signature := ""
        docstring := none
        startLine := first + 1
        endLine := last + 1
        content := limits.truncate (rowsText ls first last)
        scopePath := ""
        calls := namesIn a.calls first last
        typeRefs := namesIn a.types first last }

/-- The chunks between definitions, from top to bottom. -/
def moduleChunks (limits : ChunkLimits) (source : List Char) (ls : List String)
    (a : Outline.Assignment) : List Chunk :=
  let ranges := a.founds.map (·.rows source)
  let runs := runsFrom (fun row => !isCovered ranges row) ls.length 0
  runs.filterMap (moduleChunk? limits ls a)

/-! ## The whole file -/

def ofWindows (limits : ChunkLimits) (text : String) (imports : List Import) : ParsedFile :=
  ⟨windowChunks limits text, imports, true⟩

/-- A file cut along its definitions. Definitions come first when chunks are capped. -/
def ofTree (limits : ChunkLimits) (l : Language) (text : String) (root : Node) : ParsedFile :=
  let source := text.toList
  let imports := Import.ofTree l source (.root root)
  let founds := Outline.collect l source root
  if founds.isEmpty then ofWindows limits text imports
  else
    let a := Outline.assign l source root founds
    let ls := linesOf text
    let structural := (a.founds.take limits.maxChunks).map (chunkOf limits source ls)
    let room := limits.maxChunks - structural.length
    let between := (moduleChunks limits source ls a).take room
    ⟨(structural ++ between).mergeSort Chunk.comesBefore, imports, false⟩

end ParsedFile

/-- What a grammar makes of a text: the root of its tree, by language and text. -/
abbrev Grammar := (language text : String) → Option Syntax.Node

/-- The chunks and imports of a text. A blank text has none. -/
def parse (grammar : Grammar) (limits : ChunkLimits) (language text : String) : ParsedFile :=
  if isBlankString text then {}
  else
    match Language.ofName? language with
    | none => .ofWindows limits text []
    | some l =>
      match grammar language text with
      | none => .ofWindows limits text []
      | some root => .ofTree limits l text root

end CodeIndex

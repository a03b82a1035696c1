import CodeIndex.Relation.UseTree
import CodeIndex.Syntax.Language
/-!
# Imports of a file

Each import statement yields the symbols it brings in and the source they come from, in the
form of its language.
-/

namespace CodeIndex

open Text Syntax

/-- An imported symbol, its source and the line of the statement. -/
structure Import where
  symbol : String
  source : String
  line : Nat
  deriving Repr, DecidableEq

namespace Import

def isQuote (c : Char) : Bool :=
  c == '"' || c == '\'' || c == '\x60'

def unquote (cs : List Char) : List Char :=
  dropAround isQuote (trim cs)

/-- The dotted name of an imported module or symbol, without its alias. -/
def importedName (source : List Char) (n : Node) : List Char :=
  if n.kind == "aliased_import" then
    match n.child? "name" with
    | some name => name.text source
    | none => []
  else n.text source

/-- `import a, b.c as d` and `from m import x, y as z`. -/
def pairsPython (source : List Char) (n : Node) : List ImportPair :=
  let names := ((n.childrenIn "name").map (importedName source)).filter (!·.isEmpty)
  if n.kind == "import_statement" then names.map fun name => ⟨name, name⟩
  else if n.kind == "import_from_statement" then
    let module :=
      match n.child? "module_name" with
      | some m => m.text source
      | none => []
    let star := n.namedChildren.any (·.kind == "wildcard_import")
    names.map (⟨·, module⟩) ++ if star then [⟨['*'], module⟩] else []
  else []

/-- `alias "path"`; without a usable alias the symbol is the last segment of the path. -/
def pairsGo (source : List Char) (n : Node) : List ImportPair :=
  match n.child? "path" with
  | none => []
  | some p =>
    let path := unquote (p.text source)
    let name := (n.child? "name").map (·.text source)
    let usable := name.filter fun s => s != ['_'] && s != ['.']
    [⟨usable.getD (UseTree.lastSegment path), path⟩]

def clauseSymbols (source : List Char) (part : Node) : List (List Char) :=
  if part.kind == "identifier" then [part.text source]
  else if part.kind == "namespace_import" then
    match part.namedChild? "identifier" with
    | some id => [id.text source]
    | none => []
  else if part.kind == "named_imports" then
    let specs := part.namedChildren.filter (·.kind == "import_specifier")
    specs.filterMap fun s => (s.child? "name").map (·.text source)
  else []

/-- The variable that the result of a call is bound to, seen from an argument. -/
def boundName? (source : List Char) (p : Place) : Option (List Char) := do
  let arguments ← p.parent?
  let call ← arguments.parent?
  let declaration ← call.parent?
  if declaration.node.kind != "variable_declarator" then none
  let name ← declaration.node.child? "name"
  if name.kind == "identifier" then some (name.text source) else none

/-- Import statements and required modules of scripts. -/
def pairsScript (source : List Char) (p : Place) : List ImportPair :=
  let n := p.node
  if n.kind == "string" then
    let module := unquote (n.text source)
    [⟨(boundName? source p).getD (UseTree.lastSegment module), module⟩]
  else
    match n.child? "source" with
    | none => []
    | some s =>
      let module := unquote (s.text source)
      let clauses := n.namedChildren.filter (·.kind == "import_clause")
      let symbols := (clauses.flatMap (·.namedChildren)).flatMap (clauseSymbols source)
      let symbols := if symbols.isEmpty then [UseTree.lastSegment module] else symbols
      symbols.map (⟨·, module⟩)

def pairs (style : ImportStyle) (source : List Char) (p : Place) (text : List Char) :
    List ImportPair :=
  match style with
  | .rust => UseTree.expand text
  | .python => pairsPython source p.node
  | .go => pairsGo source p.node
  | .javaScript => pairsScript source p

/-- The imports of a file, each symbol of a source once, where it occurs first. -/
def ofTree (l : Language) (source : List Char) (root : Place) : List Import :=
  let all := (captureTexts l.imports source root).flatMap fun (p, text) =>
    (pairs l.importStyle source p text).map fun (pair : ImportPair) =>
      (⟨String.ofList pair.symbol, String.ofList pair.source,
        p.node.startRow source + 1⟩ : Import)
  all.foldl
    (fun seen i =>
      if seen.any fun j => j.symbol == i.symbol && j.source == i.source then seen
      else seen ++ [i])
    []

end Import

end CodeIndex

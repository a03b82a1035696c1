import CodeIndex.Chunk.Basic
import CodeIndex.Relation.CallName
import CodeIndex.Syntax.Language
/-!
# The outline of a file

The nodes of a syntax tree that become chunks, each with its kind, name and scope, and with
the calls and types that occur directly inside it.
-/

namespace CodeIndex

open Text Syntax

/-- A node that becomes a chunk. -/
structure Found where
  place : Place
  kind : ChunkKind
  name : Option String
  scopePath : String
  calls : List String := []
  typeRefs : List String := []

namespace Outline

abbrev declarator? (n : Node) : Option Node :=
  n.namedChild? "variable_declarator"

def isRootKind (kind : String) : Bool :=
  kind == "program" || kind == "source_file" || kind == "module"

/-- Directly below the root, or below an export that is. -/
def isTopLevel (p : Place) : Bool :=
  match p.parent? with
  | none => false
  | some q =>
    isRootKind q.node.kind
      || (q.node.kind == "export_statement" && q.parentKind?.any isRootKind)

/-- What a type declaration declares, by the type on its right. -/
def declaredTypeKind (n : Node) : ChunkKind :=
  let spec := n.namedChildren.find? fun c => c.kind == "type_spec" || c.kind == "type_alias"
  match spec with
  | some s =>
    if s.kind == "type_spec" then
      match (s.child? "type").map (·.kind) with
      | some "struct_type" => .structDef
      | some "interface_type" => .interfaceDef
      | _ => .typeAlias
    else .typeAlias
  | none => .typeAlias

/-- What a variable declaration holds: a function or a class by its value, else a constant
or a variable when it has more than one line. -/
def declaredValueKind? (source : List Char) (n : Node) : Option ChunkKind :=
  match declarator? n with
  | none => none
  | some d =>
    match (d.child? "value").map (·.kind) with
    | some "arrow_function" | some "function_expression" | some "function"
    | some "generator_function" => some .function
    | some "class" | some "class_expression" => some .classDef
    | _ =>
      if n.startRow source == n.stopRow source then none
      else if (stripStart "const".toList (trimStart (n.text source))).isSome then some .constantDef
      else some .variableDef

/-- The kind of the chunk that a node becomes below a chunk of kind `outer`, if it does. -/
def kindOf? (l : Language) (source : List Char) (p : Place) (outer : Option ChunkKind) :
    Option ChunkKind := do
  let rule ← l.rule? p.node.kind
  if rule.topLevelOnly && !isTopLevel p then none
  let kind ←
    if p.node.kind == "type_declaration" then some (declaredTypeKind p.node)
    else if p.node.kind == "lexical_declaration" || p.node.kind == "variable_declaration" then
      declaredValueKind? source p.node
    else some rule.kind
  let inFunction := outer == some .function || outer == some .method
  if inFunction && (kind == .constantDef || kind == .variableDef) then none
  else if kind == .function && outer.any (·.isContainer) then some .method
  else some kind

def nameNode? (n : Node) : Option Node :=
  if n.kind == "impl_item" then n.child? "type"
  else if n.kind == "type_declaration" then
    ((n.namedChild? "type_spec").or (n.namedChild? "type_alias")).bind (·.child? "name")
  else if n.kind == "lexical_declaration" || n.kind == "variable_declaration" then
    (declarator? n).bind (·.child? "name")
  else n.child? "name"

/-- The name of a definition, without type parameters. -/
def nameOf? (source : List Char) (n : Node) : Option String := do
  let name ← nameNode? n
  let text ← name.text? source
  let word := trim (text.takeWhile (· != '<'))
  if word.isEmpty then none else some (String.ofList word)

/-- The word for a definition in scopes: its name, or its kind when it has none. -/
def segment (kind : ChunkKind) (name : Option String) : String :=
  name.getD kind.word

/-- What a node becomes below the chunk `owner`, if it becomes a chunk. -/
def found? (l : Language) (source : List Char) (owner : Option Found) (p : Place) :
    Option Found :=
  (kindOf? l source p (owner.map (·.kind))).map fun kind =>
    let name := nameOf? source p.node
    let scope :=
      match owner with
      | some o => o.scopePath ++ "." ++ segment kind name
      | none => segment kind name
    { place := p, kind, name, scopePath := scope }

mutual

/-- The chunks of a node and of the named nodes below it, in pre-order, below `owner`. -/
def collectAt (l : Language) (source : List Char) (owner : Option Found)
    (above : List (Node × Nat)) : Node → List Found
  | .mk named kind field start stop children =>
    let node := Node.mk named kind field start stop children
    match found? l source owner ⟨node, above⟩ with
    | some f => f :: collectAmong l source (some f) node above 0 children
    | none => collectAmong l source owner node above 0 children

/-- The chunks of the named nodes among `rest`, the children of `parent` from `i` on. -/
def collectAmong (l : Language) (source : List Char) (owner : Option Found) (parent : Node)
    (above : List (Node × Nat)) (i : Nat) : List Node → List Found
  | [] => []
  | c :: cs =>
    (if c.named then collectAt l source owner ((parent, i) :: above) c else [])
      ++ collectAmong l source owner parent above (i + 1) cs

end

/-- The nodes below the root that become chunks, in pre-order. -/
def collect (l : Language) (source : List Char) (root : Node) : List Found :=
  collectAmong l source none root [] 0 root.children

/-! ## Calls and types -/

/-- The position in the list of the chunk that a node became; the last one if a node is listed
more than once. -/
def position? (founds : List Found) (p : Place) : Option Nat :=
  let address := p.address
  (founds.zipIdx.findRev? fun (f, _) => f.place.address == address).map (·.2)

/-- The position of the innermost chunk around a place: of the nodes above it, the nearest that
became a chunk. -/
def owner? (founds : List Found) (p : Place) : Option Nat :=
  p.ancestors.findSome? (position? founds)

/-- A name that occurs outside every chunk, with its row. -/
structure Loose where
  row : Nat
  name : String

/-- Names handed out to chunks, and those left over. -/
structure Assignment where
  founds : List Found
  calls : List Loose := []
  types : List Loose := []

/-- A list with a name at its end, unless it has it already. -/
def addNew (names : List String) (name : String) : List String :=
  if names.contains name then names else names ++ [name]

/-- Hands a call to the innermost chunk around it. -/
def Assignment.addCall (source : List Char) (a : Assignment) (capture : Place × List Char) :
    Assignment :=
  match CallName.ofText? capture.2 with
  | none => a
  | some cs =>
    let name := String.ofList cs
    match owner? a.founds capture.1 with
    | some i =>
      { a with founds := a.founds.modify i fun f => { f with calls := addNew f.calls name } }
    | none => { a with calls := a.calls ++ [⟨capture.1.node.startRow source, name⟩] }

/-- Hands a type to the innermost chunk around it; a chunk does not refer to itself. -/
def Assignment.addType (source : List Char) (a : Assignment) (capture : Place × List Char) :
    Assignment :=
  let name := String.ofList capture.2
  match owner? a.founds capture.1 with
  | some i =>
    { a with
      founds := a.founds.modify i fun f =>
        if f.name == some name then f else { f with typeRefs := addNew f.typeRefs name } }
  | none => { a with types := a.types ++ [⟨capture.1.node.startRow source, name⟩] }

/-- All calls and types of the tree handed out. -/
def assign (l : Language) (source : List Char) (root : Node) (founds : List Found) : Assignment :=
  let calls := captureTexts l.calls source (.root root)
  let types := captureTexts l.types source (.root root)
  types.foldl (·.addType source) (calls.foldl (·.addCall source) ⟨founds, [], []⟩)

end Outline

end CodeIndex

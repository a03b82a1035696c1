import CodeIndex.Chunk.Kind
import CodeIndex.Syntax.Capture
/-!
# Languages

Which file extensions belong to which language, and for the languages with a grammar which
nodes become chunks and what is captured. All other languages are known by name only.
-/

namespace CodeIndex

open Syntax

/-- A node kind that becomes a chunk. -/
structure ChunkRule where
  nodeKind : String
  kind : ChunkKind
  /-- Only directly below the root, or below an export that is. -/
  topLevelOnly : Bool := false
  deriving Repr, DecidableEq

/-- The form of a language's import statements. -/
inductive ImportStyle where
  | rust
  | python
  | go
  | javaScript
  deriving Repr, DecidableEq

namespace ImportStyle

def name : ImportStyle → String
  | .rust => "Rust"
  | .python => "Python"
  | .go => "Go"
  | .javaScript => "JavaScript"

end ImportStyle

/-- A language with a grammar. -/
structure Language where
  name : String
  extensions : List String
  rules : List ChunkRule
  importStyle : ImportStyle
  calls : List Pattern
  imports : List Pattern
  types : List Pattern

namespace Language

def rule? (l : Language) (nodeKind : String) : Option ChunkRule :=
  l.rules.find? (·.nodeKind == nodeKind)

def rust : Language where
  name := "rust"
  extensions := ["rs"]
  rules := [
    ⟨"function_item", .function, false⟩,
    ⟨"function_signature_item", .function, false⟩,
    ⟨"impl_item", .implDef, false⟩,
    ⟨"struct_item", .structDef, false⟩,
    ⟨"enum_item", .enumDef, false⟩,
    ⟨"union_item", .structDef, false⟩,
    ⟨"trait_item", .traitDef, false⟩,
    ⟨"mod_item", .moduleDef, false⟩,
    ⟨"type_item", .typeAlias, false⟩,
    ⟨"const_item", .constantDef, false⟩,
    ⟨"static_item", .constantDef, false⟩]
  importStyle := .rust
  calls := [.role "call_expression" "function"]
  imports := [.role "use_declaration" "argument"]
  types := [.node "type_identifier"]

def python : Language where
  name := "python"
  extensions := ["py", "pyi"]
  rules := [
    ⟨"function_definition", .function, false⟩,
    ⟨"class_definition", .classDef, false⟩]
  importStyle := .python
  calls := [.role "call" "function"]
  imports := [.node "import_statement", .node "import_from_statement"]
  types := [.below "type" "identifier"]

def go : Language where
  name := "go"
  extensions := ["go"]
  rules := [
    ⟨"function_declaration", .function, false⟩,
    ⟨"method_declaration", .method, false⟩,
    ⟨"type_declaration", .typeAlias, false⟩]
  importStyle := .go
  calls := [.role "call_expression" "function"]
  imports := [.node "import_spec"]
  types := [.node "type_identifier"]

def scriptCalls : List Pattern :=
  [.role "call_expression" "function", .role "new_expression" "constructor"]

def scriptImports : List Pattern :=
  [.node "import_statement", .require]

def javaScript : Language where
  name := "javascript"
  extensions := ["js", "jsx", "mjs", "cjs"]
  rules := [
    ⟨"function_declaration", .function, false⟩,
    ⟨"generator_function_declaration", .function, false⟩,
    ⟨"class_declaration", .classDef, false⟩,
    ⟨"method_definition", .method, false⟩,
    ⟨"lexical_declaration", .variableDef, true⟩,
    ⟨"variable_declaration", .variableDef, true⟩]
  importStyle := .javaScript
  calls := scriptCalls
  imports := scriptImports
  types := []

def typeScript : Language where
  name := "typescript"
  extensions := ["ts", "mts", "cts"]
  rules := [
    ⟨"function_declaration", .function, false⟩,
    ⟨"generator_function_declaration", .function, false⟩,
    ⟨"class_declaration", .classDef, false⟩,
    ⟨"abstract_class_declaration", .classDef, false⟩,
    ⟨"method_definition", .method, false⟩,
    ⟨"interface_declaration", .interfaceDef, false⟩,
    ⟨"type_alias_declaration", .typeAlias, false⟩,
    ⟨"enum_declaration", .enumDef, false⟩,
    ⟨"internal_module", .moduleDef, false⟩,
    ⟨"lexical_declaration", .variableDef, true⟩,
    ⟨"variable_declaration", .variableDef, true⟩]
  importStyle := .javaScript
  calls := scriptCalls
  imports := scriptImports
  types := [.node "type_identifier"]

def typeScriptMarkup : Language :=
  { typeScript with name := "tsx", extensions := ["tsx"] }

/-- The languages with a grammar, in order of precedence. -/
def all : List Language :=
  [rust, python, go, javaScript, typeScript, typeScriptMarkup]

def ofName? (name : String) : Option Language :=
  all.find? (·.name == name)

/-- Extensions of languages that are known by name only. -/
def nameOnly : List (String × String) := [
  ("c", "c"), ("h", "c"), ("cpp", "cpp"), ("cc", "cpp"), ("hpp", "cpp"), ("java", "java"),
  ("rb", "ruby"), ("lua", "lua"), ("php", "php"), ("cs", "c_sharp"), ("swift", "swift"),
  ("kt", "kotlin"), ("scala", "scala"), ("hs", "haskell"), ("ex", "elixir"), ("exs", "elixir"),
  ("erl", "erlang"), ("ml", "ocaml"), ("vim", "vim"), ("sh", "bash"), ("bash", "bash"),
  ("zsh", "bash"), ("yaml", "yaml"), ("yml", "yaml"), ("json", "json"), ("toml", "toml"),
  ("html", "html"), ("css", "css"), ("sql", "sql")]

def canonical? (name : String) : Option String :=
  if all.any (·.name == name) || nameOnly.any (·.2 == name) then some name else none

/-- Every known extension, those of languages with a grammar first. -/
def knownExtensions : List String :=
  all.flatMap (·.extensions) ++ nameOnly.map (·.1)

def ofExtension? (ext : String) : Option String :=
  match all.find? (·.extensions.contains ext) with
  | some l => some l.name
  | none => (nameOnly.find? (·.1 == ext)).map (·.2)

end Language

end CodeIndex

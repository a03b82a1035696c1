/-!
# Kinds of chunks
-/

namespace CodeIndex

/-- What a chunk of a file is. -/
inductive ChunkKind where
  | function
  | method
  | classDef
  | structDef
  | enumDef
  | interfaceDef
  | traitDef
  | implDef
  | moduleDef
  | typeAlias
  | constantDef
  | variableDef
  | block
  deriving Repr, DecidableEq, Inhabited

namespace ChunkKind

def all : List ChunkKind :=
  [.function, .method, .classDef, .structDef, .enumDef, .interfaceDef, .traitDef, .implDef,
    .moduleDef, .typeAlias, .constantDef, .variableDef, .block]

def word : ChunkKind → String
  | .function => "function"
  | .method => "method"
  | .classDef => "class"
  | .structDef => "struct"
  | .enumDef => "enum"
  | .interfaceDef => "interface"
  | .traitDef => "trait"
  | .implDef => "impl"
  | .moduleDef => "module"
  | .typeAlias => "type_alias"
  | .constantDef => "constant"
  | .variableDef => "variable"
  | .block => "block"

def ofWord? (w : String) : Option ChunkKind :=
  all.find? (·.word == w)

def definesType : ChunkKind → Bool
  | .classDef | .structDef | .enumDef | .interfaceDef | .traitDef | .typeAlias => true
  | _ => false

/-- Functions directly inside are methods. -/
def isContainer : ChunkKind → Bool
  | .classDef | .structDef | .interfaceDef | .traitDef | .implDef => true
  | _ => false

end ChunkKind

end CodeIndex

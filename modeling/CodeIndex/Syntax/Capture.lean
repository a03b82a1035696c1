import CodeIndex.Syntax.Tree
/-!
# Capture patterns

What is collected from a tree: callees, imports and type names. A pattern says which nodes
are captured at one outer node; captures come in the pre-order of the outer nodes.
-/

namespace CodeIndex.Syntax

/-- What to capture at an outer node. -/
inductive Pattern where
  /-- Any named node of that kind. -/
  | node (kind : String)
  /-- The named children in that role of a named node of that kind. -/
  | role (kind field : String)
  /-- The named children of kind `child` of a named node of that kind. -/
  | below (kind child : String)
  /-- The strings among the arguments of a call to `require`. -/
  | require
  deriving Repr, DecidableEq

def Place.isKind (p : Place) (kind : String) : Bool :=
  p.node.named && p.node.kind == kind

def Pattern.capturesAt (source : List Char) (p : Place) : Pattern → List Place
  | .node k => if p.isKind k then [p] else []
  | .role kind field =>
    if p.isKind kind then p.children.filter fun c => c.node.named && c.node.field == field else []
  | .below kind child =>
    if p.isKind kind then p.children.filter (·.isKind child) else []
  | .require =>
    if p.isKind "call_expression" then
      let callee := p.children.any fun c =>
        c.node.field == "function" && c.isKind "identifier"
          && c.node.text source == "require".toList
      let arguments := p.children.filter fun c =>
        c.node.field == "arguments" && c.isKind "arguments"
      if callee then (arguments.flatMap Place.children).filter (·.isKind "string") else []
    else []

/-- Everything that the patterns capture below the root, in pre-order of the outer nodes. -/
def captures (patterns : List Pattern) (source : List Char) (root : Place) : List Place :=
  root.preorder.flatMap fun p => patterns.flatMap (·.capturesAt source p)

/-- Captured places with their text; those whose bytes are no text are left out. -/
def captureTexts (patterns : List Pattern) (source : List Char) (root : Place) :
    List (Place × List Char) :=
  (captures patterns source root).filterMap fun p => (p.node.text? source).map (p, ·)

end CodeIndex.Syntax

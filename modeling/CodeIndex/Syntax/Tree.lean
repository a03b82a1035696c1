/-!
# Syntax trees

The tree of a source text: every node has a kind, the name of its role in the node above,
and the bytes of the text that it covers. A place is a node together with the way to it
from the root, which tells nodes apart and leads back up.
-/

namespace CodeIndex.Syntax

/-- A node. `named` is false for punctuation and keywords; `field` is empty for a node
without a role name. -/
inductive Node where
  | mk (named : Bool) (kind field : String) (start stop : Nat) (children : List Node)

namespace Node

/-- Stands for more than punctuation or a keyword. -/
def named : Node → Bool
  | mk n _ _ _ _ _ => n

def kind : Node → String
  | mk _ k _ _ _ _ => k

def field : Node → String
  | mk _ _ f _ _ _ => f

/-- The first byte covered. -/
def start : Node → Nat
  | mk _ _ _ s _ _ => s

/-- The byte after the last one covered. -/
def stop : Node → Nat
  | mk _ _ _ _ e _ => e

def children : Node → List Node
  | mk _ _ _ _ _ cs => cs

def namedChildren (n : Node) : List Node :=
  n.children.filter named

def child? (n : Node) (role : String) : Option Node :=
  n.children.find? (·.field == role)

def childrenIn (n : Node) (role : String) : List Node :=
  n.children.filter (·.field == role)

/-- The first named node directly below of that kind. -/
def namedChild? (n : Node) (kind : String) : Option Node :=
  n.namedChildren.find? (·.kind == kind)

end Node

/-- A node and the nodes above it, nearest first, each with the position of the child that
leads down. -/
structure Place where
  node : Node
  above : List (Node × Nat)

namespace Place

/-- The places of the nodes along the way from a node up to the root. -/
def placesAlong : List (Node × Nat) → List Place
  | [] => []
  | (n, _) :: rest => ⟨n, rest⟩ :: placesAlong rest

def root (n : Node) : Place :=
  ⟨n, []⟩

/-- The positions that lead to the node, the last one first. No two nodes share them. -/
def address (p : Place) : List Nat :=
  p.above.map (·.2)

def parent? (p : Place) : Option Place :=
  match p.above with
  | [] => none
  | (n, _) :: rest => some ⟨n, rest⟩

def parentKind? (p : Place) : Option String :=
  p.parent?.map (·.node.kind)

/-- The places of the nodes above, the nearest first. -/
def ancestors (p : Place) : List Place :=
  placesAlong p.above

/-- The siblings before the node, the nearest first. -/
def before (p : Place) : List Node :=
  match p.above with
  | [] => []
  | (n, i) :: _ => (n.children.take i).reverse

def children (p : Place) : List Place :=
  p.node.children.zipIdx.map fun (c, i) => ⟨c, (p.node, i) :: p.above⟩

end Place

mutual

/-- The node and all below it, a node before its children and these in order. -/
def Node.placesBelow (above : List (Node × Nat)) : Node → List Place
  | .mk named kind field start stop children =>
    let node := Node.mk named kind field start stop children
    ⟨node, above⟩ :: placesAmong node above 0 children

/-- The places of `rest`, the children of `parent` from position `i` on, and all below. -/
def placesAmong (parent : Node) (above : List (Node × Nat)) (i : Nat) : List Node → List Place
  | [] => []
  | c :: cs => c.placesBelow ((parent, i) :: above) ++ placesAmong parent above (i + 1) cs

end

/-- All places of a tree in pre-order. -/
def Place.preorder (p : Place) : List Place :=
  p.node.placesBelow p.above

/-! ## Positions in the text -/

/-- The number of newlines among the first `offset` bytes: the row, counted from zero. -/
def rowAt : List Char → Nat → Nat
  | [], _ => 0
  | c :: cs, offset =>
    if offset == 0 then 0
    else (if c == '\n' then 1 else 0) + rowAt cs (offset - c.utf8Size)

/-- The bytes between the last newline before `offset`, or the start, and `offset`; `seen`
is the number of such bytes already passed. -/
def columnFrom (seen : Nat) : List Char → Nat → Nat
  | [], _ => seen
  | c :: cs, offset =>
    if offset == 0 then seen
    else columnFrom (if c == '\n' then 0 else seen + c.utf8Size) cs (offset - c.utf8Size)

/-- The column of a byte offset, counted in bytes from zero. -/
def columnAt (text : List Char) (offset : Nat) : Nat :=
  columnFrom 0 text offset

/-- The text after its first `n` bytes; `none` when that splits a character or exceeds the
text. -/
def dropBytes : List Char → Nat → Option (List Char)
  | cs, 0 => some cs
  | [], _ + 1 => none
  | c :: cs, n + 1 => if c.utf8Size ≤ n + 1 then dropBytes cs (n + 1 - c.utf8Size) else none

/-- The first `n` bytes of a text; `none` when that splits a character or exceeds the text. -/
def takeBytes : List Char → Nat → Option (List Char)
  | _, 0 => some []
  | [], _ + 1 => none
  | c :: cs, n + 1 =>
    if c.utf8Size ≤ n + 1 then (takeBytes cs (n + 1 - c.utf8Size)).map (c :: ·) else none

/-- The bytes from `start` to `stop`, when they are text. -/
def slice? (text : List Char) (start stop : Nat) : Option (List Char) :=
  if start ≤ stop then (dropBytes text start).bind (takeBytes · (stop - start)) else none

namespace Node

def text? (source : List Char) (n : Node) : Option (List Char) :=
  slice? source n.start n.stop

/-- The text that a node covers, or nothing. -/
def text (source : List Char) (n : Node) : List Char :=
  (n.text? source).getD []

def startRow (source : List Char) (n : Node) : Nat :=
  rowAt source n.start

def stopRow (source : List Char) (n : Node) : Nat :=
  rowAt source n.stop

/-- The rows that a node owns, first and last. A node that stops at the start of a row does
not own that row, unless it started there. -/
def rows (source : List Char) (n : Node) : Nat × Nat :=
  let first := n.startRow source
  let last := n.stopRow source
  if columnAt source n.stop == 0 && first < last then (first, last - 1) else (first, last)

end Node

end CodeIndex.Syntax

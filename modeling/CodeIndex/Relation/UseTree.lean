import CodeIndex.Text.Search
/-!
# Grouped imports

An import argument in which a path may end in a group of further arguments in braces, as in
`a::b::{c, d::{self, e as f}}`. Each leaf imports one symbol from one source.
-/

namespace CodeIndex

open Text

/-- An imported symbol and the source it comes from. -/
structure ImportPair where
  symbol : List Char
  source : List Char
  deriving Repr, DecidableEq

namespace UseTree

/-- Between the segments of a path. -/
def separator : List Char :=
  [':', ':']

def joinPaths (a b : List Char) : List Char :=
  if a.isEmpty then b else if b.isEmpty then a else a ++ separator ++ b

/-- The text without any separators at its end. -/
def dropSeparators (fuel : Nat) (cs : List Char) : List Char :=
  match fuel with
  | 0 => cs
  | fuel + 1 =>
    match stripEnd separator cs with
    | some head => dropSeparators fuel head
    | none => cs

/-- The parts of a text between the commas outside braces; `depth` braces are open. -/
def topParts (depth : Nat) : List Char → List (List Char)
  | [] => [[]]
  | c :: cs =>
    if c == ',' && depth == 0 then [] :: topParts 0 cs
    else
      let depth := if c == '\x7b' then depth + 1 else if c == '\x7d' then depth - 1 else depth
      match topParts depth cs with
      | [] => [[c]]
      | p :: ps => (c :: p) :: ps

/-- The last non-empty segment of a path in any notation, or the whole path. -/
def lastSegment (path : List Char) : List Char :=
  let segments := pieces (fun c => c == '/' || c == '.' || c == ':') path
  (segments.reverse.find? (!·.isEmpty)).getD path

/-- The argument as head and inside of a group, when it ends in a brace. -/
def group? (cs : List Char) : Option (List Char × List Char) :=
  if cs.getLast? == some '\x7d' then
    (splitFirst ['\x7b'] cs).map fun (head, inside) => (head, inside.dropLast)
  else none

def leafPair (full : List Char) : ImportPair :=
  match splitLast separator full with
  | some (source, symbol) =>
    if symbol == "self".toList then ⟨lastSegment source, source⟩ else ⟨symbol, source⟩
  | none => ⟨full, full⟩

/-- The pairs of an argument below the path `base`. Groups nest no deeper than `fuel`. -/
def expandFrom (fuel : Nat) (base cs : List Char) : List ImportPair :=
  match fuel with
  | 0 => []
  | fuel + 1 =>
    let cs := trim cs
    if cs.isEmpty then []
    else
      match group? cs with
      | some (head, inside) =>
        let path := joinPaths base (dropSeparators cs.length (trim head))
        (topParts 0 inside).flatMap (expandFrom fuel path)
      | none =>
        let leaf :=
          match splitFirst " as ".toList cs with
          | some (before, _) => before
          | none => cs
        [leafPair (joinPaths base (trim leaf))]

def expand (cs : List Char) : List ImportPair :=
  expandFrom (cs.length + 1) [] cs

end UseTree

end CodeIndex

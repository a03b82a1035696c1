import CodeIndex.Chunk.Outline
/-!
# Signatures and documentation

The header of a definition, and the comment or string that documents it.
-/

namespace CodeIndex

open Text Syntax

namespace Header

def maxSignature : Nat := 300

/-- Punctuation between a header and what follows it. -/
def endsHeader (c : Char) : Bool :=
  c == '\x7b' || c == ':' || c == ';' || c == '=' || isBlank c

/-- The byte offset of the first newline at or after `start`. -/
def newlineAfter? (source : List Char) (start : Nat) : Option Nat :=
  (dropBytes source start).bind fun rest =>
    let head := rest.takeWhile (· != '\n')
    if head.length == rest.length then none
    else some (start + head.foldl (fun n c => n + c.utf8Size) 0)

/-- Where the header of a definition stops: at its body, or at the end of its first line. -/
def stop (source : List Char) (n : Node) : Nat :=
  match n.child? "body" with
  | some body => body.start
  | none => min ((newlineAfter? source n.start).getD n.stop) n.stop

/-- The header on one line, without what leads over to the body. -/
def signature (source : List Char) (n : Node) : String :=
  let header := (slice? source n.start (stop source n)).getD []
  let words := blankWords header
  let line := [' '].intercalate words
  String.ofList ((dropEnd endsHeader line).take maxSignature)

/-- A string literal as first statement of the body documents a definition. -/
def bodyDocstring? (source : List Char) (n : Node) : Option String := do
  if n.kind != "function_definition" && n.kind != "class_definition" then none
  let body ← n.child? "body"
  let first ← body.namedChildren.head?
  if first.kind != "expression_statement" then none
  let string ← first.namedChildren.head?
  if string.kind != "string" then none
  let unmarked := dropStart Char.isAlpha (string.text source)
  let doc := trim (dropAround (fun c => c == '"' || c == '\'') unmarked)
  if doc.isEmpty then none else some (String.ofList doc)

/-- Marks at the start of a comment line; the first that fits is removed. -/
def commentMarks : List (List Char) :=
  ["///", "//!", "//", "/**", "/*", "*", "#"].map String.toList

def cleanLine (line : List Char) : List Char :=
  let line := withoutEnd ['*', '/'] (trim line)
  trim ((commentMarks.findSome? (stripStart · line)).getD line)

/-- A comment without its marks and empty lines. -/
def cleanComment (cs : List Char) : List Char :=
  ['\n'].intercalate (((lines cs).map cleanLine).filter (!·.isEmpty))

/-- The comments directly above row `row`, the lowest first; attributes and decorators may
stand between. `before` are the preceding siblings, nearest first. -/
def commentsAbove (source : List Char) (row : Nat) : List Node → List (List Char)
  | [] => []
  | n :: before =>
    if n.kind == "attribute_item" || n.kind == "decorator" then
      commentsAbove source (n.startRow source) before
    else if !hasPart "comment".toList n.kind.toList then []
    else if (n.rows source).2 + 1 < row then []
    else cleanComment (n.text source) :: commentsAbove source (n.startRow source) before

/-- The node whose lines make up a chunk: a decorated definition or an export statement
counts as part of what it wraps. -/
def span (p : Place) : Place :=
  match p.parent? with
  | some q =>
    if q.node.kind == "decorated_definition" || q.node.kind == "export_statement" then q else p
  | none => p

/-- The documentation of a definition: its own string, or the comments above it. -/
def docstring? (source : List Char) (p : Place) : Option String :=
  match bodyDocstring? source p.node with
  | some doc => some doc
  | none =>
    let s := span p
    let blocks := (commentsAbove source (s.node.startRow source) s.before).reverse
    let doc := trim (['\n'].intercalate blocks)
    if doc.isEmpty then none else some (String.ofList doc)

end Header

/-- The rows of the chunk of a found node, first and last. -/
def Found.rows (source : List Char) (f : Found) : Nat × Nat :=
  (Header.span f.place).node.rows source

end CodeIndex

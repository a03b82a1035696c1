import CodeIndex.Text.Numeric
import CodeIndex.Text.Search
/-!
# Names of calls

The name of what is called, written with dots whatever the language writes. Calls to
built-in functions and to computed values have no name.
-/

namespace CodeIndex

open Text

namespace CallName

/-- Functions that are part of a language and say nothing about a project. -/
def builtins : List String := [
  "len", "make", "append", "delete", "print", "println", "panic", "recover", "range", "return",
  "break", "continue", "new", "cap", "copy", "close", "Some", "Ok", "Err", "Box.new", "super",
  "require", "isinstance", "str", "int", "float", "bool", "list", "dict", "set", "tuple"]

def receivers : List String :=
  ["self", "this", "Self"]

/-- A closing bracket, which ends a computed receiver. -/
def isClosing (c : Char) : Bool :=
  c == ')' || c == ']'

/-- The text after the last closing bracket. -/
def afterReceiver (cs : List Char) : List Char :=
  (cs.reverse.takeWhile fun c => !isClosing c).reverse

/-- Every separator written as a dot. -/
def dotted (cs : List Char) : List Char :=
  replaceAll ['?', '.'] ['.'] (replaceAll ['-', '>'] ['.'] (replaceAll [':', ':'] ['.'] cs))

def beforeGenerics (cs : List Char) : List Char :=
  cs.takeWhile (· != '<')

/-- The candidate for a name in the text of a callee. -/
def candidate (cs : List Char) : List Char :=
  let inked := cs.filter (!isBlank ·)
  dropAround (· == '.') (beforeGenerics (dotted (afterReceiver inked)))

def isNameChar (c : Char) : Bool :=
  isAlphanumeric c || c == '_' || c == '.' || c == '$'

/-- Segments of name characters joined by single dots, not starting with an ASCII digit. -/
def isDottedName (cs : List Char) : Bool :=
  !cs.isEmpty && !hasPart ['.', '.'] cs && cs.all isNameChar
    && !(cs.head?.any Char.isDigit)

/-- The dotted name of a callee's text, unless it is computed or built in. -/
def ofText? (cs : List Char) : Option (List Char) :=
  let name := candidate cs
  let word := String.ofList name
  if !isDottedName name || receivers.contains word || builtins.contains word then none
  else some name

/-! ## Calls in text without a tree -/

/-- Words that a parenthesis may follow without a call. -/
def keywords : List String := [
  "if", "for", "while", "switch", "return", "catch", "sizeof", "function", "elif", "match",
  "until", "unless", "foreach", "typeof", "new", "def", "fn", "func", "when", "and", "or", "not"]

def startsIdentifier (c : Char) : Bool :=
  c.isAlpha || c == '_' || c == '$'

def isIdentifierChar (c : Char) : Bool :=
  c.isAlphanum || c == '_' || c == '$'

/-- The number of characters of the identifiers with their separators at the start of a text,
as far as they reach, added to the `n` characters before it: `inside` says whether an
identifier has begun. A separator counts only when an identifier follows it. -/
def chainLength (inside : Bool) (n : Nat) : List Char → Nat
  | [] => n
  | '.' :: c :: cs =>
    if inside && startsIdentifier c then chainLength true (n + 1) (c :: cs) else n
  | ':' :: ':' :: c :: cs =>
    if inside && startsIdentifier c then chainLength true (n + 2) (c :: cs) else n
  | '-' :: '>' :: c :: cs =>
    if inside && startsIdentifier c then chainLength true (n + 2) (c :: cs) else n
  | c :: cs =>
    if (if inside then isIdentifierChar c else startsIdentifier c) then chainLength true (n + 1) cs
    else n

/-- The chain at the start of a text, if an opening parenthesis follows it, and the number of
characters to be passed over: up to and with the parenthesis, or else the chain. -/
def callAt (cs : List Char) : Option (List Char) × Nat :=
  let n := chainLength false 0 cs
  if n == 0 then (none, 0)
  else
    let rest := cs.drop n
    let gap := (rest.takeWhile isBlank).length
    if (rest.drop gap).head? == some '(' then (some (cs.take n), n + gap + 1) else (none, n)

/-- The called chains of a text from left to right, after its next `skip` characters and the
chains `found`, the last one first. -/
def chainsFrom (found : List (List Char)) : Nat → List Char → List (List Char)
  | _, [] => found.reverse
  | skip + 1, _ :: cs => chainsFrom found skip cs
  | 0, c :: cs =>
    let (chain, n) := callAt (c :: cs)
    chainsFrom (chain.toList ++ found) (n - 1) cs

/-- The names called in a text, without repeats, in order of first occurrence. -/
def inText (s : String) : List String :=
  let chains := (chainsFrom [] 0 s.toList).filter fun c => !keywords.contains (String.ofList c)
  distinct ((chains.filterMap ofText?).map String.ofList)

end CallName

/-- The dotted name of a callee's text, unless it is computed or built in. -/
def callName? (s : String) : Option String :=
  (CallName.ofText? s.toList).map String.ofList

end CodeIndex

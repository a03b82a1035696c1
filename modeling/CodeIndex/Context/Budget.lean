import CodeIndex.Chunk.Limits
/-!
# Token budgets

The size of a text in tokens is estimated from its characters. A text that exceeds a budget
is cut, by preference at the end of a line, and marked.
-/

namespace CodeIndex.Budget

open Text

def charsPerToken : Nat := 4

/-- The estimated number of tokens of a text. -/
def tokens (cs : List Char) : Nat :=
  (cs.length + charsPerToken - 1) / charsPerToken

def bareMark : List Char :=
  trimStart truncationMark

/-- The text before the last newline. -/
def beforeNewline (cs : List Char) : Option (List Char) :=
  match (cs.reverse.dropWhile (· != '\n')) with
  | [] => none
  | _ :: before => some before.reverse

/-- The first `keep` characters, or those of them before the last newline when that gives
up no more than half. -/
def head (keep : Nat) (cs : List Char) : List Char :=
  let cut := cs.take keep
  match beforeNewline cut with
  | some shorter => if keep ≤ shorter.length * 2 then shorter else cut
  | none => cut

/-- A text fitted into `max` tokens, and whether something was removed. Where nothing but
the mark fits there is only the mark, or nothing at all. -/
def fit (max : Nat) (cs : List Char) : List Char × Bool :=
  if tokens cs ≤ max then (cs, false)
  else if max * charsPerToken ≤ truncationMark.length then
    (if tokens bareMark ≤ max then bareMark else [], true)
  else
    (trimEnd (head (max * charsPerToken - truncationMark.length) cs) ++ truncationMark, true)

def tokensOf (s : String) : Nat :=
  tokens s.toList

/-- A string fitted into `max` tokens, and whether something was removed. -/
def fitString (max : Nat) (s : String) : String × Bool :=
  let (cs, cut) := fit max s.toList
  (String.ofList cs, cut)

end CodeIndex.Budget

import CodeIndex.Text.LowerCase
import CodeIndex.Text.Numeric
import CodeIndex.Text.Search
/-!
# Search terms

The terms of a question, and the expression that asks the full-text index for any of them.
Terms are quoted, so nothing in a question is read as part of the expression's own grammar.
-/

namespace CodeIndex.FullText

open Text

/-- The most terms that a question is searched by. -/
def maxTerms : Nat := 16

def wordRuns (cs : List Char) : List (List Char) :=
  pieces (fun c => !isWordChar c) cs

/-- The distinct terms of a question in lower case; single characters are no terms. -/
def terms (query : List Char) : List (List Char) :=
  let words := (wordRuns query).filter fun w => 1 < w.length
  firstDistinct maxTerms (words.map lowerCase)

/-- A term in quotes, a quote inside written twice. -/
def quoteTerm (t : List Char) : List Char :=
  '"' :: t.flatMap (fun c => if c == '"' then ['"', '"'] else [c]) ++ ['"']

/-- The expression that matches any word starting with one of the terms. -/
def expression (ts : List (List Char)) : List Char :=
  " OR ".toList.intercalate (ts.map fun t => quoteTerm t ++ ['*'])

def queryTerms (query : String) : List String :=
  (terms query.toList).map String.ofList

/-- The expression for a question; `none` when it has no terms. -/
def queryExpression? (query : String) : Option String :=
  let ts := terms query.toList
  if ts.isEmpty then none else some (String.ofList (expression ts))

end CodeIndex.FullText

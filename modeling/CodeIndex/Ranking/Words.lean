import CodeIndex.FullText.Terms
/-!
# Words of a question

The words that could be names of definitions, and the words as they are compared with
names.
-/

namespace CodeIndex.Ranking

open Text

def maxNames : Nat := 8

def startsName (c : Char) : Bool :=
  isAlphabetic c || c == '_'

/-- The distinct words that could be names, in the case they are written in. -/
def nameCandidates (query : String) : List String :=
  let words := (FullText.wordRuns query.toList).filter fun w =>
    1 < w.length && w.head?.any startsName
  firstDistinct maxNames (words.map String.ofList)

/-- The letters of a name in lower case, without what joins its words. -/
def compact (cs : List Char) : List Char :=
  (cs.filter fun c => c != '_' && c != '-').flatMap lowerChar

/-- The words of a question as they are compared with names. -/
def nameWords (query : List Char) : List (List Char) :=
  let runs := pieces (fun c => !(isWordChar c || c == '-')) query
  withoutRuns ((runs.map compact).filter fun w => 1 < w.length)

end CodeIndex.Ranking

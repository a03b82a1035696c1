import CodeIndex.FullText.Folding
import CodeIndex.FullText.Stem
/-!
# Words of a text

The words under which a text is found: its runs of letters and numbers, folded and stemmed.
-/

namespace CodeIndex.FullText

/-- The tokens of a text; `started` holds the characters of the current one, the last first.
Accents continue a token and start none. -/
def tokensFrom (started : List Char) : List Char → List (List Char)
  | [] => if started.isEmpty then [] else [started.reverse]
  | c :: cs =>
    if isTokenChar c || (!started.isEmpty && isAccent c) then tokensFrom (c :: started) cs
    else if started.isEmpty then tokensFrom [] cs
    else started.reverse :: tokensFrom [] cs

def tokens (cs : List Char) : List (List Char) :=
  tokensFrom [] cs

def maxWordBytes : Nat := 32768

/-- The word under which a token is found. -/
def wordOf (token : List Char) : Word :=
  (stem (String.ofList (token.filterMap foldChar)).toUTF8.toList).take maxWordBytes

def words (cs : List Char) : List Word :=
  (tokens cs).map wordOf

def wordsOf (s : String) : List Word :=
  words s.toList

end CodeIndex.FullText

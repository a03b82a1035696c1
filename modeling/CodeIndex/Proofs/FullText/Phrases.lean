import CodeIndex.FullText.Index
import CodeIndex.FullText.Terms
import Mathlib.Data.List.Basic
/-!
# Words of a text and of a term

A separator ends a token whatever comes before it. The words of a text that stands between
separators are therefore found, side by side, among the words of the whole, and a term asks for
the same words in lower case. A phrase of some words occurs wherever its words stand side by side.
-/

namespace CodeIndex.FullText

open Text

/-! ## Separators -/

/-- A letter or digit of ASCII, or an underscore. -/
def isNameChar (c : Char) : Bool :=
  c.isAlphanum || c == '_'

end CodeIndex.FullText

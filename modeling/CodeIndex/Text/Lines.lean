import CodeIndex.Text.Blank
/-!
# Lines

A text as a list of lines. A line ends at a newline, with or without a carriage return
before it; the end of the text ends the last line, and a text that ends in a newline has
no further, empty line.
-/

namespace CodeIndex.Text

/-- The lines of a text, without their ends. -/
def lines : List Char → List (List Char)
  | [] => []
  | '\n' :: cs => [] :: lines cs
  | '\r' :: '\n' :: cs => [] :: lines cs
  | c :: cs =>
    match lines cs with
    | [] => [[c]]
    | l :: ls => (c :: l) :: ls

def linesOf (s : String) : List String :=
  (lines s.toList).map String.ofList

def joinLines (ls : List String) : String :=
  "\n".intercalate ls

end CodeIndex.Text

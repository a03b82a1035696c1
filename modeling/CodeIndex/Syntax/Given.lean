import CodeIndex.Config.Basic
import CodeIndex.Chunk.Parse
import CodeIndex.Json.Basic
/-!
# Given trees

Syntax trees come from parsers outside this library. A node is an array of whether it is
named, its kind, its role, and its first and last byte; an array of the nodes below may follow.
-/

namespace CodeIndex

namespace Syntax

mutual

def Node.ofJson? : Json → Option Node
  | .array [.int named, .text kind, .text field, .int start, .int stop] =>
    some (.mk (named == 1) kind field start.toNat stop.toNat [])
  | .array [.int named, .text kind, .text field, .int start, .int stop, .array below] => do
    return .mk (named == 1) kind field start.toNat stop.toNat (← Node.listOfJson? below)
  | _ => none

def Node.listOfJson? : List Json → Option (List Node)
  | [] => some []
  | j :: js => do return (← Node.ofJson? j) :: (← Node.listOfJson? js)

end

/-- The text of a file with its tree. -/
structure Given where
  path : String
  text : String
  tree : Node

end Syntax

/-- The grammar that knows the given trees. The tree of a file in the language asked for
goes before that of any other file with the same text. -/
def Grammar.ofGiven (extra : List (String × String)) (known : List Syntax.Given) : Grammar :=
  fun language text =>
    let same := known.filter (·.text == text)
    let fitting := same.find? fun g => Config.detectLanguage extra g.path == some language
    (fitting.orElse fun _ => same.head?).map (·.tree)

end CodeIndex

import CodeIndex.Json.Basic
import CodeIndex.Decimal.Shortest
/-!
# Writing JSON

On one line without blanks, or indented by two blanks with one member a line.
-/

namespace CodeIndex.Json

def hexDigit (n : Nat) : Char :=
  if n < 10 then Char.ofNat (48 + n) else Char.ofNat (87 + n)

/-- How a character is written inside a text: quote, backslash and controls are escaped. -/
def escapeChar (c : Char) : List Char :=
  match c with
  | '"' => ['\\', '"']
  | '\\' => ['\\', '\\']
  | '\x08' => ['\\', 'b']
  | '\x0c' => ['\\', 'f']
  | '\n' => ['\\', 'n']
  | '\r' => ['\\', 'r']
  | '\t' => ['\\', 't']
  | c =>
    if c.toNat < 32 then
      ['\\', 'u', '0', '0', hexDigit (c.toNat / 16), hexDigit (c.toNat % 16)]
    else [c]

def quote (s : String) : String :=
  String.ofList ('"' :: s.toList.flatMap escapeChar ++ ['"'])

/-- Floats are positional for leading digits from `1e-5` to `1e15`. -/
def floatLayout : Decimal.Layout := ⟨-5, 15⟩

/-- A float; what is no number is written as `null`. -/
def floatText (x : Float) : String :=
  (floatLayout.text? x).getD "null"

/-- A line break and the blanks of a nesting depth. -/
def indent (depth : Nat) : String :=
  "\n" ++ String.ofList (List.replicate (2 * depth) ' ')

mutual

/-- The value on one line, without blanks. -/
def compact : Json → String
  | null => "null"
  | bool b => if b then "true" else "false"
  | int n => toString n
  | float x => floatText x
  | text s => quote s
  | array items => "[" ++ compactItems items ++ "]"
  | record fields => "\x7b" ++ compactFields fields ++ "\x7d"
  | unreadable => "null"

def compactItems : List Json → String
  | [] => ""
  | [j] => compact j
  | j :: js => compact j ++ "," ++ compactItems js

def compactFields : List (String × Json) → String
  | [] => ""
  | [(k, j)] => quote k ++ ":" ++ compact j
  | (k, j) :: fs => quote k ++ ":" ++ compact j ++ "," ++ compactFields fs

end

mutual

/-- The value with one member a line, inside `depth` brackets. -/
def prettyAt (depth : Nat) : Json → String
  | array [] => "[]"
  | record [] => "\x7b\x7d"
  | array items => "[" ++ prettyItems (depth + 1) items ++ indent depth ++ "]"
  | record fields => "\x7b" ++ prettyFields (depth + 1) fields ++ indent depth ++ "\x7d"
  | null => "null"
  | bool b => if b then "true" else "false"
  | int n => toString n
  | float x => floatText x
  | text s => quote s
  | unreadable => "null"

def prettyItems (depth : Nat) : List Json → String
  | [] => ""
  | [j] => indent depth ++ prettyAt depth j
  | j :: js => indent depth ++ prettyAt depth j ++ "," ++ prettyItems depth js

def prettyFields (depth : Nat) : List (String × Json) → String
  | [] => ""
  | [(k, j)] => indent depth ++ quote k ++ ": " ++ prettyAt depth j
  | (k, j) :: fs =>
    indent depth ++ quote k ++ ": " ++ prettyAt depth j ++ "," ++ prettyFields depth fs

end

/-- The value with one member a line, indented by two blanks. -/
def pretty (j : Json) : String :=
  prettyAt 0 j

end CodeIndex.Json

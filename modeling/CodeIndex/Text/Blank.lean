import CodeIndex.Text.Ranges
/-!
# Blank characters

The Unicode property White_Space, and the operations that cut texts at blanks: trimming
and splitting into words.
-/

namespace CodeIndex.Text

def blankRanges : Ranges :=
  [(0x85, 0x85), (0xa0, 0xa0), (0x1680, 0x1680), (0x2000, 0x200a), (0x2028, 0x2029),
    (0x202f, 0x202f), (0x205f, 0x205f), (0x3000, 0x3000)]

/-- Has the Unicode property White_Space. -/
def isBlank (c : Char) : Bool :=
  if c.toNat < 128 then c == ' ' || (9 ≤ c.toNat && c.toNat ≤ 13) else blankRanges.has c

def allBlank (cs : List Char) : Bool :=
  cs.all isBlank

/-- The text without the leading characters that satisfy `p`. -/
def dropStart (p : Char → Bool) (cs : List Char) : List Char :=
  cs.dropWhile p

/-- The text without the trailing characters that satisfy `p`. -/
def dropEnd (p : Char → Bool) : List Char → List Char
  | [] => []
  | c :: cs =>
    match dropEnd p cs with
    | [] => if p c then [] else [c]
    | d :: ds => c :: d :: ds

/-- The text without leading and trailing characters that satisfy `p`. -/
def dropAround (p : Char → Bool) (cs : List Char) : List Char :=
  dropEnd p (dropStart p cs)

def trimStart (cs : List Char) : List Char :=
  dropStart isBlank cs

def trimEnd (cs : List Char) : List Char :=
  dropEnd isBlank cs

def trim (cs : List Char) : List Char :=
  dropAround isBlank cs

/-- The pieces of a text between the characters that satisfy `p`, empty ones included. -/
def pieces (p : Char → Bool) : List Char → List (List Char)
  | [] => [[]]
  | c :: cs =>
    if p c then [] :: pieces p cs
    else
      match pieces p cs with
      | [] => [[c]]
      | w :: ws => (c :: w) :: ws

def blankWords (cs : List Char) : List (List Char) :=
  (pieces isBlank cs).filter (!·.isEmpty)

def trimmed (s : String) : String :=
  String.ofList (trim s.toList)

def isBlankString (s : String) : Bool :=
  allBlank s.toList

end CodeIndex.Text

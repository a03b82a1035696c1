import CodeIndex.Json.Numeral
/-!
# Tokens of JSON text

The text as a list of brackets, separators and single values. Blanks between tokens are
the four that JSON allows.
-/

namespace CodeIndex.Json

/-- A token. -/
inductive Token where
  | openArray
  | closeArray
  | openRecord
  | closeRecord
  | comma
  | colon
  /-- A text; `none` when its escapes name no text. -/
  | text (s : Option String)
  /-- `null`, a truth value or a number. -/
  | scalar (j : Json)

def hexValue (c : Char) : Option Nat :=
  if c.isDigit then some (c.toNat - 48)
  else if 'a' ≤ c && c ≤ 'f' then some (c.toNat - 87)
  else if 'A' ≤ c && c ≤ 'F' then some (c.toNat - 55)
  else none

/-- The number that four hexadecimal digits stand for. -/
def hexUnit (a b c d : Char) : Option Nat := do
  let a ← hexValue a
  let b ← hexValue b
  let c ← hexValue c
  let d ← hexValue d
  return ((a * 16 + b) * 16 + c) * 16 + d

/-- The character that a backslash and `c` stand for. -/
def simpleEscape : Char → Option Char
  | '"' => some '"'
  | '\\' => some '\\'
  | '/' => some '/'
  | 'b' => some '\x08'
  | 'f' => some '\x0c'
  | 'n' => some '\n'
  | 'r' => some '\r'
  | 't' => some '\t'
  | _ => none

/-- The inside of a text as numbers, where an escape of four digits stands for the number
they write, and the characters after the closing quote. -/
def readUnits : List Char → Option (List Nat × List Char)
  | [] => none
  | '"' :: cs => some ([], cs)
  | '\\' :: 'u' :: a :: b :: c :: d :: cs =>
    match hexUnit a b c d, readUnits cs with
    | some n, some (ns, rest) => some (n :: ns, rest)
    | _, _ => none
  | '\\' :: e :: cs =>
    match simpleEscape e, readUnits cs with
    | some c, some (ns, rest) => some (c.toNat :: ns, rest)
    | _, _ => none
  | c :: cs =>
    if c.toNat < 32 || c == '\\' then none
    else (readUnits cs).map fun (ns, rest) => (c.toNat :: ns, rest)

/-- The characters that the numbers stand for: a high and a low surrogate make one
character, and neither means anything alone. -/
def charsOfUnits : List Nat → Option (List Char)
  | [] => some []
  | [n] => if 0xd800 ≤ n && n ≤ 0xdfff then none else some [Char.ofNat n]
  | n :: m :: ns =>
    if 0xd800 ≤ n && n ≤ 0xdbff then
      if 0xdc00 ≤ m && m ≤ 0xdfff then
        (charsOfUnits ns).map (Char.ofNat (0x10000 + (n - 0xd800) * 1024 + (m - 0xdc00)) :: ·)
      else none
    else if 0xdc00 ≤ n && n ≤ 0xdfff then none
    else (charsOfUnits (m :: ns)).map (Char.ofNat n :: ·)

def leadingDigits (cs : List Char) : List Nat :=
  (cs.takeWhile Char.isDigit).map fun c => c.toNat - 48

def afterDigits (cs : List Char) : List Char :=
  cs.dropWhile Char.isDigit

/-- The digits after the point, and what follows. A point needs a digit. -/
def readFraction : List Char → Option (Option (List Nat) × List Char)
  | '.' :: cs =>
    if (leadingDigits cs).isEmpty then none
    else some (some (leadingDigits cs), afterDigits cs)
  | cs => some (none, cs)

/-- The exponent, and what follows. Its letter needs a digit. -/
def readExponent (cs : List Char) : Option (Option (Bool × List Nat) × List Char) :=
  let digits (down : Bool) (cs : List Char) : Option (Option (Bool × List Nat) × List Char) :=
    if (leadingDigits cs).isEmpty then none
    else some (some (down, leadingDigits cs), afterDigits cs)
  match cs with
  | 'e' :: '-' :: cs | 'E' :: '-' :: cs => digits true cs
  | 'e' :: '+' :: cs | 'E' :: '+' :: cs => digits false cs
  | 'e' :: cs | 'E' :: cs => digits false cs
  | cs => some (none, cs)

/-- A number, and what follows. A zero is not followed by a digit. -/
def readNumeral (negative : Bool) (cs : List Char) : Option (Numeral × List Char) := do
  let whole := leadingDigits cs
  if whole.isEmpty || (whole.head? == some 0 && 1 < whole.length) then none
  let (fraction, cs) ← readFraction (afterDigits cs)
  let (exponent, cs) ← readExponent cs
  return (⟨negative, whole, fraction.getD [], exponent, fraction.isSome || exponent.isSome⟩, cs)

def nextToken : List Char → Option (Token × List Char)
  | '[' :: cs => some (.openArray, cs)
  | ']' :: cs => some (.closeArray, cs)
  | '\x7b' :: cs => some (.openRecord, cs)
  | '\x7d' :: cs => some (.closeRecord, cs)
  | ',' :: cs => some (.comma, cs)
  | ':' :: cs => some (.colon, cs)
  | '"' :: cs =>
    (readUnits cs).map fun (units, rest) => (.text ((charsOfUnits units).map String.ofList), rest)
  | 'n' :: 'u' :: 'l' :: 'l' :: cs => some (.scalar .null, cs)
  | 't' :: 'r' :: 'u' :: 'e' :: cs => some (.scalar (.bool true), cs)
  | 'f' :: 'a' :: 'l' :: 's' :: 'e' :: cs => some (.scalar (.bool false), cs)
  | '-' :: cs => (readNumeral true cs).map fun (n, rest) => (.scalar n.value, rest)
  | cs => (readNumeral false cs).map fun (n, rest) => (.scalar n.value, rest)

def isGap (c : Char) : Bool :=
  c == ' ' || c == '\n' || c == '\t' || c == '\r'

/-- The tokens of a text; each takes at least one of its characters, which bounds `fuel`. -/
def tokensFrom (fuel : Nat) (cs : List Char) : Option (List Token) :=
  match fuel, cs.dropWhile isGap with
  | _, [] => some []
  | 0, _ => none
  | fuel + 1, cs => do
    let (t, rest) ← nextToken cs
    let ts ← tokensFrom fuel rest
    return t :: ts

/-- The tokens of a text; `none` when some part of it is no token. -/
def tokens? (cs : List Char) : Option (List Token) :=
  tokensFrom cs.length cs

end CodeIndex.Json

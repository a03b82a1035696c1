import CodeIndex.Text.Blank
/-!
# Searching and replacing within a text
-/

namespace CodeIndex.Text

/-- The text starts with `w`; the rest is returned. -/
def stripStart (w cs : List Char) : Option (List Char) :=
  match w, cs with
  | [], cs => some cs
  | _ :: _, [] => none
  | x :: xs, c :: cs => if x == c then stripStart xs cs else none

/-- The text ends with `w`; what comes before is returned. -/
def stripEnd (w cs : List Char) : Option (List Char) :=
  (stripStart w.reverse cs.reverse).map List.reverse

/-- The text without `w` at its start, or all of it. -/
def withoutStart (w cs : List Char) : List Char :=
  (stripStart w cs).getD cs

def withoutEnd (w cs : List Char) : List Char :=
  (stripEnd w cs).getD cs

/-- The parts before and after the first occurrence of `w`. -/
def splitFirst (w : List Char) : List Char → Option (List Char × List Char)
  | [] => (stripStart w []).map ([], ·)
  | c :: cs =>
    match stripStart w (c :: cs) with
    | some rest => some ([], rest)
    | none => (splitFirst w cs).map fun (a, b) => (c :: a, b)

/-- The parts before and after the last occurrence of `w`. -/
def splitLast (w cs : List Char) : Option (List Char × List Char) :=
  (splitFirst w.reverse cs.reverse).map fun (a, b) => (b.reverse, a.reverse)

def hasPart (w cs : List Char) : Bool :=
  (splitFirst w cs).isSome

/-- Writes `cs` with each occurrence of `old` replaced by `new`, the leftmost first, after
leaving out the next `skip` characters, which belong to an occurrence already replaced. -/
def replaceFrom (old new : List Char) : Nat → List Char → List Char
  | _, [] => []
  | skip + 1, _ :: cs => replaceFrom old new skip cs
  | 0, c :: cs =>
    match stripStart old (c :: cs) with
    | some _ => new ++ replaceFrom old new (old.length - 1) cs
    | none => c :: replaceFrom old new 0 cs

/-- The text with each occurrence of the non-empty `old` replaced by `new`. -/
def replaceAll (old new cs : List Char) : List Char :=
  replaceFrom old new 0 cs

/-- The members of a list without repeats, each where it occurs first. -/
def distinct [BEq α] (xs : List α) : List α :=
  xs.foldl (fun seen x => if seen.contains x then seen else seen ++ [x]) []

/-- The first `most` members of a list without repeats, each where it occurs first. -/
def firstDistinct [BEq α] (most : Nat) (xs : List α) : List α :=
  xs.foldl (fun seen x =>
    if seen.length == most || seen.contains x then seen else seen ++ [x]) []

/-- The members of a list without those equal to their predecessor. -/
def withoutRuns [BEq α] : List α → List α
  | [] => []
  | [x] => [x]
  | x :: y :: rest => if x == y then withoutRuns (x :: rest) else x :: withoutRuns (y :: rest)
termination_by xs => xs.length

end CodeIndex.Text

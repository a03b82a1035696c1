/-!
# Glob patterns

A pattern as a sequence of parts. Two stars are special where they fill a whole component
of a path; anywhere else each star stands for itself. Braces hold alternatives and may be
nested.
-/

namespace CodeIndex

/-- A part of a glob pattern. -/
inductive GlobPart where
  | char (c : Char)
  /-- `?` -/
  | any
  /-- `*` -/
  | star
  /-- `**` and a slash, or nothing but `**`, at the start: any directories, or none. -/
  | anyStart
  /-- A slash and `**` at the end: everything below. -/
  | anyEnd
  /-- `**` between slashes: any directories, or none. -/
  | anyMiddle
  /-- `[a-z]`, or `[!a-z]` for all others. -/
  | oneOf (negated : Bool) (ranges : List (Char × Char))
  /-- Alternatives in braces. -/
  | either (alternatives : List (List GlobPart))

/-- What is wrong with a pattern. -/
inductive GlobFault where
  | unclosedClass
  | invalidRange (first last : Char)
  | unopenedAlternates
  | unclosedAlternates
  | danglingEscape
  deriving Repr, DecidableEq

namespace GlobFault

def text : GlobFault → String
  | unclosedClass => "unclosed character class; missing ']'"
  | invalidRange a b => "invalid range; '" ++ a.toString ++ "' > '" ++ b.toString ++ "'"
  | unopenedAlternates =>
    "unopened alternate group; missing '\x7b' (maybe escape '\x7d' with '[\x7d]'?)"
  | unclosedAlternates =>
    "unclosed alternate group; missing '\x7d' (maybe escape '\x7b' with '[\x7b]'?)"
  | danglingEscape => "dangling '\\'"

end GlobFault

/-- A faulty pattern. -/
structure GlobError where
  glob : String
  fault : GlobFault
  deriving Repr, DecidableEq

def GlobError.message (e : GlobError) : String :=
  "error parsing glob '" ++ e.glob ++ "': " ++ e.fault.text

namespace Glob

/-! ## Character classes -/

/-- What has been read of a class: its ranges, the last first, and whether a dash waits for
the end of a range. -/
structure ClassState where
  ranges : List (Char × Char)
  dash : Bool

def ClassState.add (s : ClassState) (c : Char) : Except GlobFault ClassState :=
  match s.dash, s.ranges with
  | true, (a, _) :: rest =>
    if c < a then .error (.invalidRange a c) else .ok ⟨(a, c) :: rest, false⟩
  | _, ranges => .ok ⟨(c, c) :: ranges, false⟩

/-- The ranges of a class after its first character, and what follows the class. -/
def readRanges (s : ClassState) : List Char → Except GlobFault (List (Char × Char) × List Char)
  | [] => .error .unclosedClass
  | c :: cs =>
    if c == ']' then
      .ok ((if s.dash then ('-', '-') :: s.ranges else s.ranges).reverse, cs)
    else if c == '-' && !s.dash then readRanges ⟨s.ranges, true⟩ cs
    else
      match s.add c with
      | .ok s => readRanges s cs
      | .error e => .error e

/-- A class after its opening bracket, and what follows it. The first character never
closes the class. -/
def readClass (cs : List Char) : Except GlobFault (GlobPart × List Char) :=
  let (negated, body) :=
    match cs with
    | '!' :: rest => (true, rest)
    | '^' :: rest => (true, rest)
    | rest => (false, rest)
  match body with
  | [] => .error .unclosedClass
  | c :: rest => do
    let (ranges, rest) ← readRanges ⟨[(c, c)], false⟩ rest
    return (.oneOf negated ranges, rest)

/-! ## Whole patterns -/

/-- What a bracket means that opens no class. -/
inductive Brackets where
  /-- It is a fault. -/
  | strict
  /-- It stands for itself. -/
  | lenient
  deriving Repr, DecidableEq

/-- What has been read of a pattern: the current alternative, its last part first, and for
each open brace the alternatives before it and the parts before the brace. -/
structure Reading where
  current : List GlobPart
  groups : List (List (List GlobPart) × List GlobPart)

namespace Reading

def push (r : Reading) (p : GlobPart) : Reading :=
  { r with current := p :: r.current }

/-- Two stars that do not fill a component. -/
def pushStars (r : Reading) : Reading :=
  (r.push .star).push .star

def openGroup (r : Reading) : Reading :=
  ⟨[], ([], r.current) :: r.groups⟩

/-- A comma, which is an ordinary character outside braces. -/
def comma (r : Reading) : Reading :=
  match r.groups with
  | [] => r.push (.char ',')
  | (done, outer) :: rest => ⟨[], (r.current.reverse :: done, outer) :: rest⟩

def closeGroup? (r : Reading) : Option Reading :=
  match r.groups with
  | [] => none
  | (done, outer) :: rest => some ⟨.either (r.current.reverse :: done).reverse :: outer, rest⟩

/-- Two stars may fill a component after the character `prev`: after a slash, and in braces
also after an escaped comma or brace, which they then replace. -/
def startsComponent (r : Reading) (prev : Option Char) : Bool :=
  prev == some '/' || (!r.groups.isEmpty && (prev == some ',' || prev == some '\x7b'))

/-- Two stars that fill a component: the character before them becomes part of them, unless
it is already. -/
def pushMiddle (r : Reading) (atEnd : Bool) : Reading :=
  match r.current with
  | .anyStart :: _ => r
  | .anyEnd :: _ => r
  | _ :: before => { r with current := (if atEnd then .anyEnd else .anyMiddle) :: before }
  | [] => r

/-- Two stars, `prev` before them and `rest` after them; and what then remains. -/
def pushDouble (r : Reading) (prev : Option Char) (rest : List Char) : Reading × List Char :=
  if r.current.isEmpty then
    match rest with
    | [] => (r.push .anyStart, [])
    | '/' :: after => (r.push .anyStart, after)
    | _ => (r.pushStars, rest)
  else if !r.startsComponent prev then (r.pushStars, rest)
  else
    match rest with
    | [] => (r.pushMiddle true, [])
    | '/' :: after => (r.pushMiddle false, after)
    | c :: _ =>
      if (c == ',' || c == '\x7d') && !r.groups.isEmpty then (r.pushMiddle true, rest)
      else (r.pushStars, rest)

end Reading

/-- The last of the characters that were read, given those before and after. -/
def lastRead (before after : List Char) : Option Char :=
  (before.take (before.length - after.length)).getLast?

/-- Reads on, `prev` being the character read last. Every step takes a character, which
bounds `fuel`. -/
def readFrom (brackets : Brackets) (fuel : Nat) (r : Reading) (prev : Option Char)
    (cs : List Char) : Except GlobFault Reading :=
  match fuel, cs with
  | _, [] => .ok r
  | 0, _ => .ok r
  | fuel + 1, c :: rest =>
    match c with
    | '?' => readFrom brackets fuel (r.push .any) (some c) rest
    | '*' =>
      match rest with
      | '*' :: after =>
        let (r, remaining) := r.pushDouble prev after
        readFrom brackets fuel r (lastRead cs remaining) remaining
      | _ => readFrom brackets fuel (r.push .star) (some c) rest
    | '[' =>
      match readClass rest with
      | .ok (p, after) => readFrom brackets fuel (r.push p) (some ']') after
      | .error e =>
        if brackets = .lenient ∧ e = .unclosedClass then
          readFrom brackets fuel (r.push (.char c)) (some c) rest
        else .error e
    | '\x7b' => readFrom brackets fuel r.openGroup (some c) rest
    | '\x7d' =>
      match r.closeGroup? with
      | some r => readFrom brackets fuel r (some c) rest
      | none => .error .unopenedAlternates
    | ',' => readFrom brackets fuel r.comma (some c) rest
    | '\\' =>
      match rest with
      | [] => .error .danglingEscape
      | d :: after => readFrom brackets fuel (r.push (.char d)) (some d) after
    | c => readFrom brackets fuel (r.push (.char c)) (some c) rest

def parts? (brackets : Brackets) (cs : List Char) : Except GlobFault (List GlobPart) := do
  let r ← readFrom brackets cs.length ⟨[], []⟩ none cs
  if r.groups.isEmpty then return r.current.reverse else .error .unclosedAlternates

end Glob

/-- A pattern. -/
structure Glob where
  parts : List GlobPart

def Glob.read (brackets : Glob.Brackets) (s : String) : Except GlobError Glob :=
  match Glob.parts? brackets s.toList with
  | .ok ps => .ok ⟨ps⟩
  | .error e => .error ⟨s, e⟩

end CodeIndex

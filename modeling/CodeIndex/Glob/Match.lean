import CodeIndex.Glob.Pattern
/-!
# Matching paths against globs

Paths are matched byte by byte. A star may cross slashes unless the pattern is one of those
in which slashes are matched only by slashes. The parts of a pattern are taken from the last
to the first: each turns the verdicts of what follows it on the ends of a path into its own.
-/

namespace CodeIndex

namespace Glob

/-- How wildcards treat slashes. -/
inductive Slashes where
  /-- A wildcard may match a slash. -/
  | ordinary
  /-- Only a slash matches a slash. -/
  | literal
  deriving Repr, DecidableEq

def slash : UInt8 := 0x2f

def bytesOf (c : Char) : List UInt8 :=
  (String.singleton c).toUTF8.toList

/-- A class holds single bytes: those of its characters, and of a range those between the
last byte of its first and the first byte of its last character. -/
def rangeHas (r : Char × Char) (b : UInt8) : Bool :=
  let first := bytesOf r.1
  let last := bytesOf r.2
  if r.1 == r.2 then first.contains b
  else
    first.dropLast.contains b || last.tail.contains b
      || (first.getLast?.any (· ≤ b) && last.head?.any (b ≤ ·))

/-! ## Verdicts -/

/-- Whether the rest of a pattern matches the ends of a text: the verdict on the whole text
first, the one on the empty end last. -/
abbrev Verdicts := List Bool

/-- An end is accepted that starts with a byte which `ok` admits and whose rest is accepted. -/
def afterOne (ok : UInt8 → Bool) : List UInt8 → Verdicts → Verdicts
  | b :: bs, _ :: vs => (ok b && vs.headD false) :: afterOne ok bs vs
  | _, _ => [false]

/-- An end is accepted that starts with any number of bytes which `ok` admits and whose rest
is accepted. -/
def afterMany (ok : UInt8 → Bool) : List UInt8 → Verdicts → Verdicts
  | b :: bs, v :: vs =>
    let rest := afterMany ok bs vs
    (v || (ok b && rest.headD false)) :: rest
  | _, vs => vs

/-- An end is accepted that is accepted by one of the two. -/
def orElse (vs ws : Verdicts) : Verdicts :=
  List.zipWith (· || ·) vs ws

/-- An end is accepted that starts with a slash and whose rest is accepted. -/
def afterSlash (bs : List UInt8) (vs : Verdicts) : Verdicts :=
  afterOne (· == slash) bs vs

/-- An end is accepted that starts with anything and whose rest is accepted. -/
def afterAll (bs : List UInt8) (vs : Verdicts) : Verdicts :=
  afterMany (fun _ => true) bs vs

/-- The empty end is accepted and no other. -/
def atEnd (bs : List UInt8) : Verdicts :=
  List.replicate bs.length false ++ [true]

/-! ## Parts -/

mutual

/-- The pattern matches nothing but the empty text, because it has no parts that could
match more. -/
def partVoid : GlobPart → Bool
  | .either alternatives => allVoid alternatives
  | _ => false

def partsVoid : List GlobPart → Bool
  | [] => true
  | p :: ps => partVoid p && partsVoid ps

def allVoid : List (List GlobPart) → Bool
  | [] => true
  | ps :: rest => partsVoid ps && allVoid rest

end

mutual

/-- The verdicts on the ends of a text of the part and what follows it, of which `vs` are the
verdicts. -/
def runPart (slashes : Slashes) (bs : List UInt8) (p : GlobPart) (vs : Verdicts) : Verdicts :=
  let wild (b : UInt8) : Bool := !(slashes = .literal ∧ b = slash)
  match p with
  | .char c => (bytesOf c).foldr (fun a vs => afterOne (· == a) bs vs) vs
  | .any => afterOne wild bs vs
  | .star => afterMany wild bs vs
  | .anyStart => orElse vs (afterAll bs (afterSlash bs vs))
  | .anyEnd => afterSlash bs (afterAll bs vs)
  | .anyMiddle => afterSlash bs (orElse vs (afterAll bs (afterSlash bs vs)))
  | .oneOf negated ranges => afterOne (fun b => ranges.any (rangeHas · b) != negated) bs vs
  | .either alternatives =>
    if allVoid alternatives then vs else runEither slashes bs alternatives vs

/-- The verdicts of the parts, one after the other, and what follows them. -/
def runParts (slashes : Slashes) (bs : List UInt8) (ps : List GlobPart) (vs : Verdicts) :
    Verdicts :=
  match ps with
  | [] => vs
  | p :: ps => runPart slashes bs p (runParts slashes bs ps vs)

/-- The verdicts of any of the alternatives that can match something. -/
def runEither (slashes : Slashes) (bs : List UInt8) (alternatives : List (List GlobPart))
    (vs : Verdicts) : Verdicts :=
  match alternatives with
  | [] => vs.map fun _ => false
  | ps :: rest =>
    let others := runEither slashes bs rest vs
    if partsVoid ps then others else orElse (runParts slashes bs ps vs) others

end

/-! ## The parent directory as a name -/

def isPlain : GlobPart → Bool
  | .char _ => true
  | _ => false

def isNamePart : GlobPart → Bool
  | .char c => c != '/'
  | _ => false

def isDot : GlobPart → Bool
  | .char c => c == '.'
  | _ => false

/-- The pattern names the last component of a path and leaves the directories open. -/
def decidedByName : List GlobPart → Bool
  | .anyStart :: rest => !rest.isEmpty && rest.all isNamePart
  | _ => false

/-- The pattern asks for the empty extension and nothing else. -/
def decidedByExtension (slashes : Slashes) : List GlobPart → Bool
  | [.anyStart, .star, p] => isDot p
  | [.star, p] => slashes = .ordinary && isDot p
  | _ => false

/-- The pattern is decided by how a path ends. -/
def decidedByEnding (slashes : Slashes) (ps : List GlobPart) : Bool :=
  let rest :=
    match ps with
    | .anyStart :: rest => rest
    | ps => ps
  match rest with
  | .star :: more => slashes = .ordinary && more.all isPlain
  | more => more.all isPlain

/-- The pattern is decided by the name that ends a path or by its extension, and asks for a
dot at the end. -/
def needsName (slashes : Slashes) (ps : List GlobPart) : Bool :=
  decidedByName ps || decidedByExtension slashes ps
    || (ps.getLast?.any isDot && !decidedByEnding slashes ps)

/-- The last component of a path is the parent directory, which is no name and has no
extension. -/
def endsInParent (path : List UInt8) : Bool :=
  (path.reverse.takeWhile (· != slash)) == [0x2e, 0x2e]

def matchesBytes (slashes : Slashes) (ps : List GlobPart) (path : List UInt8) : Bool :=
  match ps with
  | [.anyStart] => true
  | ps =>
    (runParts slashes path ps (atEnd path)).headD false
      && !(endsInParent path && needsName slashes ps)

end Glob

def Glob.matches (g : Glob) (slashes : Glob.Slashes) (path : String) : Bool :=
  Glob.matchesBytes slashes g.parts path.toUTF8.toList

end CodeIndex

import CodeIndex.Disk.Basic
import CodeIndex.Glob.Match
/-!
# Ignore files

Files that say which entries of a directory and the directories below it are to be passed
over. The rules of `.ignore` files always count and come first; those of `.gitignore` files
count inside a repository. A nearer file wins, and in a file the last rule that matches. A
bracket that opens no character class stands for itself.
-/

namespace CodeIndex

open Text

/-- A rule of an ignore file. -/
structure IgnoreRule where
  glob : Glob
  /-- What the rule matches is kept rather than ignored. -/
  keeps : Bool
  onlyDirectories : Bool

namespace IgnoreRule

/-- The end of a line without blanks, unless the last blank is escaped. -/
def trimLine (line : List Char) : List Char :=
  if (stripEnd ['\\', ' '] line).isSome then line else trimEnd line

/-- The pattern of a line after the marks at its start. A pattern without a slash may match
in any directory, and one for all of a directory does not match the directory itself. -/
def patternOf (anchored : Bool) (body : List Char) : List Char :=
  let anywhere := !anchored && !body.contains '/' && body != ['*', '*']
  let pattern := if anywhere then ['*', '*', '/'] ++ body else body
  if (stripEnd ['/', '*', '*'] pattern).isSome then pattern ++ ['/', '*'] else pattern

/-- The rule on a line; none on blank lines, comments, and lines with a faulty pattern. -/
def ofLine? (line : List Char) : Option IgnoreRule :=
  let line := trimLine line
  if line.isEmpty || line.head? == some '#' then none
  else
    let escaped := line.take 2 == ['\\', '!'] || line.take 2 == ['\\', '#']
    let keeps := !escaped && line.head? == some '!'
    let body := if escaped || keeps then line.drop 1 else line
    let slash := body.head? == some '/'
    let body := if slash && !escaped then body.drop 1 else body
    let (body, onlyDirectories) :=
      match stripEnd ['/'] body with
      | some rest => (withoutEnd ['\\'] rest, true)
      | none => (body, false)
    match Glob.read .lenient (String.ofList (patternOf slash body)) with
    | .ok g => some ⟨g, keeps, onlyDirectories⟩
    | .error _ => none

/-- The bytes between line ends, which are line feeds with or without a carriage return. -/
def byteLines : List UInt8 → List (List UInt8)
  | [] => []
  | 0x0a :: bs => [] :: byteLines bs
  | 0x0d :: 0x0a :: bs => [] :: byteLines bs
  | b :: bs =>
    match byteLines bs with
    | [] => [[b]]
    | l :: ls => (b :: l) :: ls

/-- The lines of a file as far as they are text, without a mark of the byte order. -/
def linesOfBytes (bytes : List UInt8) : List (List Char) :=
  let ls := (byteLines bytes).map Text.decode?
  match (ls.takeWhile Option.isSome).filterMap (·.map String.toList) with
  | [] => []
  | l :: ls => dropStart (· == '\ufeff') l :: ls

def ofBytes (bytes : List UInt8) : List IgnoreRule :=
  (linesOfBytes bytes).filterMap ofLine?

/-- The rule matches a path relative to the directory of its file. -/
def applies (r : IgnoreRule) (path : String) (directory : Bool) : Bool :=
  (directory || !r.onlyDirectories) && r.glob.matches .literal path

/-- What rules say of a path: that it is ignored, that it is kept, or nothing. -/
def verdict? (rs : List IgnoreRule) (path : String) (directory : Bool) : Option Bool :=
  (rs.reverse.find? (·.applies path directory)).map fun r => !r.keeps

end IgnoreRule

/-- The ignore files of a directory. -/
structure IgnoreSet where
  directory : Place
  always : List IgnoreRule
  inRepository : List IgnoreRule
  /-- Rules of the repository that are kept outside its files. -/
  excluded : List IgnoreRule
  isRepository : Bool

namespace IgnoreSet

/-- The rules in the file at a path; none where there is no such file. -/
def rulesAt (d : Disk) (path : String) : List IgnoreRule :=
  match (d.stat path).bind Disk.contentOf with
  | .ok (bytes, _) => IgnoreRule.ofBytes bytes.toList
  | .error _ => []

def ofDirectory (d : Disk) (directory : Place) : IgnoreSet :=
  let base := Path.ofNames directory
  let at_ := Path.join base
  { directory := directory
    always := rulesAt d (at_ ".ignore")
    inRepository := rulesAt d (at_ ".gitignore")
    excluded := rulesAt d (at_ ".git/info/exclude")
    isRepository := [".git", ".jj"].any fun name => (d.stat (at_ name)).toOption.isSome }

def pathOf (s : IgnoreSet) (at_ : Place) : String :=
  "/".intercalate (at_.drop s.directory.length)

/-- The sets up to the one of the repository, the nearest first. -/
def upToRepository : List IgnoreSet → List IgnoreSet
  | [] => []
  | s :: ss => if s.isRepository then [s] else s :: upToRepository ss

/-- The entry at a place is ignored, given the ignore files of the directories above it,
the nearest first. -/
def ignores (sets : List IgnoreSet) (at_ : Place) (directory : Bool) : Bool :=
  let ask (rules : IgnoreSet → List IgnoreRule) (s : IgnoreSet) : Option Bool :=
    IgnoreRule.verdict? (rules s) (s.pathOf at_) directory
  let repository := if sets.any (·.isRepository) then upToRepository sets else []
  let verdict := (sets.findSome? (ask (·.always))).orElse fun _ =>
    (repository.findSome? (ask (·.inRepository))).orElse fun _ =>
      repository.findSome? (ask (·.excluded))
  verdict.getD false

end IgnoreSet

end CodeIndex

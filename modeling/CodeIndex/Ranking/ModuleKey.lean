import CodeIndex.Ranking.Signal
/-!
# Module keys

Imports and files under one spelling: path segments joined by dots. An import reaches a file
when the key of one ends with the key of the other, segment by segment.
-/

namespace CodeIndex.Ranking

open Text

/-- The text without the leading occurrences of any of the words, however often. -/
def dropLeading (words : List (List Char)) (fuel : Nat) (cs : List Char) : List Char :=
  match fuel with
  | 0 => cs
  | fuel + 1 =>
    match words.findSome? (stripStart · cs) with
    | some rest => dropLeading words fuel rest
    | none => cs

/-- A path without the extension of its last segment. -/
def withoutExtension (path : List Char) : List Char :=
  match splitLast ['.'] path with
  | some (stem, ext) =>
    if ext.contains '/' || stem.isEmpty || stem.getLast? == some '/' then path else stem
  | none => path

def slashesAsDots (cs : List Char) : List Char :=
  cs.map fun c => if c == '/' then '.' else c

/-- Starts of a path that name no directory. -/
def relativeStarts : List (List Char) :=
  ["./".toList, "../".toList]

/-- Starts of a key that name the importing module or one around it. -/
def selfStarts : List (List Char) :=
  ["crate.".toList, "self.".toList, "super.".toList]

def importKeyOf (source : List Char) : List Char :=
  let bare := dropAround (fun c => c == '"' || c == '\'') (trim source)
  let path := dropLeading relativeStarts bare.length bare
  let key :=
    if source.contains '/' then slashesAsDots (withoutExtension path)
    else replaceAll [':', ':'] ['.'] path
  dropAround (· == '.') (dropLeading selfStarts key.length key)

/-- File names that stand for their directory. -/
def indexNames : List (List Char) :=
  ["mod".toList, "index".toList, "__init__".toList]

def withoutSourceRoot (key : List Char) : List Char :=
  withoutStart "src.".toList key

/-- The keys of a file: its own, and that of its directory. -/
def fileKeysOf (path : List Char) : List (List Char) :=
  let plain := withoutSourceRoot (slashesAsDots (withoutExtension path))
  let key := indexNames.foldl (fun k n => withoutEnd ('.' :: n) k) plain
  let dirs := directories path
  let dirKey := withoutSourceRoot (['.'].intercalate dirs)
  let both :=
    if dirs.isEmpty || dirKey == "src".toList || dirKey == key then [key] else [key, dirKey]
  both.filter fun k => !k.isEmpty && !indexNames.contains k

/-- First segments of libraries that are never part of a project. -/
def externalRoots : List (List Char) :=
  ["std".toList, "core".toList, "alloc".toList]

/-- The key belongs to a library outside the project. -/
def isExternal (key : List Char) : Bool :=
  externalRoots.contains (key.takeWhile (· != '.'))

/-- One key is the other, or ends with it after a dot. -/
def endsWithKey (a b : List Char) : Bool :=
  match stripEnd b a with
  | some head => head.getLast? == some '.'
  | none => false

def keysMeet (a b : List Char) : Bool :=
  a == b || endsWithKey a b || endsWithKey b a

/-- One for a file that one of the imported keys reaches, else zero. -/
def importStrength (candidate : String) (imported : List String) : Float :=
  let keys := fileKeysOf candidate.toList
  let inside := (imported.map String.toList).filter fun i => !i.isEmpty && !isExternal i
  if keys.any fun k => inside.any (keysMeet k) then 1.0 else 0.0

def importKey (source : String) : String :=
  String.ofList (importKeyOf source.toList)

def fileKeys (path : String) : List String :=
  (fileKeysOf path.toList).map String.ofList

end CodeIndex.Ranking

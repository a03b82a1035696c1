import CodeIndex.Store.Read
import CodeIndex.Text.Search
/-!
# Relations between names

Who calls a name, imports it or refers to it as a type, and what defines it.
-/

namespace CodeIndex.Store

open Text

/-- The characters of a stored text that count and cut see: a NUL character ends it early. -/
def visible (text : List Char) : List Char :=
  text.takeWhile (· != '\x00')

/-- The last `n` visible characters of a text, or all of them when there are fewer. -/
def lastVisible (n : Nat) (text : List Char) : List Char :=
  (visible text).drop ((visible text).length - n)

/-- The last characters of the text, as many as the separator and the name have, are these. -/
def endsWithPart (separator name text : List Char) : Bool :=
  lastVisible ((visible name).length + separator.length) text == separator ++ name

/-- The callee is the name, or a longer path that ends with a dot and the name. -/
def callNames (name callee : String) : Bool :=
  callee == name ||
    (decide ((visible name.toList).length < (visible callee.toList).length)
      && endsWithPart ['.'] name.toList callee.toList)

def callersOf (s : Store) (name : String) : List ChunkRecord :=
  let ids := (s.calls.rows.filter fun r => callNames name r.2.callee).map (·.2.chunkId)
  byPlace (s.chunkRecords fun id _ => ids.contains id)

/-- The distinct names that a chunk calls, in the order in which they were written. -/
def calleesOf (s : Store) (chunkId : Nat) : List String :=
  distinct ((s.calls.rows.filter (·.2.chunkId == chunkId)).map (·.2.callee))

/-- The import brings in the name, as a symbol or as the last part of its source. -/
def importNames (name : String) (i : Import) : Bool :=
  let source := i.source.toList
  i.symbol == name || i.source == name || endsWithPart ['/'] name.toList source
    || endsWithPart ['.'] name.toList source || endsWithPart [':', ':'] name.toList source

def importersOf (s : Store) (name : String) : List ImportRecord :=
  sortedBy (fun a b =>
      textThenInt (a.path, signedWord a.row.fact.line) (b.path, signedWord b.row.fact.line))
    (s.importRecords fun r => importNames name r.fact)

def typeUsersOf (s : Store) (name : String) : List ChunkRecord :=
  let ids := (s.typeRefs.rows.filter (·.2.name == name)).map (·.2.chunkId)
  byPlace (s.chunkRecords fun id _ => ids.contains id)

/-- The first definition of a type of that name. -/
def typeDefinition? (s : Store) (name : String) : Option ChunkRecord :=
  (byPlace (s.chunkRecords fun _ c => c.name == some name && c.kind.definesType)).head?

end CodeIndex.Store

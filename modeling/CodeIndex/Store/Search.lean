import CodeIndex.FullText.Terms
import CodeIndex.Store.Read
/-!
# Full-text search in the store

Chunks are found by the words of their name, signature, docstring, content and scope path.
-/

namespace CodeIndex.Store

open FullText

def columnWeights : List Float :=
  [10.0, 4.0, 2.0, 1.0, 3.0]

/-- The first `limit` members. A limit that is negative as a signed number is none. -/
def limited (limit : Nat) (as : List α) : List α :=
  if signedWord limit < 0 then as else as.take limit

/-- The chunks found by the terms of a question with their ranks, the best and lowest rank
first. -/
def searchText (s : Store) (query : String) (limit : Nat) : List (ChunkRecord × Float) :=
  let phrases := (terms query.toList).map words
  let found := limited limit (search columnWeights s.documents phrases)
  found.filterMap fun (id, rank) => (s.chunk? id).map (·, rank)

end CodeIndex.Store

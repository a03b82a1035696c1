import CodeIndex.Decimal.Order
import CodeIndex.FullText.Words
/-!
# Full-text search

A document is found by a phrase that occurs in one of its columns, the last word of the
phrase possibly being only the start of a word. Documents found by any of several phrases
are ranked by the function BM25, with a weight for each column; the best rank is the lowest.
An index keeps the words of its documents, not their texts.
-/

namespace CodeIndex.FullText

abbrev Phrase := List Word

/-- A document under a key, with the words of its columns. -/
structure Document (α : Type) where
  key : α
  columns : List (List Word)
  deriving DecidableEq

/-! ## Writing -/

/-- The documents with another one, which stands before those of higher keys. -/
def addDocument (d : Document Nat) : List (Document Nat) → List (Document Nat)
  | [] => [d]
  | e :: es => if e.key < d.key then e :: addDocument d es else d :: e :: es

/-- The documents without one that is given with its words. Given with other words it stays. -/
def dropDocument (d : Document Nat) (docs : List (Document Nat)) : List (Document Nat) :=
  docs.filter (· != d)

/-! ## Searching -/

/-- The words begin with the phrase. A phrase without words begins nothing. -/
def begins : Phrase → List Word → Bool
  | [p], w :: _ => p.isPrefixOf w
  | p :: q :: ps, w :: ws => p == w && begins (q :: ps) ws
  | _, _ => false

/-- The number of places in a column at which the phrase occurs. -/
def hits (p : Phrase) : List Word → Nat
  | [] => 0
  | w :: ws => (if begins p (w :: ws) then 1 else 0) + hits p ws

namespace Document

def size (d : Document α) : Nat :=
  d.columns.foldl (fun n c => n + c.length) 0

def has (d : Document α) (p : Phrase) : Bool :=
  d.columns.any fun c => 0 < hits p c

/-- The occurrences of a phrase, weighted by column. -/
def frequency (weights : List Float) (d : Document α) (p : Phrase) : Float :=
  ((d.columns.zip weights).map fun (c, w) => Float.ofNat (hits p c) * w).foldl (· + ·) 0.0

end Document

/-- How much a phrase counts that occurs in `found` of `count` documents. -/
def rarity (count found : Nat) : Float :=
  let x := Float.log ((Float.ofNat count - Float.ofNat found + 0.5) / (Float.ofNat found + 0.5))
  if x ≤ 0.0 then 1e-6 else x

/-- The contribution of a phrase with weighted frequency `f` to the rank of a document of
`size` words, where `mean` is the mean size. -/
def gain (f size mean : Float) : Float :=
  (f * (1.2 + 1.0)) / (f + 1.2 * (1.0 - 0.75 + 0.75 * size / mean))

def rank (weights : List Float) (mean : Float) (phrases : List (Phrase × Float))
    (d : Document α) : Float :=
  -1.0 * (phrases.map fun (p, r) =>
    r * gain (d.frequency weights p) (Float.ofNat d.size) mean).foldl (· + ·) 0.0

/-- The keys of the documents in which some phrase occurs, with their ranks, best first.
Documents of equal rank keep their order. -/
def search (weights : List Float) (docs : List (Document α)) (phrases : List Phrase) :
    List (α × Float) :=
  let mean := Float.ofNat (docs.foldl (fun n d => n + d.size) 0) / Float.ofNat docs.length
  let phrases := phrases.map fun p => (p, rarity docs.length (docs.filter (·.has p)).length)
  let found := docs.filter fun d => phrases.any fun (p, _) => d.has p
  (found.map fun d => (d.key, rank weights mean phrases d)).mergeSort fun a b =>
    Decimal.place a.2 ≤ Decimal.place b.2

end CodeIndex.FullText

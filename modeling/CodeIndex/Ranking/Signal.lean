import CodeIndex.Chunk.Kind
import CodeIndex.Ranking.Words
import CodeIndex.Time.Instant
/-!
# Signals of relevance

What speaks for a chunk: how well it matches the text and the names of a question, what it
is, and how near it lies to what is being edited. Each signal is a number from zero to one,
and a chunk's score is their weighted sum.
-/

namespace CodeIndex

open Text

/-- One number for each signal: the strengths for a chunk, or the weights of a ranking. -/
structure Signals where
  fts : Float := 0.0
  name : Float := 0.0
  kind : Float := 0.0
  proximity : Float := 0.0
  recency : Float := 0.0
  importGraph : Float := 0.0
  access : Float := 0.0

namespace Signals

/-- The number itself from zero to one, else the nearer end; what is no number counts as
zero. -/
def clip (v : Float) : Float :=
  if v.isNaN then 0.0 else if v < 0.0 then 0.0 else if 1.0 < v then 1.0 else v

def score (s weights : Signals) : Float :=
  weights.fts * clip s.fts + weights.name * clip s.name + weights.kind * clip s.kind
    + weights.proximity * clip s.proximity + weights.recency * clip s.recency
    + weights.importGraph * clip s.importGraph + weights.access * clip s.access

end Signals

namespace Ranking

def ratio (a b : Nat) : Float :=
  Float.ofNat a / Float.ofNat b

/-! ## Text and name -/

/-- A full-text rank relative to the best one. Ranks are negative, the best one lowest. -/
def textStrength (rank : Option Float) (best : Float) : Float :=
  match rank with
  | some r => if best < 0.0 then Signals.clip (r / best) else 0.0
  | none => 0.0

/-- Long enough to be looked for inside other words. -/
def isLong (w : List Char) : Bool :=
  3 ≤ w.length

/-- How well a name matches a question: fully when it is the question or one of its words,
less when one contains the other, else by the share of words found in it. -/
def nameStrength (name : Option String) (query : String) : Float :=
  match name with
  | none => 0.0
  | some n =>
    let n := compact n.toList
    let words := nameWords query.toList
    if n.isEmpty || words.isEmpty then 0.0
    else
      let whole := words.flatten
      if n == whole || words.contains n then 1.0
      else if (isLong whole && hasPart whole n) || (isLong n && hasPart n whole) then 0.7
      else ratio (words.filter fun w => isLong w && hasPart w n).length words.length

def kindStrength : ChunkKind → Float
  | .function | .method => 1.0
  | .classDef | .structDef => 0.9
  | .interfaceDef | .traitDef => 0.85
  | .enumDef | .implDef => 0.8
  | .typeAlias => 0.7
  | .moduleDef | .constantDef => 0.5
  | .variableDef => 0.4
  | .block => 0.3

/-! ## Place and time -/

def directories (path : List Char) : List (List Char) :=
  ((pieces (· == '/') path).filter (!·.isEmpty)).dropLast

/-- The number of members that two lists share at their start. -/
def sharedStart [BEq α] : List α → List α → Nat
  | a :: as, b :: bs => if a == b then sharedStart as bs + 1 else 0
  | _, _ => 0

/-- How near two files lie: fully in the same directory, else by the share of common
directories. -/
def proximity (candidate : String) (current : Option String) : Float :=
  match current with
  | none => 0.0
  | some c =>
    let a := directories candidate.toList
    let b := directories c.toList
    if a == b then 1.0
    else ratio (sharedStart a b) (max a.length b.length + 1)

/-- Falls from one at age zero to zero at the age `window`, in milliseconds. -/
def decay (t now : Instant) (window : Nat) : Float :=
  if now.nanosSince t ≤ 0 then 1.0
  else
    let age := (now.millisSince t).toNat
    Signals.clip (1.0 - Float.ofNat age / Float.ofNat window)

/-- Milliseconds in which a change of a file loses its weight: seven days. -/
def fileWindow : Nat := 604800000

/-- Milliseconds in which the opening of a file loses its weight: one hour. -/
def accessWindow : Nat := 3600000

def fileRecency (mtime now : Instant) : Float :=
  decay mtime now fileWindow

def accessRecency (opened : Option Instant) (now : Instant) : Float :=
  match opened with
  | some t => decay t now accessWindow
  | none => 0.0

end Ranking

end CodeIndex

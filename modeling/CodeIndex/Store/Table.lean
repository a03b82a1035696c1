/-!
# Tables

Rows under ids. Ids are given in ascending order, starting at one, and none is given twice,
even after its row is gone.
-/

namespace CodeIndex

/-- Rows under ids, in ascending order of ids. -/
structure Table (α : Type) where
  rows : List (Nat × α) := []
  /-- The last id given. -/
  last : Nat := 0

namespace Table

/-- Rows under consecutive ids from `first` on. -/
def numbered (first : Nat) : List α → List (Nat × α)
  | [] => []
  | a :: as => (first, a) :: numbered (first + 1) as

def get? (t : Table α) (id : Nat) : Option α :=
  (t.rows.find? (·.1 == id)).map (·.2)

def has (t : Table α) (id : Nat) : Bool :=
  t.rows.any (·.1 == id)

def append (t : Table α) (as : List α) : Table α where
  rows := t.rows ++ numbered (t.last + 1) as
  last := t.last + as.length

/-- The table without the rows that satisfy `p`. -/
def erase (t : Table α) (p : α → Bool) : Table α :=
  { t with rows := t.rows.filter fun r => !p r.2 }

/-- The table with `f` applied to the row under an id. -/
def update (t : Table α) (id : Nat) (f : α → α) : Table α :=
  { t with rows := t.rows.map fun r => if r.1 == id then (r.1, f r.2) else r }

/-- The table with one id given up. -/
def skip (t : Table α) : Table α :=
  { t with last := t.last + 1 }

def idsOf (t : Table α) (p : α → Bool) : List Nat :=
  (t.rows.filter fun r => p r.2).map (·.1)

def size (t : Table α) : Nat :=
  t.rows.length

end Table

end CodeIndex

/-!
# JSON values

A value as it is read or written. Records keep their fields in written order and may
repeat a name, so that a reader can tell.
-/

namespace CodeIndex

/-- A JSON value. -/
inductive Json where
  | null
  | bool (b : Bool)
  | int (n : Int)
  | float (x : Float)
  | text (s : String)
  | array (items : List Json)
  | record (fields : List (String × Json))
  /-- Well-formed text without a value: a number beyond every float, or half of a
  surrogate pair. It can be skipped and nothing else. -/
  | unreadable

namespace Json

def fieldsNamed (name : String) : Json → List Json
  | record fields => (fields.filter (·.1 == name)).map (·.2)
  | _ => []

/-- The field of that name; of several, the last. -/
def field? (name : String) (j : Json) : Option Json :=
  (j.fieldsNamed name).getLast?

def text? : Json → Option String
  | text s => some s
  | _ => none

def bool? : Json → Option Bool
  | bool b => some b
  | _ => none

def int? : Json → Option Int
  | int n => some n
  | _ => none

/-- A number from zero to `max`, when the value is one. -/
def upTo? (max : Nat) : Json → Option Nat
  | int (.ofNat n) => if n ≤ max then some n else none
  | _ => none

def maxWord : Nat := Nat.pow 2 64 - 1

/-- An unsigned number of 64 bits, when the value is one. -/
def word? (j : Json) : Option Nat :=
  j.upTo? maxWord

def float? : Json → Option Float
  | int (.ofNat n) => some (Float.ofNat n)
  | int (.negSucc n) => some (-(Float.ofNat (n + 1)))
  | float x => some x
  | _ => none

def array? : Json → Option (List Json)
  | array items => some items
  | _ => none

def texts? (j : Json) : Option (List String) :=
  j.array?.bind (·.mapM text?)

/-- `null` for an absent value. -/
def ofOption (f : α → Json) : Option α → Json
  | some a => f a
  | none => null

def nat (n : Nat) : Json :=
  int n

def texts (ss : List String) : Json :=
  array (ss.map text)

end Json

end CodeIndex

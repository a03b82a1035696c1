import CodeIndex.Json.Token
/-!
# Reading JSON

Tokens are taken one by one. What is open at that point is a stack of arrays and records
still being filled, so nesting has no limit and every token is looked at once.
-/

namespace CodeIndex.Json

/-- An array or a record that is still open, its members so far latest first. A name of
`none` is one without text, and makes the record unreadable. -/
inductive Frame where
  | array (items : List Json)
  | record (fields : List (Option String × Json)) (name : Option String)

/-- What may come next. -/
inductive Await where
  /-- A value, or the end of the array just opened. -/
  | firstItem
  /-- A name, or the end of the record just opened. -/
  | firstName
  | value
  | name
  | colon
  /-- A comma, or the end of what is open. -/
  | next
  /-- Nothing more. -/
  | done (j : Json)

/-- The progress of reading. -/
structure Progress where
  stack : List Frame
  await : Await

/-- The record of the fields read, latest first. -/
def closedRecord (fields : List (Option String × Json)) : Json :=
  match (fields.reverse).mapM (fun (name, j) => name.map (·, j)) with
  | some fs => record fs
  | none => unreadable

/-- A value is complete: it goes into what is open, or is the result. -/
def Progress.give (stack : List Frame) (j : Json) : Progress :=
  match stack with
  | [] => ⟨[], .done j⟩
  | .array items :: rest => ⟨.array (j :: items) :: rest, .next⟩
  | .record fields name :: rest => ⟨.record ((name, j) :: fields) name :: rest, .next⟩

def Progress.start (stack : List Frame) : Token → Option Progress
  | .openArray => some ⟨.array [] :: stack, .firstItem⟩
  | .openRecord => some ⟨.record [] none :: stack, .firstName⟩
  | .text (some s) => some (.give stack (text s))
  | .text none => some (.give stack unreadable)
  | .scalar j => some (.give stack j)
  | _ => none

def Progress.named (stack : List Frame) : Token → Option Progress
  | .text s =>
    match stack with
    | .record fields _ :: rest => some ⟨.record fields s :: rest, .colon⟩
    | _ => none
  | _ => none

/-- The next token; `none` when it cannot come here. -/
def Progress.step (p : Progress) (t : Token) : Option Progress :=
  match p.await, t, p.stack with
  | .firstItem, .closeArray, .array _ :: rest => some (.give rest (array []))
  | .firstItem, t, stack => Progress.start stack t
  | .firstName, .closeRecord, .record _ _ :: rest => some (.give rest (record []))
  | .firstName, t, stack => Progress.named stack t
  | .value, t, stack => Progress.start stack t
  | .name, t, stack => Progress.named stack t
  | .colon, .colon, stack => some ⟨stack, .value⟩
  | .next, .comma, .array items :: rest => some ⟨.array items :: rest, .value⟩
  | .next, .comma, .record fields name :: rest => some ⟨.record fields name :: rest, .name⟩
  | .next, .closeArray, .array items :: rest => some (.give rest (array items.reverse))
  | .next, .closeRecord, .record fields _ :: rest => some (.give rest (closedRecord fields))
  | _, _, _ => none

def ofTokens? (ts : List Token) : Option Json := do
  let p ← ts.foldlM Progress.step ⟨[], .value⟩
  match p.await with
  | .done j => some j
  | _ => none

/-- The value that a text holds; `none` when it is not JSON. -/
def read? (s : String) : Option Json :=
  (tokens? s.toList).bind ofTokens?

end CodeIndex.Json

import CodeIndex.Store.Basic
import CodeIndex.Store.Schema
/-!
# The file of a store
-/

namespace CodeIndex

/-- The content of a store's file. -/
structure StoreFile where
  version : Int := Schema.latest
  /-- The tables, if they have been made. -/
  tables : Option Store := some {}

namespace StoreFile

def schema (f : StoreFile) : Schema where
  version := f.version
  objects := if f.tables.isSome then Schema.tables ++ Schema.fullText else []

/-- The file with its schema brought up to date. Tables are made empty. -/
def upgrade (f : StoreFile) : Except SchemaFault StoreFile :=
  match f.schema.upgrade with
  | (_, some fault) => .error fault
  | (s, none) =>
    let made := if s.objects.contains "files" then some {} else none
    .ok ⟨s.version, f.tables.orElse fun _ => made⟩

end StoreFile

end CodeIndex

import CodeIndex.Engine.Query
import CodeIndex.Json.Basic
/-!
# Answers as JSON
-/

namespace CodeIndex

def Json.optionalText (s : Option String) : Json :=
  .ofOption .text s

def Instant.toJson (t : Instant) : Json :=
  .text t.text

def StoreStats.toJson (s : StoreStats) : Json :=
  .record [("files", .nat s.files), ("chunks", .nat s.chunks), ("imports", .nat s.imports),
    ("calls", .nat s.calls), ("type_refs", .nat s.typeRefs),
    ("by_language", .record (s.byLanguage.map fun (l, n) => (l, .nat n))),
    ("last_indexed", .ofOption Instant.toJson s.lastIndexed),
    ("schema_version", .nat s.schemaVersion)]

def FileRecord.toJson (f : FileRecord) : Json :=
  let facts := f.row.facts
  .record [("id", .nat f.id), ("path", .text facts.path), ("content_hash", .text facts.hash),
    ("mtime", facts.mtime.toJson), ("language", .text facts.language),
    ("indexed_at", f.row.indexedAt.toJson),
    ("last_accessed", .ofOption Instant.toJson f.row.lastAccessed),
    ("line_count", .nat facts.lineCount)]

def ChunkRecord.fields (c : ChunkRecord) : List (String × Json) :=
  [("id", .nat c.id), ("file_id", .nat c.row.fileId), ("file_path", .text c.path),
    ("language", .text c.file.facts.language), ("kind", .text c.row.kind.word),
    ("name", .optionalText c.row.name), ("signature", .text c.row.signature),
    ("docstring", .optionalText c.row.docstring), ("start_line", .nat c.row.startLine),
    ("end_line", .nat c.row.endLine), ("content", .text c.row.content),
    ("scope_path", .text c.row.scopePath), ("file_mtime", c.file.facts.mtime.toJson),
    ("file_last_accessed", .ofOption Instant.toJson c.file.lastAccessed)]

def ChunkRecord.toJson (c : ChunkRecord) : Json :=
  .record c.fields

def ImportRecord.toJson (i : ImportRecord) : Json :=
  .record [("id", .nat i.id), ("file_id", .nat i.row.fileId), ("file_path", .text i.path),
    ("symbol", .text i.row.fact.symbol), ("source", .text i.row.fact.source),
    ("line", .nat i.row.fact.line)]

def Signals.toJson (s : Signals) : Json :=
  .record (s.named.map fun (n, x) => (n, .float x))

def RankedChunk.toJson (r : RankedChunk) : Json :=
  .record (r.chunk.fields ++ [("score", .float r.score), ("signals", r.signals.toJson)])

def Section.toJson (s : Section) : Json :=
  .record [("kind", .text s.kind.word), ("count", .nat s.count), ("tokens", .nat s.tokens),
    ("truncated", .bool s.truncated)]

/-- What is reported about a context besides its text. -/
def Context.metadata (c : Context) : Json :=
  .record [("total_tokens", .nat c.tokens), ("budget", .nat c.budget),
    ("sources", .array (c.sections.map Section.toJson))]

def FileError.toJson (e : FileError) : Json :=
  .record [("path", .text e.path), ("message", .text e.fault.message)]

def ScanStats.toJson (s : ScanStats) : Json :=
  .record [("files_scanned", .nat s.scanned), ("files_indexed", .nat s.indexed),
    ("files_skipped", .nat s.skipped), ("files_skipped_large", .nat s.tooLarge),
    ("files_removed", .nat s.removed), ("chunks_created", .nat s.chunks),
    ("errors", .array (s.errors.map FileError.toJson))]

def Relations.toJson (r : Relations) : Json :=
  .record [("definitions", .array (r.definitions.map ChunkRecord.toJson)),
    ("type_definition", .ofOption ChunkRecord.toJson r.typeDefinition),
    ("callers", .array (r.callers.map ChunkRecord.toJson)), ("callees", .texts r.callees),
    ("importers", .array (r.importers.map ImportRecord.toJson)),
    ("type_users", .array (r.typeUsers.map ChunkRecord.toJson))]

def EngineStatus.toJson (s : EngineStatus) : Json :=
  .record [("root", .text s.root), ("store_path", .optionalText s.storePath),
    ("available", .bool s.available), ("indexing", .bool s.indexing),
    ("pending_changes", .nat s.pendingChanges), ("stats", .ofOption StoreStats.toJson s.stats)]

end CodeIndex

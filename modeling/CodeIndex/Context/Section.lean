import CodeIndex.Config.Basic
/-!
# Sections of a context

A context has up to six sections in a fixed order, each with its share of the budget.
-/

namespace CodeIndex

/-- What a section holds. -/
inductive SectionKind where
  | currentFile
  | definitions
  | fullText
  | imports
  | projectDocs
  | diagnostics
  deriving Repr, DecidableEq

namespace SectionKind

/-- All kinds, in the order of the sections. -/
def all : List SectionKind :=
  [.currentFile, .definitions, .fullText, .imports, .projectDocs, .diagnostics]

def word : SectionKind → String
  | .currentFile => "current_file"
  | .definitions => "definitions"
  | .fullText => "full_text"
  | .imports => "imports"
  | .projectDocs => "project_docs"
  | .diagnostics => "diagnostics"

def title : SectionKind → String
  | .currentFile => "Current file"
  | .definitions => "Definitions"
  | .fullText => "Related code"
  | .imports => "Imported symbols"
  | .projectDocs => "Project docs"
  | .diagnostics => "Diagnostics"

/-- The percentage of the budget for a section. -/
def share (s : Shares) : SectionKind → Nat
  | .currentFile => s.currentFile
  | .definitions => s.definitions
  | .fullText => s.fullText
  | .imports => s.imports
  | .projectDocs => s.projectDocs
  | .diagnostics => s.diagnostics

/-- What stands between the items of a section. Imports and diagnostics are single lines. -/
def separator : SectionKind → String
  | .imports => "\n"
  | .diagnostics => "\n"
  | _ => "\n\n"

end SectionKind

end CodeIndex

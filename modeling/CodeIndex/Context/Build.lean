import CodeIndex.Context.Budget
import CodeIndex.Context.Items
/-!
# Building a context

Each section is fitted into its share of the budget on its own, so that no section takes
room from another. A section without items is left out.
-/

namespace CodeIndex

/-- A section as it is shown, with what is reported about it. -/
structure Section where
  kind : SectionKind
  text : String
  /-- The number of items, shown or not. -/
  count : Nat
  truncated : Bool
  deriving Repr, DecidableEq

namespace Section

def tokens (s : Section) : Nat :=
  Budget.tokensOf s.text

/-- The tokens a section may have. One is kept back for what separates sections. Of the product
the last 64 bits count. -/
def room (shares : Shares) (budget : Nat) (kind : SectionKind) : Nat :=
  budget * kind.share shares % Nat.pow 2 64 / 100 - 1

def fullText (kind : SectionKind) (items : List String) : String :=
  "## " ++ kind.title ++ "\n\n" ++ kind.separator.intercalate items

/-- The section of some items, fitted into its share. -/
def ofItems (shares : Shares) (budget : Nat) (kind : SectionKind) (items : List String) :
    Section :=
  let (text, truncated) := Budget.fitString (room shares budget kind) (fullText kind items)
  ⟨kind, text, items.length, truncated⟩

end Section

/-- An assembled context. -/
structure Context where
  budget : Nat
  sections : List Section
  deriving Repr, DecidableEq

namespace Context

def text (c : Context) : String :=
  "\n\n".intercalate ((c.sections.map (·.text)).filter (· != ""))

def tokens (c : Context) : Nat :=
  Budget.tokensOf c.text

def ofItems (shares : Shares) (budget : Nat) (items : List (SectionKind × List String)) :
    Context where
  budget := budget
  sections := (items.filter fun (_, is) => !is.isEmpty).map fun (k, is) =>
    Section.ofItems shares budget k is

def build (src : ContextSource) (shares : Shares) (req : ContextRequest) : Context :=
  ofItems shares req.budget (src.items req)

end Context

end CodeIndex

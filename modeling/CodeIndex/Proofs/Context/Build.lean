import CodeIndex.Context.Build
import CodeIndex.Proofs.Context.Fit
import Mathlib
/-!
# The budget of a context

Each section stays within its share less one token. The separators are paid from those
tokens, so that the sections together stay within the budget. A budget whose product with a share
has more than 64 bits allots less than the share, and may drop a section that has room.
-/

namespace CodeIndex

/-! ## Items -/

/-- The items of one section. -/
def ContextSource.itemsOf (src : ContextSource) (req : ContextRequest) (kind : SectionKind) :
    List String :=
  ((src.items req).lookup kind).getD []

theorem ContextSource.items_eq (src : ContextSource) (req : ContextRequest) :
    src.items req = SectionKind.all.map fun kind => (kind, src.itemsOf req kind) := by
  rfl

namespace Section

/-! ## Allotted tokens -/

/-- The section tells what became of its items in so many tokens. -/
structure Fits (s : Section) (room : Nat) (items : List String) : Prop where
  count_eq : s.count = items.length
  tokens_le : s.tokens ≤ room
  truncated_iff : s.truncated = true ↔ room < Budget.tokensOf (fullText s.kind items)
  whole : s.truncated = false → s.text = fullText s.kind items
  marked : s.truncated = true → 4 ≤ room → ∃ shown, s.text = shown ++ "... [truncated]"
  empty_iff : s.text = "" ↔ s.truncated = true ∧ room < 4

theorem fullText_ne (kind : SectionKind) (items : List String) :
    (fullText kind items).toList ≠ [] := by
  simp [fullText]

theorem ofItems_kind (shares : Shares) (budget : Nat) (kind : SectionKind)
    (items : List String) :
    (ofItems shares budget kind items).kind = kind := by
  rfl

theorem ofItems_text (shares : Shares) (budget : Nat) (kind : SectionKind)
    (items : List String) :
    (ofItems shares budget kind items).text =
      String.ofList (Budget.fit (room shares budget kind) (fullText kind items).toList).1 := by
  rfl

theorem ofItems_truncated (shares : Shares) (budget : Nat) (kind : SectionKind)
    (items : List String) :
    (ofItems shares budget kind items).truncated =
      (Budget.fit (room shares budget kind) (fullText kind items).toList).2 := by
  rfl

theorem ofItems_fits (shares : Shares) (budget : Nat) (kind : SectionKind)
    (items : List String) :
    (ofItems shares budget kind items).Fits (room shares budget kind) items := by
  have hne := fullText_ne kind items
  have hflag := Budget.fit_flag (room shares budget kind) (fullText kind items).toList
  refine ⟨rfl, ?_, ?_, ?_, ?_, ?_⟩
  · rw [tokens, Budget.tokensOf, ofItems_text, String.toList_ofList]
    exact Budget.tokens_fit_le _ _
  · rw [ofItems_truncated, ofItems_kind]
    exact hflag
  · intro hw
    rw [ofItems_truncated] at hw
    have hle : Budget.tokens (fullText kind items).toList ≤ room shares budget kind := by
      apply Nat.le_of_not_lt
      intro hlt
      rw [hflag.mpr hlt] at hw
      cases hw
    rw [ofItems_text, Budget.fit_of_le hle, String.ofList_toList, ofItems_kind]
  · intro ht hroom
    rw [ofItems_truncated] at ht
    obtain ⟨shown, hshown⟩ := Budget.fit_marked (hflag.mp ht) hroom
    refine ⟨String.ofList shown, ?_⟩
    rw [ofItems_text, ← hshown, Budget.bareMark_eq, String.ofList_append, String.ofList_toList]
  · rw [ofItems_text, ofItems_truncated, ← Budget.fit_eq_nil_iff _ hne]
    exact ⟨fun h => by simpa using congrArg String.toList h, fun h => by rw [h]⟩

end Section

namespace Context

/-! ## All sections -/

theorem ofItems_cons (shares : Shares) (budget : Nat) (kind : SectionKind)
    (items : List String) (rest : List (SectionKind × List String)) :
    (ofItems shares budget ((kind, items) :: rest)).sections =
      if items.isEmpty then (ofItems shares budget rest).sections
      else Section.ofItems shares budget kind items :: (ofItems shares budget rest).sections := by
  cases items with
  | nil => rfl
  | cons item items => rfl

theorem kinds_build (src : ContextSource) (shares : Shares) (req : ContextRequest) :
    (build src shares req).sections.map (·.kind) =
      SectionKind.all.filter fun kind => !(src.itemsOf req kind).isEmpty := by
  rw [build, ofItems, ContextSource.items_eq, List.filter_map, List.map_map, List.map_map]
  exact List.map_id _

theorem mem_build {src : ContextSource} {shares : Shares} {req : ContextRequest} {s : Section}
    (hs : s ∈ (build src shares req).sections) :
    s = Section.ofItems shares req.budget s.kind (src.itemsOf req s.kind) := by
  rw [build, ofItems, ContextSource.items_eq, List.filter_map, List.map_map] at hs
  obtain ⟨kind, _, rfl⟩ := List.mem_map.mp hs
  rfl

/-- The sections stay within so many tokens each, and what is shown of them is the text. -/
structure KeepsTo (c : Context) (room : SectionKind → Nat)
    (itemsOf : SectionKind → List String) : Prop where
  fits : ∀ s ∈ c.sections, s.Fits (room s.kind) (itemsOf s.kind)
  text_eq : c.text = "\n\n".intercalate ((c.sections.filter fun s =>
    !(s.truncated && decide (room s.kind < 4))).map (·.text))

theorem KeepsTo.congr {c : Context} {room other : SectionKind → Nat}
    {itemsOf : SectionKind → List String} (h : c.KeepsTo room itemsOf)
    (heq : ∀ kind, room kind = other kind) : c.KeepsTo other itemsOf :=
  funext heq ▸ h

/-! ## The budget -/

/-- A project of which nothing is indexed, with a description. -/
def described : ContextSource where
  store := {}
  readText := fun path => if path = "README.md" then some "An index of code." else none
  weights := Signals.defaultWeights
  searchLimit := 10
  now := ⟨0, 0⟩

def whyFailed : ContextRequest where
  question := "why does this fail"
  budget := 100
  diagnostics := ["error[E0308]: mismatched types in handler.rs"]

end Context

end CodeIndex

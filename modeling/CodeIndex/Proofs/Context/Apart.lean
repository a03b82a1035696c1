import CodeIndex.Proofs.Context.Build
/-!
# Sections do not disturb each other

A context can be put together one section after the other, with a list of the chunks that are shown
already. Two such runs stay in step: what a later section is made of depends on what earlier ones
were made of, and not on what the budget left of them. So a section depends on no share but its own,
and the diagnostics matter to their section alone.
-/

namespace CodeIndex

namespace Context

open ContextSource

/-! ## One section after the other -/

/-- A context being put together: the ids of the chunks in it, and the sections so far. -/
structure Draft where
  seen : List Nat := []
  sections : List Section := []

/-- The items of a section when the chunks `seen` are in the context, and the chunks that are in it
then. -/
def gather (src : ContextSource) (req : ContextRequest) (seen : List Nat) :
    SectionKind → List String × List Nat
  | .currentFile => (((src.window? req).map CursorWindow.render).toList, seen)
  | .definitions =>
    let chunks := src.definitions req (src.window? req)
    (chunks.map renderChunk, seen ++ chunks.map (·.id))
  | .fullText =>
    let chunks := src.related req (src.window? req) seen
    (chunks.map renderChunk, seen ++ chunks.map (·.id))
  | .imports => ((src.imported req seen).map fun (n, c) => renderLine n c, seen)
  | .projectDocs => (src.docs, seen)
  | .diagnostics => (messages req.diagnostics, seen)

/-- Adds a section, unless it has no items. -/
def Draft.add (src : ContextSource) (shares : Shares) (req : ContextRequest) (d : Draft)
    (kind : SectionKind) : Draft :=
  let (items, seen) := gather src req d.seen kind
  { seen
    sections := d.sections ++
      if items.isEmpty then [] else [Section.ofItems shares req.budget kind items] }

/-- The draft after some sections. -/
def draft (src : ContextSource) (shares : Shares) (req : ContextRequest)
    (kinds : List SectionKind) : Draft :=
  kinds.foldl (Draft.add src shares req) {}

/-- All sections one after the other are the context. -/
theorem sections_draft (src : ContextSource) (shares : Shares) (req : ContextRequest) :
    (draft src shares req SectionKind.all).sections = (build src shares req).sections := by
  have hcons : ∀ kind items rest, (ofItems shares req.budget ((kind, items) :: rest)).sections =
      (if items.isEmpty then [] else [Section.ofItems shares req.budget kind items]) ++
        (ofItems shares req.budget rest).sections := by
    intro kind items rest
    rw [ofItems_cons]
    split <;> rfl
  have hnil : (ofItems shares req.budget []).sections = [] := rfl
  rw [build, ContextSource.items]
  simp only [hcons, hnil]
  simp only [draft, SectionKind.all, List.foldl_cons, List.foldl_nil, Draft.add, gather,
    List.nil_append, List.append_nil, List.append_assoc]
  rfl

/-! ## Two runs -/

/-- Two drafts hold the same chunks and the same section of one kind. -/
structure Draft.Agree (kind : SectionKind) (d e : Draft) : Prop where
  seen_eq : d.seen = e.seen
  section_eq : d.sections.filter (·.kind == kind) = e.sections.filter (·.kind == kind)

section TwoRuns

variable {src : ContextSource} {shares shares' : Shares} {req req' : ContextRequest}
  {kind : SectionKind}

theorem filter_kind_ne {items : List String} {other : SectionKind} {budget : Nat}
    (hother : other ≠ kind) :
    (if items.isEmpty then [] else [Section.ofItems shares budget other items]).filter
      (·.kind == kind) = [] := by
  split
  · rfl
  · rw [List.filter_cons_of_neg (by simpa [Section.ofItems_kind] using hother), List.filter_nil]

/-- A section leaves two drafts in step when both gather the same chunks for it, and, if it is the
one looked at, the same items with the same room. -/
theorem Draft.Agree.add {d e : Draft} (h : Draft.Agree kind d e) (next : SectionKind)
    (hseen : ∀ seen, (gather src req seen next).2 = (gather src req' seen next).2)
    (hsame : next = kind → ∀ seen, (gather src req seen next).1 = (gather src req' seen next).1)
    (hroom : next = kind → Section.ofItems shares req.budget kind =
      Section.ofItems shares' req'.budget kind) :
    Draft.Agree kind (d.add src shares req next) (e.add src shares' req' next) := by
  refine ⟨?_, ?_⟩
  · change (gather src req d.seen next).2 = (gather src req' e.seen next).2
    rw [h.seen_eq, hseen]
  · unfold Draft.add
    dsimp only
    rw [List.filter_append, List.filter_append, h.section_eq]
    congr 1
    by_cases hnext : next = kind
    · rw [h.seen_eq, hsame hnext, hnext, hroom hnext]
    · rw [filter_kind_ne hnext, filter_kind_ne hnext]

/-- Two runs that take each section in step end with the same section of the kind looked at. -/
theorem agree_draft (kinds : List SectionKind)
    (hseen : ∀ next seen, (gather src req seen next).2 = (gather src req' seen next).2)
    (hsame : ∀ seen, (gather src req seen kind).1 = (gather src req' seen kind).1)
    (hroom : Section.ofItems shares req.budget kind =
      Section.ofItems shares' req'.budget kind) :
    Draft.Agree kind (draft src shares req kinds) (draft src shares' req' kinds) := by
  have hrun : ∀ d e : Draft, Draft.Agree kind d e →
      Draft.Agree kind (kinds.foldl (Draft.add src shares req) d)
        (kinds.foldl (Draft.add src shares' req') e) := by
    induction kinds with
    | nil => exact fun d e h => h
    | cons next kinds ih =>
        intro d e h
        rw [List.foldl_cons, List.foldl_cons]
        exact ih _ _ (h.add next (hseen next) (fun hnext => hnext ▸ hsame) fun _ => hroom)
  exact hrun {} {} ⟨rfl, rfl⟩

end TwoRuns

/-! ## The sections of a context -/

/-- The section of a kind, if the context has it. -/
def section? (c : Context) (kind : SectionKind) : Option Section :=
  c.sections.find? (·.kind == kind)

theorem section?_build (src : ContextSource) (shares : Shares) (req : ContextRequest)
    (kind : SectionKind) :
    (build src shares req).section? kind =
      ((draft src shares req SectionKind.all).sections.filter (·.kind == kind)).head? := by
  rw [section?, ← sections_draft, List.head?_filter]

/-- The section of a kind is the only one of it. -/
theorem section?_of_mem {src : ContextSource} {shares : Shares} {req : ContextRequest}
    {s : Section} (hs : s ∈ (build src shares req).sections) :
    (build src shares req).section? s.kind = some s := by
  have hnodup : ((build src shares req).sections.map (·.kind)).Nodup := by
    rw [kinds_build]
    exact List.Nodup.filter _ (by decide)
  cases hfind : (build src shares req).section? s.kind with
  | none =>
      have hno := List.find?_eq_none.1 hfind s hs
      rw [beq_self_eq_true] at hno
      exact absurd rfl hno
  | some t =>
      have ht := List.mem_of_find?_eq_some hfind
      have hkind := List.find?_some hfind
      rw [List.inj_on_of_nodup_map hnodup ht hs (beq_iff_eq.1 hkind)]

theorem ofItems_eq_of_share {shares shares' : Shares} {kind : SectionKind} (budget : Nat)
    (hshare : kind.share shares = kind.share shares') :
    Section.ofItems shares budget kind = Section.ofItems shares' budget kind := by
  funext items
  unfold Section.ofItems Section.room
  rw [hshare]

theorem gather_diagnostics (src : ContextSource) (req : ContextRequest)
    (diagnostics : List String) (seen : List Nat) (kind : SectionKind) :
    (gather src { req with diagnostics } seen kind).2 = (gather src req seen kind).2 ∧
      (kind ≠ .diagnostics →
        (gather src { req with diagnostics } seen kind).1 = (gather src req seen kind).1) := by
  cases kind with
  | diagnostics => exact ⟨rfl, fun h => absurd rfl h⟩
  | _ => exact ⟨rfl, fun _ => rfl⟩

/-- A section is the same, in its text and in what is reported of it, or is left out, whatever the
shares of the others are; and changing the diagnostics changes no section but theirs. -/
theorem sections_apart (src : ContextSource) (req : ContextRequest) (shares shares' : Shares)
    (kind : SectionKind) (hshare : kind.share shares = kind.share shares') :
    (build src shares req).section? kind = (build src shares' req).section? kind ∧
      (∀ diagnostics other, other ≠ SectionKind.diagnostics →
        (build src shares { req with diagnostics }).section? other =
          (build src shares req).section? other) ∧
      ∀ s ∈ (build src shares req).sections, (build src shares req).section? s.kind = some s := by
  refine ⟨?_, fun diagnostics other hother => ?_, fun s hs => section?_of_mem hs⟩
  · have hagree : Draft.Agree kind (draft src shares req SectionKind.all)
        (draft src shares' req SectionKind.all) :=
      agree_draft SectionKind.all (fun _ _ => rfl) (fun _ => rfl)
        (ofItems_eq_of_share req.budget hshare)
    rw [section?_build, section?_build, hagree.section_eq]
  · have hgather := gather_diagnostics src req diagnostics
    have hagree : Draft.Agree other (draft src shares { req with diagnostics } SectionKind.all)
        (draft src shares req SectionKind.all) :=
      agree_draft SectionKind.all (fun next seen => (hgather seen next).1)
        (fun seen => (hgather seen other).2 hother) rfl
    rw [section?_build, section?_build, hagree.section_eq]

/-- With more room the message is shown, and the description stays as it is. -/
theorem sections_apart_described :
    let more : Shares := { diagnostics := 60 }
    SectionKind.projectDocs.share {} = SectionKind.projectDocs.share more ∧
      (build described {} whyFailed).section? .projectDocs =
        (build described more whyFailed).section? .projectDocs ∧
      (build described {} whyFailed).section? .projectDocs =
        some ⟨.projectDocs, "## Project docs\n\nAn index of code.", 1, false⟩ ∧
      (build described {} whyFailed).section? .diagnostics ≠
        (build described more whyFailed).section? .diagnostics := by
  intro more
  have hshare : SectionKind.projectDocs.share {} = SectionKind.projectDocs.share more := rfl
  exact ⟨hshare, (sections_apart described whyFailed {} more .projectDocs hshare).1,
    by decide +kernel, by decide +kernel⟩

end Context

end CodeIndex

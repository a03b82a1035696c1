import CodeIndex.Chunk.Parse
import CodeIndex.Proofs.Syntax.Rows
/-!
# The chunks of definitions

A definition that was found in a tree, and what counts as part of it, are nodes of the tree. To
hand out calls and types moves no definition. A file is cut into the chunks of its definitions and
those between them, as many as are allowed.
-/

namespace CodeIndex

open Text Syntax

namespace Outline

/-! ## Where definitions are found -/

/-- The node at a place and those above it satisfy `P`. -/
def OnTheWay (P : Node → Prop) (p : Syntax.Place) : Prop :=
  P p.node ∧ ∀ a ∈ p.above, P a.1

theorem place_of_found? {l : Language} {source : List Char} {owner : Option Found}
    {p : Syntax.Place} {f : Found} (hf : found? l source owner p = some f) : f.place = p := by
  obtain ⟨kind, -, rfl⟩ := Option.map_eq_some_iff.1 hf
  rfl

section Collect

variable {P : Node → Prop} {l : Language} {source : List Char}

mutual

theorem onTheWay_collectAt {owner : Option Found} {above : List (Node × Nat)} {n : Node}
    (hn : n.Throughout P) (habove : ∀ a ∈ above, P a.1) :
    ∀ f ∈ collectAt l source owner above n, OnTheWay P f.place := by
  cases n with
  | mk named kind field start stop children =>
      have hbelow : ∀ owner,
          ∀ f ∈ collectAmong l source owner (.mk named kind field start stop children) above 0
            children, OnTheWay P f.place :=
        fun owner => onTheWay_collectAmong hn.2 hn.1 habove
      intro f hf
      rw [collectAt] at hf
      split at hf
      · rename_i found hfound
        rcases List.mem_cons.1 hf with rfl | hf
        · rw [place_of_found? hfound]
          exact ⟨hn.here, habove⟩
        · exact hbelow _ f hf
      · exact hbelow _ f hf

theorem onTheWay_collectAmong {owner : Option Found} {parent : Node}
    {above : List (Node × Nat)} {i : Nat} {children : List Node}
    (hchildren : ThroughoutAll P children) (hparent : P parent) (habove : ∀ a ∈ above, P a.1) :
    ∀ f ∈ collectAmong l source owner parent above i children, OnTheWay P f.place := by
  cases children with
  | nil =>
      intro f hf
      rw [collectAmong] at hf
      cases hf
  | cons c cs =>
      obtain ⟨hc, hcs⟩ := hchildren
      intro f hf
      rw [collectAmong, List.mem_append] at hf
      rcases hf with hf | hf
      · split at hf
        · refine onTheWay_collectAt hc ?_ f hf
          exact List.forall_mem_cons.2 ⟨hparent, habove⟩
        · cases hf
      · exact onTheWay_collectAmong hcs hparent habove f hf

end

theorem onTheWay_collect {root : Node} (hroot : root.Throughout P) :
    ∀ f ∈ collect l source root, OnTheWay P f.place :=
  onTheWay_collectAmong hroot.below hroot.here (by simp)

end Collect

theorem OnTheWay.span {P : Node → Prop} {p : Syntax.Place} (h : OnTheWay P p) :
    P (Header.span p).node := by
  obtain ⟨hnode, habove⟩ := h
  unfold Header.span Syntax.Place.parent?
  split
  · rename_i q hq
    split at hq
    · cases hq
    · rename_i n i rest heq
      cases hq
      split
      · exact habove (n, i) (by simp [heq])
      · exact hnode
  · exact hnode

/-! ## Handing out names -/

theorem map_place_modify (founds : List Found) (i : Nat) {g : Found → Found}
    (hg : ∀ f, (g f).place = f.place) :
    (founds.modify i g).map (·.place) = founds.map (·.place) := by
  apply List.ext_getElem?
  intro j
  rw [List.getElem?_map, List.getElem?_map, List.getElem?_modify]
  cases founds[j]? with
  | none => rfl
  | some f =>
      by_cases hj : i = j
      · simp [hj, hg]
      · simp [hj]

theorem map_place_addCall (source : List Char) (a : Assignment)
    (capture : Syntax.Place × List Char) :
    (a.addCall source capture).founds.map (·.place) = a.founds.map (·.place) := by
  unfold Assignment.addCall
  split
  · rfl
  · dsimp only
    split
    · exact map_place_modify a.founds _ fun f => rfl
    · rfl

theorem map_place_addType (source : List Char) (a : Assignment)
    (capture : Syntax.Place × List Char) :
    (a.addType source capture).founds.map (·.place) = a.founds.map (·.place) := by
  unfold Assignment.addType
  dsimp only
  split
  · apply map_place_modify
    intro f
    split <;> rfl
  · rfl

theorem map_place_foldl {step : Assignment → Syntax.Place × List Char → Assignment}
    (hstep : ∀ a capture, (step a capture).founds.map (·.place) = a.founds.map (·.place))
    (captures : List (Syntax.Place × List Char)) (a : Assignment) :
    (captures.foldl step a).founds.map (·.place) = a.founds.map (·.place) := by
  induction captures generalizing a with
  | nil => rfl
  | cons capture captures ih => rw [List.foldl_cons, ih, hstep]

theorem map_place_assign (l : Language) (source : List Char) (root : Node)
    (founds : List Found) :
    (assign l source root founds).founds.map (·.place) = founds.map (·.place) := by
  unfold assign
  dsimp only
  rw [map_place_foldl (map_place_addType source), map_place_foldl (map_place_addCall source)]

theorem length_assign (l : Language) (source : List Char) (root : Node) (founds : List Found) :
    (assign l source root founds).founds.length = founds.length := by
  simpa using congrArg List.length (map_place_assign l source root founds)

end Outline

/-- The rows of the definitions of a tree that is laid out over a text are rows of the text. -/
theorem rows_of_assign {l : Language} {source : List Char} {root : Node}
    (hroot : root.IsLaidOut source) :
    ∀ f ∈ (Outline.assign l source root (Outline.collect l source root)).founds,
      (f.rows source).1 ≤ (f.rows source).2 ∧ (f.rows source).2 < (lines source).length := by
  intro f hf
  have hplace : f.place ∈ (Outline.collect l source root).map (·.place) := by
    rw [← Outline.map_place_assign l source root]
    exact List.mem_map_of_mem hf
  obtain ⟨g, hg, hsame⟩ := List.mem_map.1 hplace
  have hfits : (Header.span f.place).node.Fits source := by
    rw [← hsame]
    exact (Outline.onTheWay_collect hroot g hg).span
  exact ⟨hfits.rows_le, hfits.rows_lt⟩

/-! ## The chunks of a tree -/

namespace ParsedFile

/-- The chunks of the definitions of a tree, in pre-order. -/
def structuralChunks (limits : ChunkLimits) (l : Language) (text : String) (root : Node) :
    List Chunk :=
  let source := text.toList
  (Outline.assign l source root (Outline.collect l source root)).founds.map
    (chunkOf limits source (linesOf text))

/-- The chunks between the definitions of a tree, from top to bottom. -/
def betweenChunks (limits : ChunkLimits) (l : Language) (text : String) (root : Node) :
    List Chunk :=
  let source := text.toList
  moduleChunks limits source (linesOf text)
    (Outline.assign l source root (Outline.collect l source root))

/-- Without definitions the text is cut into windows. -/
theorem ofTree_of_nil {limits : ChunkLimits} {l : Language} {text : String} {root : Node}
    (hfound : Outline.collect l text.toList root = []) :
    ofTree limits l text root =
      ofWindows limits text (Import.ofTree l text.toList (.root root)) := by
  unfold ofTree
  dsimp only
  rw [hfound]
  rfl

theorem chunks_ofTree_of_nil {limits : ChunkLimits} {l : Language} {text : String} {root : Node}
    (hfound : Outline.collect l text.toList root = []) :
    (ofTree limits l text root).chunks = windowChunks limits text := by
  rw [ofTree_of_nil hfound]
  rfl

theorem ofTree_of_ne_nil {limits : ChunkLimits} {l : Language} {text : String} {root : Node}
    (hfound : Outline.collect l text.toList root ≠ []) :
    ofTree limits l text root =
      ⟨((structuralChunks limits l text root).take limits.maxChunks ++
          (betweenChunks limits l text root).take (limits.maxChunks -
            ((structuralChunks limits l text root).take limits.maxChunks).length)).mergeSort
          Chunk.comesBefore,
        Import.ofTree l text.toList (.root root), false⟩ := by
  have hsome : (Outline.collect l text.toList root).isEmpty = false :=
    List.isEmpty_eq_false_iff.2 hfound
  unfold ofTree
  dsimp only
  rw [hsome, if_neg Bool.false_ne_true, List.map_take]
  rfl

theorem chunks_ofTree {limits : ChunkLimits} {l : Language} {text : String} {root : Node}
    (hfound : Outline.collect l text.toList root ≠ []) :
    (ofTree limits l text root).chunks =
      ((structuralChunks limits l text root).take limits.maxChunks ++
        (betweenChunks limits l text root).take (limits.maxChunks -
          ((structuralChunks limits l text root).take limits.maxChunks).length)).mergeSort
        Chunk.comesBefore := by
  rw [ofTree_of_ne_nil hfound]

end ParsedFile

theorem parse_of_blank (grammar : Grammar) (limits : ChunkLimits) (language : String)
    {text : String} (hblank : isBlankString text = true) :
    (parse grammar limits language text).chunks = [] := by
  unfold parse
  rw [if_pos hblank]

theorem parse_of_tree {grammar : Grammar} {limits : ChunkLimits} {language text : String}
    {l : Language} {root : Node} (hblank : isBlankString text = false)
    (hl : Language.ofName? language = some l) (hroot : grammar language text = some root) :
    parse grammar limits language text = .ofTree limits l text root := by
  unfold parse
  rw [hblank, if_neg Bool.false_ne_true, hl]
  dsimp only
  rw [hroot]

end CodeIndex

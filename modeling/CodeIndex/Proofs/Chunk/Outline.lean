import CodeIndex.Proofs.Chunk.Definitions
import CodeIndex.Proofs.Chunk.Stack
import CodeIndex.Proofs.Syntax.Places
import Mathlib.Data.List.Nodup
/-!
# The outline of a tree

The nodes that become chunks are those of the pre-order that are accepted below the nearest chunk
above them. So each stands in the outline once, after the chunks around it, and its scope names
these from the outermost to the innermost.
-/

namespace CodeIndex

open Text Syntax

namespace Outline

/-! ## What a node becomes -/

section Found

variable {l : Language} {source : List Char} {owner : Option Found} {p : Syntax.Place} {f : Found}

/-- What is said of a node that becomes a chunk below `owner`. -/
theorem of_found? (hf : found? l source owner p = some f) :
    f.place = p ∧ kindOf? l source p (owner.map (·.kind)) = some f.kind ∧
      f.name = nameOf? source p.node ∧
      f.scopePath = owner.elim (segment f.kind f.name)
        fun o => o.scopePath ++ "." ++ segment f.kind f.name := by
  obtain ⟨kind, hkind, rfl⟩ := Option.map_eq_some_iff.1 hf
  refine ⟨rfl, hkind, rfl, ?_⟩
  cases owner <;> rfl

theorem isSome_found? :
    (found? l source owner p).isSome = (kindOf? l source p (owner.map (·.kind))).isSome :=
  Option.isSome_map

end Found

/-! ## Named nodes -/

/-- The node, and those above it below the root, are named. -/
def isNamedWay (p : Syntax.Place) : Bool :=
  p.node.named && p.above.dropLast.all (·.1.named)

theorem isNamedWay_child (c n : Node) (i : Nat) (way : List (Node × Nat)) :
    isNamedWay ⟨c, (n, i) :: way⟩ = (c.named && (way.isEmpty || isNamedWay ⟨n, way⟩)) := by
  cases way <;> simp [isNamedWay]

theorem isNamedWay_of_child {c : Node} {p : Syntax.Place} {i : Nat} (hp : p.above ≠ [])
    (hway : isNamedWay ⟨c, (p.node, i) :: p.above⟩ = true) : isNamedWay p = true := by
  rw [isNamedWay_child, List.isEmpty_eq_false_iff.2 hp, Bool.false_or, Bool.and_eq_true] at hway
  exact hway.2

theorem isNamedWay_of_isUnder {top p : Syntax.Place} (hp : Place.IsUnder top p)
    (htop : top.above ≠ []) (hway : isNamedWay p = true) : isNamedWay top = true := by
  induction hp with
  | here => exact hway
  | child hq _ ih => exact ih (isNamedWay_of_child (hq.above_ne_nil htop) hway)

/-! ## The walk in closed form -/

section Walk

variable (l : Language) (source : List Char)

/-- The nearest chunk on the way from a node up to the root, which is none itself. -/
def chunkAlong : List (Node × Nat) → Option Found
  | [] => none
  | [_] => none
  | (n, _) :: step :: way =>
    (found? l source (chunkAlong (step :: way)) ⟨n, step :: way⟩).or (chunkAlong (step :: way))

/-- What the node at a place becomes below the nearest chunk above it. -/
def verdict (p : Syntax.Place) : Option Found :=
  found? l source (chunkAlong l source p.above) p

theorem chunkAlong_cons {n : Node} {i : Nat} {way : List (Node × Nat)} (hway : way ≠ []) :
    chunkAlong l source ((n, i) :: way) =
      (verdict l source ⟨n, way⟩).or (chunkAlong l source way) := by
  cases way with
  | nil => exact absurd rfl hway
  | cons step way => rfl

/-- The way up does not depend on which child it comes from. -/
theorem chunkAlong_position (n : Node) (i j : Nat) (way : List (Node × Nat)) :
    chunkAlong l source ((n, i) :: way) = chunkAlong l source ((n, j) :: way) := by
  cases way <;> rfl

/-- The chunks at places, each judged below the nearest chunk above it. -/
def chunksAt (ps : List Syntax.Place) : List Found :=
  (ps.filter isNamedWay).filterMap (verdict l source)

theorem chunksAt_append (ps qs : List Syntax.Place) :
    chunksAt l source (ps ++ qs) = chunksAt l source ps ++ chunksAt l source qs := by
  rw [chunksAt, List.filter_append, List.filterMap_append]
  rfl

/-- Below an unnamed node there is nothing to be walked through. -/
theorem chunksAt_unnamed {c : Node} {above : List (Node × Nat)} (hc : c.named = false)
    (habove : above ≠ []) : chunksAt l source (c.placesBelow above) = [] := by
  have hnone : (c.placesBelow above).filter isNamedWay = [] := by
    rw [List.filter_eq_nil_iff]
    intro p hp hway
    have htop := isNamedWay_of_isUnder (Place.mem_placesBelow_iff.1 hp) habove hway
    rw [isNamedWay, hc, Bool.false_and] at htop
    cases htop
  rw [chunksAt, hnone, List.filterMap_nil]

mutual

theorem collectAt_eq {above : List (Node × Nat)} {n : Node} (habove : above ≠ [])
    (hway : isNamedWay ⟨n, above⟩ = true) :
    collectAt l source (chunkAlong l source above) above n =
      chunksAt l source (n.placesBelow above) := by
  cases n with
  | mk named kind field start stop children =>
      have hbelow := collectAmong_eq (.mk named kind field start stop children) above 0 children
        fun _ => hway
      rw [chunkAlong_cons l source habove] at hbelow
      rw [collectAt, Node.placesBelow, chunksAt, List.filter_cons_of_pos hway,
        List.filterMap_cons]
      cases hfound : verdict l source ⟨.mk named kind field start stop children, above⟩ with
      | none =>
          rw [hfound, Option.none_or] at hbelow
          rw [verdict] at hfound
          rw [hfound]
          exact hbelow
      | some f =>
          rw [hfound, Option.some_or] at hbelow
          rw [verdict] at hfound
          rw [hfound]
          exact congrArg (f :: ·) hbelow

theorem collectAmong_eq (parent : Node) (above : List (Node × Nat)) (i : Nat)
    (children : List Node) (hway : above ≠ [] → isNamedWay ⟨parent, above⟩ = true) :
    collectAmong l source (chunkAlong l source ((parent, i) :: above)) parent above i children =
      chunksAt l source (placesAmong parent above i children) := by
  cases children with
  | nil => rfl
  | cons c cs =>
      have hrest := collectAmong_eq parent above (i + 1) cs hway
      rw [chunkAlong_position l source parent (i + 1) i] at hrest
      rw [collectAmong, placesAmong, chunksAt_append, hrest]
      congr 1
      cases hc : c.named with
      | false =>
          rw [chunksAt_unnamed l source hc (List.cons_ne_nil _ _), if_neg Bool.false_ne_true]
      | true =>
          rw [if_pos rfl]
          refine collectAt_eq (List.cons_ne_nil _ _) ?_
          rw [isNamedWay_child, hc, Bool.true_and, Bool.or_eq_true, List.isEmpty_iff]
          by_cases habove : above = []
          · exact Or.inl habove
          · exact Or.inr (hway habove)

end

/-- The chunks of a tree are those of its places below the root, in pre-order. -/
theorem collect_eq (root : Node) :
    collect l source root = chunksAt l source (Place.root root).preorder.tail := by
  cases root with
  | mk named kind field start stop children =>
      exact collectAmong_eq l source _ [] 0 children fun h => absurd rfl h

theorem mem_tail_preorder_iff {root : Node} {p : Syntax.Place} :
    p ∈ (Place.root root).preorder.tail ↔ Place.IsUnder (.root root) p ∧ p.above ≠ [] := by
  cases root with
  | mk named kind field start stop children =>
      change p ∈ placesAmong _ [] 0 children ↔ _
      rw [Place.mem_placesAmong_iff]
      simp only [Nat.zero_add]
      constructor
      · rintro ⟨i, c, hc, hp⟩
        exact ⟨Place.isUnder_iff.2 (Or.inr ⟨i, c, hc, hp⟩), hp.above_ne_nil (List.cons_ne_nil _ _)⟩
      · rintro ⟨hp, habove⟩
        exact hp.above_ne_nil_iff.1 habove

/-- A chunk of the outline is what its place below the root becomes. -/
theorem mem_collect_iff {root : Node} {f : Found} :
    f ∈ collect l source root ↔
      Place.IsUnder (.root root) f.place ∧ f.place.above ≠ [] ∧ isNamedWay f.place = true ∧
        verdict l source f.place = some f := by
  rw [collect_eq, chunksAt, List.mem_filterMap]
  constructor
  · rintro ⟨p, hp, hf⟩
    obtain ⟨htail, hway⟩ := List.mem_filter.1 hp
    obtain ⟨hunder, habove⟩ := mem_tail_preorder_iff.1 htail
    obtain rfl := (of_found? hf).1
    exact ⟨hunder, habove, hway, hf⟩
  · rintro ⟨hunder, habove, hway, hf⟩
    exact ⟨f.place, List.mem_filter.2 ⟨mem_tail_preorder_iff.2 ⟨hunder, habove⟩, hway⟩, hf⟩

theorem map_place_filterMap_verdict (ps : List Syntax.Place) :
    ((ps.filterMap (verdict l source)).map (·.place)).Sublist ps := by
  induction ps with
  | nil => exact List.Sublist.slnil
  | cons p ps ih =>
      cases hp : verdict l source p with
      | none =>
          rw [List.filterMap_cons_none hp]
          exact ih.cons p
      | some f =>
          rw [List.filterMap_cons_some hp, List.map_cons, (of_found? hp).1]
          exact ih.cons_cons p

theorem places_collect_sublist (root : Node) :
    ((collect l source root).map (·.place)).Sublist (Place.root root).preorder := by
  rw [collect_eq]
  exact ((map_place_filterMap_verdict l source _).trans List.filter_sublist).trans
    (List.tail_sublist _)

theorem nodup_addresses_collect (root : Node) :
    ((collect l source root).map (·.place.address)).Nodup := by
  have hplaces := (places_collect_sublist l source root).map Place.address
  rw [List.map_map] at hplaces
  exact (Place.nodup_preorder _).sublist hplaces

end Walk

/-! ## The chunks around a place -/

/-- The chunk that the node at a place became. -/
def chunkOf? (founds : List Found) (p : Syntax.Place) : Option Found :=
  founds.find? (·.place.address == p.address)

/-- The chunks around a place, the innermost first. -/
def around (founds : List Found) (p : Syntax.Place) : List Found :=
  p.ancestors.filterMap (chunkOf? founds)

section Around

variable {l : Language} {source : List Char} {root : Node}

theorem chunkOf?_eq_some {p : Syntax.Place} {f : Found} (hp : Place.IsUnder (.root root) p)
    (hf : chunkOf? (collect l source root) p = some f) :
    f ∈ collect l source root ∧ f.place = p := by
  have hmem := List.mem_of_find?_eq_some hf
  have hsame := List.find?_some hf
  exact ⟨hmem, ((mem_collect_iff l source).1 hmem).1.eq_of_address hp (beq_iff_eq.1 hsame)⟩

theorem chunkOf?_root : chunkOf? (collect l source root) (.root root) = none := by
  cases hf : chunkOf? (collect l source root) (.root root) with
  | none => rfl
  | some f =>
      obtain ⟨hmem, hplace⟩ := chunkOf?_eq_some .here hf
      exact absurd (congrArg Place.above hplace) ((mem_collect_iff l source).1 hmem).2.1

theorem chunkOf?_eq_verdict {p : Syntax.Place} (hp : Place.IsUnder (.root root) p)
    (habove : p.above ≠ []) (hway : isNamedWay p = true) :
    chunkOf? (collect l source root) p = verdict l source p := by
  cases hf : chunkOf? (collect l source root) p with
  | some f =>
      obtain ⟨hmem, rfl⟩ := chunkOf?_eq_some hp hf
      exact ((mem_collect_iff l source).1 hmem).2.2.2.symm
  | none =>
      cases hv : verdict l source p with
      | none => rfl
      | some f =>
          obtain rfl := (of_found? hv).1
          have hmem := (mem_collect_iff l source).2 ⟨hp, habove, hway, hv⟩
          have hno := List.find?_eq_none.1 hf f hmem
          rw [beq_self_eq_true] at hno
          exact absurd rfl hno

/-- The walk judges a node below the nearest chunk of the outline around it. -/
theorem head?_around {p : Syntax.Place} (hp : Place.IsUnder (.root root) p)
    (hway : isNamedWay p = true) :
    (around (collect l source root) p).head? = chunkAlong l source p.above := by
  induction hp with
  | here => rfl
  | @child q i c hq hc ih =>
      have hstep : around (collect l source root) ⟨c, (q.node, i) :: q.above⟩ =
          (chunkOf? (collect l source root) q).toList ++ around (collect l source root) q := by
        change (q :: q.ancestors).filterMap _ = _
        rw [List.filterMap_cons]
        cases chunkOf? (collect l source root) q <;> rfl
      rw [hstep, List.head?_append, Option.head?_toList]
      by_cases habove : q.above = []
      · obtain ⟨n, above⟩ := q
        subst habove
        have hroot : n = root := by
          cases hq with
          | here => rfl
        subst hroot
        exact congrArg (Option.or · _) chunkOf?_root
      · have hwayq := isNamedWay_of_child habove hway
        rw [chunkOf?_eq_verdict hq habove hwayq, chunkAlong_cons l source habove, ih hwayq]

/-- Around the innermost chunk around a place are the others. -/
theorem around_of_around_eq_cons {p : Syntax.Place} {o : Found} {rest : List Found}
    (hp : Place.IsUnder (.root root) p)
    (h : around (collect l source root) p = o :: rest) :
    o ∈ collect l source root ∧ around (collect l source root) o.place = rest := by
  obtain ⟨before, q, after, hsplit, -, hq, hrest⟩ := List.filterMap_eq_cons_iff.1 h
  have hmem : q ∈ p.ancestors := hsplit ▸ List.mem_append_right before List.mem_cons_self
  obtain ⟨ho, rfl⟩ := chunkOf?_eq_some (hp.of_mem_ancestors hmem) hq
  refine ⟨ho, ?_⟩
  rw [around, Place.ancestors_split hsplit]
  exact hrest

/-- A chunk of the outline below the nearest chunk of the outline around it. -/
theorem found?_of_mem_collect {f : Found} (hf : f ∈ collect l source root) :
    found? l source (around (collect l source root) f.place).head? f.place = some f := by
  obtain ⟨hunder, -, hway, hverdict⟩ := (mem_collect_iff l source).1 hf
  rw [head?_around hunder hway]
  exact hverdict

theorem scopePath_of_mem_collect {f : Found} (hf : f ∈ collect l source root) :
    f.scopePath = ".".intercalate
      (((around (collect l source root) f.place).reverse ++ [f]).map fun g =>
        segment g.kind g.name) := by
  have hscope := (of_found? (found?_of_mem_collect hf)).2.2.2
  have hunder := ((mem_collect_iff l source).1 hf).1
  induction haround : around (collect l source root) f.place generalizing f with
  | nil =>
      rw [haround] at hscope
      simpa using hscope
  | cons o rest ih =>
      obtain ⟨ho, hrest⟩ := around_of_around_eq_cons hunder haround
      have houter := ih ho (of_found? (found?_of_mem_collect ho)).2.2.2
        ((mem_collect_iff l source).1 ho).1 hrest
      have hne : ((o :: rest).reverse.map fun g => segment g.kind g.name) ≠ [] := by simp
      rw [haround] at hscope
      rw [hscope, List.map_append, List.map_singleton,
        String.intercalate_append_of_ne_nil hne (List.cons_ne_nil _ _),
        String.intercalate_singleton, List.reverse_cons, ← houter]
      rfl

end Around

/-! ## Kinds below other kinds -/

section Kinds

variable {l : Language} {source : List Char} {p : Syntax.Place}

/-- The kind of a node under its rule, whatever is around it. -/
def ownKind? (source : List Char) (n : Node) (rule : ChunkRule) : Option ChunkKind :=
  if n.kind == "type_declaration" then some (declaredTypeKind n)
  else if n.kind == "lexical_declaration" || n.kind == "variable_declaration" then
    declaredValueKind? source n
  else some rule.kind

/-- A kind below a chunk of kind `outer`. -/
def kindBelow? (outer : Option ChunkKind) (kind : ChunkKind) : Option ChunkKind :=
  if (outer == some .function || outer == some .method)
      && (kind == .constantDef || kind == .variableDef) then none
  else if kind == .function && outer.any (·.isContainer) then some .method
  else some kind

theorem kindOf?_eq (outer : Option ChunkKind) :
    kindOf? l source p outer = (l.rule? p.node.kind).bind fun rule =>
      if rule.topLevelOnly && !isTopLevel p then none
      else (ownKind? source p.node rule).bind (kindBelow? outer) := by
  unfold kindOf? ownKind? kindBelow?
  cases l.rule? p.node.kind with
  | none => rfl
  | some rule =>
      simp only [Option.bind_eq_bind, Option.bind_some, Option.bind_none]
      split
      · rfl
      · split
        · rfl
        · split <;> rfl

theorem mem_of_rule? {nodeKind : String} {rule : ChunkRule} (hrule : l.rule? nodeKind = some rule) :
    rule ∈ l.rules ∧ rule.nodeKind = nodeKind := by
  have hkind := List.find?_some hrule
  exact ⟨List.mem_of_find?_eq_some hrule, beq_iff_eq.1 hkind⟩

/-- The rules for functions hold at any depth and for nodes that need no closer look. -/
theorem plain_of_function_rule : ∀ l ∈ Language.all, ∀ rule ∈ l.rules, rule.kind = .function →
    rule.topLevelOnly = false ∧ rule.nodeKind ≠ "type_declaration" ∧
      rule.nodeKind ≠ "lexical_declaration" ∧ rule.nodeKind ≠ "variable_declaration" := by
  decide

theorem kindOf?_function_rule {rule : ChunkRule} {outer : ChunkKind} (hl : l ∈ Language.all)
    (hrule : l.rule? p.node.kind = some rule) (hfunction : rule.kind = .function)
    (houter : outer.isContainer = true) : kindOf? l source p (some outer) = some .method := by
  obtain ⟨hmem, hkind⟩ := mem_of_rule? hrule
  obtain ⟨htop, htype, hlexical, hvariable⟩ := plain_of_function_rule l hl rule hmem hfunction
  rw [hkind] at htype hlexical hvariable
  have hown : ownKind? source p.node rule = some .function := by
    simp [ownKind?, htype, hlexical, hvariable, hfunction]
  rw [kindOf?_eq, hrule, Option.bind_some, htop, Bool.false_and, if_neg Bool.false_ne_true, hown]
  simp [kindBelow?, houter]

/-- No constant and no variable is a chunk directly inside a function. -/
theorem outer_of_kindOf?_value {outer : Option ChunkKind} {kind : ChunkKind}
    (hkind : kindOf? l source p outer = some kind)
    (hvalue : kind = .constantDef ∨ kind = .variableDef) :
    outer ≠ some .function ∧ outer ≠ some .method := by
  rw [kindOf?_eq] at hkind
  obtain ⟨rule, -, hrule⟩ := Option.bind_eq_some_iff.1 hkind
  split at hrule
  · cases hrule
  · obtain ⟨own, -, hbelow⟩ := Option.bind_eq_some_iff.1 hrule
    unfold kindBelow? at hbelow
    split at hbelow
    · cases hbelow
    · next hinside =>
      split at hbelow
      · cases hbelow
        simp at hvalue
      · cases hbelow
        rcases hvalue with rfl | rfl <;> simpa using hinside

end Kinds

/-! ## The outline -/

/-- An unnamed node is a mere token: there are only tokens below it, and no rule is about its
kind. -/
def HasPlainTokens (l : Language) (root : Node) : Prop :=
  ∀ p ∈ (Place.root root).preorder, p.node.named = false →
    (∀ c ∈ p.node.children, c.named = false) ∧ l.rule? p.node.kind = none

/-- The chunks are the outline of a tree. Of each it is said which chunks of the outline are around
it. -/
structure IsOutline (l : Language) (source : List Char) (root : Node) (founds : List Found) :
    Prop where
  /-- The nodes come in pre-order. -/
  inOrder : (founds.map (·.place)).Sublist (Place.root root).preorder
  once : (founds.map (·.place.address)).Nodup
  belowRoot : ∀ f ∈ founds, f.place.above ≠ []
  /-- A node becomes a chunk exactly when it is accepted below the nearest chunk around it. Nodes
  that only an unnamed node leads to are not visited. -/
  mem_iff : ∀ p ∈ (Place.root root).preorder, (∃ f ∈ founds, f.place = p) ↔
    p.above ≠ [] ∧ isNamedWay p = true ∧
      (kindOf? l source p ((around founds p).head?.map (·.kind))).isSome
  /-- Where unnamed nodes are mere tokens, all nodes are visited. -/
  mem_iff_of_tokens : HasPlainTokens l root → ∀ p ∈ (Place.root root).preorder,
    (∃ f ∈ founds, f.place = p) ↔
      p.above ≠ [] ∧ (kindOf? l source p ((around founds p).head?.map (·.kind))).isSome
  kind_eq : ∀ f ∈ founds,
    kindOf? l source f.place ((around founds f.place).head?.map (·.kind)) = some f.kind
  name_eq : ∀ f ∈ founds, f.name = nameOf? source f.place.node
  /-- The names of the chunks around it from the outermost on, and its own; the word for the kind
  where there is no name. -/
  scopePath_eq : ∀ f ∈ founds, f.scopePath = ".".intercalate
    (((around founds f.place).reverse ++ [f]).map fun g => segment g.kind g.name)
  /-- A function directly inside a container is a method. -/
  method : ∀ p ∈ (Place.root root).preorder, isNamedWay p = true →
    ∀ rule, l.rule? p.node.kind = some rule → rule.kind = .function →
      ∀ outer, (around founds p).head? = some outer →
        outer.kind ∈ [.classDef, .structDef, .interfaceDef, .traitDef, .implDef] →
          ∃ f ∈ founds, f.place = p ∧ f.kind = .method
  /-- Constants and variables directly inside a function are no chunks. -/
  valueOutside : ∀ f ∈ founds, f.kind = .constantDef ∨ f.kind = .variableDef →
    ∀ outer, (around founds f.place).head? = some outer →
      outer.kind ≠ .function ∧ outer.kind ≠ .method

section Specification

variable {l : Language} {source : List Char} {root : Node}

theorem isNamedWay_of_tokens (htokens : HasPlainTokens l root) {p : Syntax.Place}
    (hp : Place.IsUnder (.root root) p) (hnamed : p.node.named = true) :
    isNamedWay p = true := by
  induction hp with
  | here => simpa [isNamedWay, Place.root] using hnamed
  | @child q i c hq hc ih =>
      rw [isNamedWay_child, Bool.and_eq_true, Bool.or_eq_true]
      refine ⟨hnamed, Or.inr (ih ?_)⟩
      cases hparent : q.node.named with
      | true => rfl
      | false =>
          have htoken := (htokens q (Place.mem_preorder_iff.2 hq) hparent).1 c
            (List.mem_of_getElem? hc)
          exact absurd hnamed (by simp [htoken])

theorem named_of_accepted (htokens : HasPlainTokens l root) {p : Syntax.Place}
    (hp : p ∈ (Place.root root).preorder) {outer : Option ChunkKind}
    (hkind : (kindOf? l source p outer).isSome = true) : p.node.named = true := by
  cases hnamed : p.node.named with
  | true => rfl
  | false =>
      rw [kindOf?_eq, (htokens p hp hnamed).2] at hkind
      cases hkind

theorem place_mem_collect_iff {p : Syntax.Place} (hp : p ∈ (Place.root root).preorder) :
    (∃ f ∈ collect l source root, f.place = p) ↔
      p.above ≠ [] ∧ isNamedWay p = true ∧
        (kindOf? l source p ((around (collect l source root) p).head?.map (·.kind))).isSome := by
  constructor
  · rintro ⟨f, hf, rfl⟩
    obtain ⟨-, habove, hway, -⟩ := (mem_collect_iff l source).1 hf
    refine ⟨habove, hway, ?_⟩
    rw [(of_found? (found?_of_mem_collect hf)).2.1]
    rfl
  · rintro ⟨habove, hway, haccepted⟩
    have hunder := Place.mem_preorder_iff.1 hp
    rw [← isSome_found?, head?_around hunder hway] at haccepted
    obtain ⟨f, hf⟩ := Option.isSome_iff_exists.1 haccepted
    obtain rfl := (of_found? hf).1
    exact ⟨f, (mem_collect_iff l source).2 ⟨hunder, habove, hway, hf⟩, rfl⟩

/-- The walk over a tree finds its outline, also with a stack in place of the recursion. -/
theorem isOutline_collect (hl : l ∈ Language.all) (source : List Char) (root : Node) :
    IsOutline l source root (collect l source root) ∧
      walk l source [] [(Place.root root, none)] = collect l source root := by
  refine ⟨?_, walk_root l source root⟩
  have hjudged : ∀ f ∈ collect l source root, _ := fun f hf =>
    of_found? (found?_of_mem_collect hf)
  refine ⟨places_collect_sublist l source root, nodup_addresses_collect l source root,
    fun f hf => ((mem_collect_iff l source).1 hf).2.1, fun p hp => place_mem_collect_iff hp,
    fun htokens p hp => ?_, fun f hf => (hjudged f hf).2.1, fun f hf => (hjudged f hf).2.2.1,
    fun f hf => scopePath_of_mem_collect hf, ?_, ?_⟩
  · rw [place_mem_collect_iff hp]
    refine and_congr_right fun _ => and_iff_right_of_imp fun haccepted => ?_
    exact isNamedWay_of_tokens htokens (Place.mem_preorder_iff.1 hp)
      (named_of_accepted htokens hp haccepted)
  · intro p hp hway rule hrule hfunction outer houter hcontainer
    have hcontains : outer.kind.isContainer = true := by
      revert hcontainer
      cases outer.kind <;> decide
    have hkind : kindOf? l source p (some outer.kind) = some .method :=
      kindOf?_function_rule hl hrule hfunction hcontains
    have habove : p.above ≠ [] := by
      intro hroot
      have hnone : around (collect l source root) p = [] := by
        rw [around, Place.ancestors, hroot]
        rfl
      rw [hnone] at houter
      cases houter
    have hmem : ∃ f ∈ collect l source root, f.place = p := by
      refine (place_mem_collect_iff hp).2 ⟨habove, hway, ?_⟩
      rw [houter, Option.map_some, hkind]
      rfl
    obtain ⟨f, hf, rfl⟩ := hmem
    have hown := (hjudged f hf).2.1
    rw [houter, Option.map_some, hkind] at hown
    exact ⟨f, hf, rfl, (Option.some.inj hown).symm⟩
  · intro f hf hvalue outer houter
    have houtside := outer_of_kindOf?_value (hjudged f hf).2.1 hvalue
    rw [houter, Option.map_some] at houtside
    exact ⟨fun h => houtside.1 (congrArg some h), fun h => houtside.2 (congrArg some h)⟩

end Specification

/-- A class with a method that calls a function, and a call of its own after it. -/
def nestedSource : List Char :=
  "class A:\n    def f(self):\n        g()\n\ng()\n".toList

/-- The call of a function with a name of one character. -/
def callNode (start : Nat) : Node :=
  .mk true "expression_statement" "" start (start + 3) [
    .mk true "call" "" start (start + 3) [
      .mk true "identifier" "function" start (start + 1) [],
      .mk true "argument_list" "arguments" (start + 1) (start + 3) []]]

def nestedTree : Node :=
  .mk true "module" "" 0 43 [
    .mk true "class_definition" "" 0 37 [
      .mk false "class" "" 0 5 [],
      .mk true "identifier" "name" 6 7 [],
      .mk false ":" "" 7 8 [],
      .mk true "block" "body" 13 37 [
        .mk true "function_definition" "" 13 37 [
          .mk false "def" "" 13 16 [],
          .mk true "identifier" "name" 17 18 [],
          .mk true "parameters" "parameters" 18 24 [],
          .mk false ":" "" 24 25 [],
          .mk true "block" "body" 34 37 [callNode 34]]]],
    callNode 39]

/-- The function inside the class is a method in its scope. -/
theorem isOutline_collect_nested :
    Language.python ∈ Language.all ∧ HasPlainTokens .python nestedTree ∧
      IsOutline .python nestedSource nestedTree (collect .python nestedSource nestedTree) ∧
      walk .python nestedSource [] [(Place.root nestedTree, none)] =
        collect .python nestedSource nestedTree ∧
      (collect .python nestedSource nestedTree).map (fun f => (f.kind, f.scopePath)) =
        [(.classDef, "A"), (.method, "A.f")] := by
  have hl : Language.python ∈ Language.all := List.mem_of_getElem? (i := 1) rfl
  have htokens : HasPlainTokens .python nestedTree := by
    unfold HasPlainTokens
    decide +kernel
  have houtline := isOutline_collect hl nestedSource nestedTree
  exact ⟨hl, htokens, houtline.1, houtline.2, by decide +kernel⟩

end Outline

end CodeIndex

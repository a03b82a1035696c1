import CodeIndex.Proofs.Chunk.Outline
import CodeIndex.Proofs.Syntax.Ranges
/-!
# Nested definitions

The rows of two definitions of a file are nested, or there is at most one row that they share. What
is found inside a definition keeps within its rows and its scope, also where a decorator or an
export counts as part of one of the two.
-/

namespace CodeIndex

open Text Syntax

namespace Outline

/-! ## What counts as part of a definition -/

theorem span_cases (p : Syntax.Place) :
    Header.span p = p ∨ p.parent? = some (Header.span p) := by
  unfold Header.span
  split
  · next q hq =>
    split
    · exact Or.inr hq
    · exact Or.inl rfl
  · exact Or.inl rfl

theorem isUnder_span {n : Node} {p : Syntax.Place} (hp : Place.IsUnder (.root n) p) :
    Place.IsUnder (.root n) (Header.span p) ∧ Place.IsUnder (Header.span p) p := by
  rcases span_cases p with hself | hparent
  · rw [hself]
    exact ⟨hp, .here⟩
  · have habove : Header.span p ∈ p.ancestors :=
      Place.ancestors_of_parent? hparent ▸ List.mem_cons_self
    exact ⟨hp.of_mem_ancestors habove, hp.below_ancestor habove⟩

/-- What counts as part of a node below another one lies below what counts as part of that. -/
theorem isUnder_span_span {n : Node} {p q : Syntax.Place} (hq : Place.IsUnder (.root n) q)
    (habove : p ∈ q.ancestors) : Place.IsUnder (Header.span p) (Header.span q) := by
  have hp := (isUnder_span (hq.of_mem_ancestors habove)).2
  rcases span_cases q with hself | hparent
  · rw [hself]
    exact hp.trans (hq.below_ancestor habove)
  · rw [Place.ancestors_of_parent? hparent] at habove
    rcases List.mem_cons.1 habove with rfl | habove
    · exact hp
    · exact hp.trans ((isUnder_span hq).1.below_ancestor habove)

/-! ## Scopes -/

section Scopes

variable {l : Language} {source : List Char} {root : Node} {f g : Found}

theorem chunkOf?_of_mem_collect (hf : f ∈ collect l source root) :
    chunkOf? (collect l source root) f.place = some f := by
  obtain ⟨hunder, habove, hway, hverdict⟩ := (mem_collect_iff l source).1 hf
  rw [chunkOf?_eq_verdict hunder habove hway, hverdict]

/-- The chunk stands below `f` and above `g`. -/
def IsBetween (f g h : Found) : Prop :=
  f.place ∈ h.place.ancestors ∧ h.place ∈ g.place.ancestors

/-- Around a chunk are those between it and a chunk above it, this one, and those around this. -/
theorem around_of_ancestor (hf : f ∈ collect l source root) (hg : g ∈ collect l source root)
    (habove : f.place ∈ g.place.ancestors) :
    ∃ inner, around (collect l source root) g.place =
        inner ++ f :: around (collect l source root) f.place ∧
      ∀ h ∈ inner, h ∈ collect l source root ∧ IsBetween f g h := by
  obtain ⟨before, after, hsplit⟩ := List.append_of_mem habove
  refine ⟨before.filterMap (chunkOf? (collect l source root)), ?_, fun h hh => ?_⟩
  · rw [around, hsplit, List.filterMap_append, List.filterMap_cons, chunkOf?_of_mem_collect hf,
      ← Place.ancestors_split hsplit]
    rfl
  · obtain ⟨q, hq, hchunk⟩ := List.mem_filterMap.1 hh
    have hbelow : q ∈ g.place.ancestors := hsplit ▸ List.mem_append_left _ hq
    obtain ⟨hmem, rfl⟩ :=
      chunkOf?_eq_some (((mem_collect_iff l source).1 hg).1.of_mem_ancestors hbelow) hchunk
    obtain ⟨front, back, rfl⟩ := List.append_of_mem hq
    rw [List.append_assoc, List.cons_append] at hsplit
    refine ⟨hmem, ?_, hbelow⟩
    rw [Place.ancestors_split hsplit]
    exact List.mem_append_right back List.mem_cons_self

theorem scopePath_of_ancestor (hf : f ∈ collect l source root) (hg : g ∈ collect l source root)
    (habove : f.place ∈ g.place.ancestors) :
    ∃ inner, (∀ h ∈ inner, h ∈ collect l source root ∧ IsBetween f g h) ∧
      g.scopePath = f.scopePath ++ "." ++
        ".".intercalate ((inner ++ [g]).map fun h => segment h.kind h.name) := by
  obtain ⟨inner, hinner, hbetween⟩ := around_of_ancestor hf hg habove
  refine ⟨inner.reverse, fun h hh => hbetween h (List.mem_reverse.1 hh), ?_⟩
  have hway : (around (collect l source root) g.place).reverse ++ [g] =
      ((around (collect l source root) f.place).reverse ++ [f]) ++ (inner.reverse ++ [g]) := by
    rw [hinner, List.reverse_append, List.reverse_cons, List.append_assoc]
  rw [scopePath_of_mem_collect hg, scopePath_of_mem_collect hf, hway, List.map_append,
    String.intercalate_append_of_ne_nil (by simp) (by simp)]

end Scopes

/-! ## Definitions -/

/-- Definitions of a file are nested, or apart from each other but for one row. -/
structure AreNested (source : List Char) (founds : List Found) : Prop where
  some : ∀ f ∈ founds, (f.rows source).1 ≤ (f.rows source).2
  rows : ∀ f ∈ founds, ∀ g ∈ founds,
    RowsWithin (g.rows source) (f.rows source) ∨ RowsWithin (f.rows source) (g.rows source) ∨
      ShareAtMostOneRow (f.rows source) (g.rows source)
  /-- What is found below a definition has no other rows. -/
  below : ∀ f ∈ founds, ∀ g ∈ founds, f.place ∈ g.place.ancestors →
    RowsWithin (g.rows source) (f.rows source)
  /-- Its scope goes on from that of the definition, by the names of the definitions between the
  two and its own. -/
  scope : ∀ f ∈ founds, ∀ g ∈ founds, f.place ∈ g.place.ancestors →
    ∃ inner, (∀ h ∈ inner, h ∈ founds ∧ IsBetween f g h) ∧
      g.scopePath = f.scopePath ++ "." ++
        ".".intercalate ((inner ++ [g]).map fun h => segment h.kind h.name)

theorem areNested_collect (l : Language) {source : List Char} {root : Node}
    (hroot : root.Throughout (Node.LiesIn source)) : AreNested source (collect l source root) := by
  have hspan : ∀ f ∈ collect l source root, Place.IsUnder (.root root) (Header.span f.place) :=
    fun f hf => (isUnder_span ((mem_collect_iff l source).1 hf).1).1
  refine ⟨fun f hf => ?_, fun f hf g hg => ?_, fun f hf g hg habove => ?_,
    fun f hf g hg habove => scopePath_of_ancestor hf hg habove⟩
  · have hlies := ((hspan f hf).throughout hroot).here
    have hsome := hlies.some
    rw [Found.rows, hlies.rows_eq]
    exact rowAt_mono source (by omega)
  · exact (hspan f hf).rows_nested_or_apart (hspan g hg) hroot
  · have hunder := ((mem_collect_iff l source).1 hg).1
    exact (isUnder_span_span hunder habove).rows_within ((hspan f hf).throughout hroot)

/-- An exported function with a class inside, and a function that starts where it stops. -/
def exportedSource : List Char :=
  "export function a() \x7b\n  class B \x7b\x7d\n\x7d function c() \x7b\n\x7d\n".toList

def exportedTree : Node :=
  .mk true "program" "" 0 54 [
    .mk true "export_statement" "" 0 36 [
      .mk false "export" "" 0 6 [],
      .mk true "function_declaration" "declaration" 7 36 [
        .mk false "function" "" 7 15 [],
        .mk true "identifier" "name" 16 17 [],
        .mk true "formal_parameters" "parameters" 17 19 [],
        .mk true "statement_block" "body" 20 36 [
          .mk true "class_declaration" "" 24 34 [
            .mk false "class" "" 24 29 [],
            .mk true "identifier" "name" 30 31 [],
            .mk true "class_body" "body" 32 34 []]]]],
    .mk true "function_declaration" "" 37 53 [
      .mk false "function" "" 37 45 [],
      .mk true "identifier" "name" 46 47 [],
      .mk true "formal_parameters" "parameters" 47 49 [],
      .mk true "statement_block" "body" 50 53 []]]

/-- The two functions share the row with the end of the first one. -/
theorem areNested_collect_exported :
    exportedTree.Throughout (Node.LiesIn exportedSource) ∧
      AreNested exportedSource (collect .javaScript exportedSource exportedTree) ∧
      (collect .javaScript exportedSource exportedTree).map
          (fun f => (f.rows exportedSource, f.scopePath)) =
        [((0, 2), "a"), ((1, 1), "a.B"), ((2, 3), "c")] := by
  have htree : exportedTree.Throughout (Node.LiesIn exportedSource) := by decide +kernel
  exact ⟨htree, areNested_collect .javaScript htree, by decide +kernel⟩

end Outline

end CodeIndex

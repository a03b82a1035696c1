import CodeIndex.Proofs.Chunk.Coverage
import CodeIndex.Proofs.Chunk.Windows
import CodeIndex.Proofs.Store.Order
import CodeIndex.Proofs.Store.Written
import Mathlib.Data.List.Nodup
/-!
# Parsed chunks in a store

A store keeps one chunk for each range of lines of a file. What lies between definitions, and each
window, has its lines for itself. Definitions can share theirs, when one stands beside the other or
in it on the same lines; of these the first one is stored, with its calls and types.
-/

namespace CodeIndex

open Text Syntax

/-! ## Chunks with the same lines -/

namespace Store

variable {cs as bs : List Chunk} {c : Chunk}

theorem firstOfRange_iff_find? :
    FirstOfRange cs c ↔ cs.find? (·.range == c.range) = some c := by
  rw [List.find?_eq_some_iff_append]
  simp [FirstOfRange]

theorem firstOfRange_of_filter (hsame : ∀ range,
    as.filter (·.range == range) = bs.filter (·.range == range)) :
    FirstOfRange as c ↔ FirstOfRange bs c := by
  rw [firstOfRange_iff_find?, firstOfRange_iff_find?, ← List.head?_filter, ← List.head?_filter,
    hsame]

theorem firstOfRange_of_nodup (hnodup : (cs.map Chunk.range).Nodup) :
    FirstOfRange cs c ↔ c ∈ cs := by
  refine ⟨firstOfRange_mem, fun hc => ?_⟩
  obtain ⟨before, after, rfl⟩ := List.append_of_mem hc
  refine ⟨before, after, rfl, fun d hd hrange => ?_⟩
  rw [List.map_append, List.nodup_append] at hnodup
  exact hnodup.2.2 d.range (List.mem_map_of_mem hd) c.range (by simp) hrange

theorem firstOfRange_append (hapart : ∀ a ∈ as, ∀ b ∈ bs, a.range ≠ b.range) :
    FirstOfRange (as ++ bs) c ↔ FirstOfRange as c ∨ FirstOfRange bs c := by
  rw [firstOfRange_iff_find?, firstOfRange_iff_find?, firstOfRange_iff_find?, List.find?_append]
  cases has : as.find? (·.range == c.range) with
  | none => simp
  | some a =>
      -- whatever has these lines in the first list, nothing in the second has them
      have hrange : a.range = c.range := by simpa using List.find?_some has
      have hbs : bs.find? (·.range == c.range) ≠ some c := fun hb =>
        hapart a (List.mem_of_find?_eq_some has) c (List.mem_of_find?_eq_some hb) hrange
      simp [hbs]

/-- One chunk is kept for each range, so all are kept only if no two have the same. -/
theorem length_firstOfRanges_eq_iff :
    (firstOfRanges cs).length = cs.length ↔ (cs.map Chunk.range).Nodup := by
  have hcard := Multiset.toFinset_card_eq_card_iff_nodup (m := Multiset.ofList (cs.map Chunk.range))
  rw [Multiset.coe_card, List.length_map, Multiset.coe_nodup] at hcard
  rw [length_firstOfRanges, ← hcard]
  rfl

end Store

open Store

theorem filter_mergeSort_range (cs : List Chunk) (range : Nat × Nat) :
    (cs.mergeSort Chunk.comesBefore).filter (·.range == range) =
      cs.filter (·.range == range) := by
  have hranked := ranked_span (fun c : Chunk => (c.startLine : Int)) fun c => (c.endLine : Int)
  have hsorted : cs.mergeSort Chunk.comesBefore = sortedBy (fun a b : Chunk =>
      decide ((a.startLine : Int) < b.startLine) ||
        ((a.startLine : Int) == b.startLine && decide ((b.endLine : Int) < a.endLine))) cs := by
    unfold sortedBy
    congr 1
    funext a b
    rw [Bool.eq_iff_iff, Chunk.comesBefore]
    simp
    omega
  rw [hsorted]
  apply hranked.filter_sortedBy
  intro a b ha hb
  rw [beq_iff_eq] at ha hb
  have hrange : a.range = b.range := ha.trans hb.symm
  obtain ⟨hstart, hend⟩ := Prod.mk.inj hrange
  simp [hstart, hend]

/-- Among the chunks only those of the definitions can share their lines. -/
structure ShareOnly (definitions cs : List Chunk) : Prop where
  shared : cs.Pairwise fun c d => c.range = d.range → c ∈ definitions ∧ d ∈ definitions
  first : ∀ c, FirstOfRange cs c ↔ FirstOfRange definitions c ∨ c ∈ cs ∧ c ∉ definitions
  nodup_iff : (cs.map Chunk.range).Nodup ↔ (definitions.map Chunk.range).Nodup

theorem ShareOnly.of_parts {definitions others cs : List Chunk}
    (hperm : cs.Perm (definitions ++ others))
    (hfilter : ∀ range, cs.filter (·.range == range) =
      (definitions ++ others).filter (·.range == range))
    (hothers : (others.map Chunk.range).Nodup)
    (hapart : ∀ c ∈ definitions, ∀ d ∈ others, c.range ≠ d.range) :
    ShareOnly definitions cs := by
  have hnot : ∀ d ∈ others, d ∉ definitions := fun d hd hmem => hapart d hmem d hd rfl
  refine ⟨?_, fun c => ?_, ?_⟩
  · have hsymm : ∀ {c d : Chunk}, (c.range = d.range → c ∈ definitions ∧ d ∈ definitions) →
        d.range = c.range → d ∈ definitions ∧ c ∈ definitions :=
      fun h heq => (h heq.symm).symm
    rw [hperm.pairwise_iff hsymm, List.pairwise_append]
    refine ⟨List.pairwise_of_forall_mem_list fun c hc d hd _ => ⟨hc, hd⟩, ?_, ?_⟩
    · exact (List.pairwise_map.1 hothers).imp fun hne heq => absurd heq hne
    · exact fun c hc d hd heq => absurd heq (hapart c hc d hd)
  · rw [firstOfRange_of_filter hfilter, firstOfRange_append hapart, firstOfRange_of_nodup hothers,
      hperm.mem_iff, List.mem_append]
    constructor
    · rintro (hc | hc)
      · exact Or.inl hc
      · exact Or.inr ⟨Or.inr hc, hnot c hc⟩
    · rintro (hc | ⟨hc | hc, hne⟩)
      · exact Or.inl hc
      · exact absurd hc hne
      · exact Or.inr hc
  · rw [(hperm.map Chunk.range).nodup_iff, List.map_append, List.nodup_append]
    refine ⟨fun h => h.1, fun h => ⟨h, hothers, ?_⟩⟩
    intro range hrange range' hrange'
    obtain ⟨c, hc, rfl⟩ := List.mem_map.1 hrange
    obtain ⟨d, hd, rfl⟩ := List.mem_map.1 hrange'
    exact hapart c hc d hd

/-! ## The chunks of a file -/

namespace ParsedFile

variable {limits : ChunkLimits} {l : Language} {text : String} {root : Node}

/-- The rows of the definitions that become chunks, in pre-order. -/
def definitionRows (limits : ChunkLimits) (l : Language) (text : String) (root : Node) :
    List (Nat × Nat) :=
  ((Outline.collect l text.toList root).take limits.maxChunks).map (·.rows text.toList)

/-- The chunks of these definitions. -/
def definitionChunks (limits : ChunkLimits) (l : Language) (text : String) (root : Node) :
    List Chunk :=
  (structuralChunks limits l text root).take limits.maxChunks

theorem map_rows_assign (l : Language) (root : Node) (founds : List Found) (source : List Char) :
    (Outline.assign l source root founds).founds.map (·.rows source) =
      founds.map (·.rows source) := by
  have hrows : ∀ fs : List Found, fs.map (·.rows source) =
      (fs.map (·.place)).map fun p => (Header.span p).node.rows source := by
    intro fs
    rw [List.map_map]
    rfl
  rw [hrows, hrows, Outline.map_place_assign]

theorem map_range_definitionChunks :
    (definitionChunks limits l text root).map Chunk.range =
      (definitionRows limits l text root).map fun r => (r.1 + 1, r.2 + 1) := by
  unfold definitionChunks definitionRows structuralChunks
  dsimp only
  rw [List.map_take, List.map_map, List.map_take, List.map_take, ← map_rows_assign l root,
    List.map_map]
  rfl

theorem nodup_definitionChunks_iff :
    ((definitionChunks limits l text root).map Chunk.range).Nodup ↔
      (definitionRows limits l text root).Nodup := by
  rw [map_range_definitionChunks, List.nodup_map_iff]
  rintro ⟨a, b⟩ ⟨c, d⟩ heq
  simpa using heq

theorem covers_ofTree (limits : ChunkLimits) (l : Language) (text : String) (root : Node) :
    Covers limits (linesOf text) (structuralChunks limits l text root)
      (betweenChunks limits l text root) :=
  covers_moduleChunks limits

theorem holds_of_range {c d : Chunk} (hc : c.startLine ≤ c.endLine) (hrange : c.range = d.range) :
    c.Holds c.startLine ∧ d.Holds c.startLine := by
  obtain ⟨hstart, hend⟩ := Prod.mk.inj hrange
  unfold Chunk.Holds
  omega

theorem nodup_betweenChunks :
    ((betweenChunks limits l text root).map Chunk.range).Nodup := by
  have hcovers := covers_ofTree limits l text root
  rw [List.Nodup, List.pairwise_map]
  refine hcovers.apart.imp_of_mem fun {c d} hc _ hcd hrange => ?_
  exact hcd c.startLine (holds_of_range (hcovers.ends c hc).2.1 hrange)

theorem range_ne_of_between {c d : Chunk} (hc : c ∈ structuralChunks limits l text root)
    (hd : d ∈ betweenChunks limits l text root) : c.range ≠ d.range := by
  intro hrange
  have hcovers := covers_ofTree limits l text root
  exact hcovers.outside d hd c hc d.startLine (holds_of_range (hcovers.ends d hd).2.1 hrange.symm)

theorem pairwise_windowChunks (limits : ChunkLimits) (text : String) :
    (windowChunks limits text).Pairwise fun a b => a.startLine < b.startLine := by
  cases hink : isBlankString text with
  | true =>
      rw [windowChunks_of_blank limits hink]
      exact List.Pairwise.nil
  | false =>
      exact (windowLoop_windowChunks limits hink).pairwise.imp And.left

theorem shareOnly_ofTree :
    ShareOnly (definitionChunks limits l text root) (ofTree limits l text root).chunks := by
  by_cases hfound : Outline.collect l text.toList root = []
  · have hnone : definitionChunks limits l text root = [] := by
      rw [← List.map_eq_nil_iff (f := Chunk.range), map_range_definitionChunks, definitionRows,
        hfound, List.take_nil]
      rfl
    rw [chunks_ofTree_of_nil hfound, hnone]
    have hparts : (windowChunks limits text).Perm ([] ++ windowChunks limits text) := .refl _
    refine .of_parts hparts (fun _ => rfl) ?_
      (fun c hc => absurd hc List.not_mem_nil)
    rw [List.Nodup, List.pairwise_map]
    refine (pairwise_windowChunks limits text).imp fun hlt hrange => ?_
    exact absurd (Prod.mk.inj hrange).1 (Nat.ne_of_lt hlt)
  · rw [chunks_ofTree hfound]
    refine .of_parts (List.mergeSort_perm _ _) (filter_mergeSort_range _) ?_ fun c hc d hd => ?_
    · exact nodup_betweenChunks.sublist ((List.take_sublist _ _).map _)
    · exact range_ne_of_between (List.mem_of_mem_take hc) (List.mem_of_mem_take hd)

end ParsedFile

/-! ## Written -/

namespace Store

/-- Of the chunks that were written, the first of each range is in the store, with its calls and
types, and the count says how many these are. -/
structure StoresFirst (s : Store) (path : String) (id count : Nat) (cs : List Chunk) : Prop where
  chunks : ∃ kept : List Chunk, (∀ c, c ∈ kept ↔ FirstOfRange cs c) ∧
    (kept.map Chunk.range).Nodup ∧ count = kept.length ∧
    List.Forall₂ (fun (r : ChunkRecord) c => r.row = ChunkRow.ofChunk id c ∧
      s.callsOf r.id = c.calls ∧ s.typesOf r.id = c.typeRefs) (s.chunksIn path) kept
  all : count = cs.length ↔ (cs.map Chunk.range).Nodup

theorem Sound.storesFirst_writeIndex {s : Store} (h : s.Sound) (now : Instant) (f : FileFacts)
    (cs : List Chunk) (is : List Import) :
    StoresFirst (s.writeIndex now f cs is).1 f.path (s.writeIndex now f cs is).2.1
      (s.writeIndex now f cs is).2.2 cs where
  chunks := by
    refine ⟨firstOfRanges cs, fun _ => mem_firstOfRanges, nodup_firstOfRanges cs, rfl, ?_⟩
    have hkept := Table.map_snd_numbered (s.chunks.last + 1) (firstOfRanges cs)
    rw [h.chunksIn_writeIndex, List.forall₂_map_left_iff]
    conv => arg 3; rw [← hkept]
    rw [List.forall₂_map_right_iff, List.forall₂_same]
    intro r hr
    exact ⟨rfl, h.namesOf_writeIndex now f cs is hr⟩
  all := length_firstOfRanges_eq_iff

end Store

/-- Whatever tree a grammar gives: parsed chunks are written to the store but for definitions that
have the same rows as one before them in the tree, so that nothing is lost exactly when all
definitions that become chunks have rows of their own. -/
theorem parse_stored {grammar : Grammar} {limits : ChunkLimits} {language text : String}
    {l : Language} {root : Node} (hl : Language.ofName? language = some l)
    (hroot : grammar language text = some root) (ops : List Operation) (now : Instant)
    (f : FileFacts) (is : List Import) :
    let cs := (parse grammar limits language text).chunks
    let written := (history ops).writeIndex now f cs is
    StoresFirst written.1 f.path written.2.1 written.2.2 cs ∧
      (isBlankString text = true → cs = []) ∧
      (isBlankString text = false →
        ShareOnly (ParsedFile.definitionChunks limits l text root) cs ∧
          (written.2.2 = cs.length ↔ (ParsedFile.definitionRows limits l text root).Nodup)) := by
  intro cs written
  have hstored := (sound_history ops).storesFirst_writeIndex now f cs is
  refine ⟨hstored, parse_of_blank grammar limits language, fun hink => ?_⟩
  have hshare : ShareOnly (ParsedFile.definitionChunks limits l text root) cs := by
    change ShareOnly _ (parse grammar limits language text).chunks
    rw [parse_of_tree hink hl hroot]
    exact ParsedFile.shareOnly_ofTree
  refine ⟨hshare, hstored.all.trans (hshare.nodup_iff.trans ?_)⟩
  exact ParsedFile.nodup_definitionChunks_iff

/-- The definition and the statements after it have lines of their own. -/
theorem parse_stored_sample :
    let grammar : Grammar := fun _ _ => some ParsedFile.sampleTree
    let cs := (parse grammar ParsedFile.sampleLimits "python" ParsedFile.sampleText).chunks
    let f : FileFacts := ⟨"a.py", "h", ⟨0, 0⟩, "python", 7⟩
    let written := (history []).writeIndex ⟨1, 0⟩ f cs []
    StoresFirst written.1 "a.py" written.2.1 written.2.2 cs ∧ written.2.2 = cs.length := by
  intro grammar cs f written
  have hl : Language.ofName? "python" = some .python := rfl
  have hroot : grammar "python" ParsedFile.sampleText = some ParsedFile.sampleTree := rfl
  obtain ⟨hstored, -, hall⟩ :=
    @parse_stored grammar ParsedFile.sampleLimits _ _ _ _ hl hroot [] ⟨1, 0⟩ f []
  exact ⟨hstored, (hall (by decide +kernel)).2.2 (by decide +kernel)⟩

/-- Two functions on one line. -/
def twoOnOneLine : Node :=
  .mk true "source_file" "" 0 20 [
    .mk true "function_item" "" 0 9 [
      .mk false "fn" "" 0 2 [], .mk true "identifier" "name" 3 4 [],
      .mk true "parameters" "parameters" 4 6 [], .mk true "block" "body" 7 9 []],
    .mk true "function_item" "" 10 19 [
      .mk false "fn" "" 10 12 [], .mk true "identifier" "name" 13 14 [],
      .mk true "parameters" "parameters" 14 16 [], .mk true "block" "body" 17 19 []]]

/-- Both have the same lines, and one of them is not stored. -/
theorem parse_stored_one_of_two :
    let grammar : Grammar := fun _ _ => some twoOnOneLine
    let cs := (parse grammar {} "rust" "fn a() {} fn b() {}\n").chunks
    let f : FileFacts := ⟨"a.rs", "h", ⟨0, 0⟩, "rust", 1⟩
    cs.map Chunk.range = [(1, 1), (1, 1)] ∧
      ((history []).writeIndex ⟨1, 0⟩ f cs []).2.2 = 1 := by
  intro grammar cs f
  have hink : isBlankString "fn a() {} fn b() {}\n" = false := by decide +kernel
  have hparse : cs = (ParsedFile.ofTree {} .rust "fn a() {} fn b() {}\n" twoOnOneLine).chunks :=
    congrArg ParsedFile.chunks (parse_of_tree hink rfl rfl)
  have hfound : Outline.collect .rust "fn a() {} fn b() {}\n".toList twoOnOneLine ≠ [] :=
    List.isEmpty_eq_false_iff.1 (by decide +kernel)
  have hcap : (ParsedFile.structuralChunks {} .rust "fn a() {} fn b() {}\n" twoOnOneLine).length +
      (ParsedFile.betweenChunks {} .rust "fn a() {} fn b() {}\n" twoOnOneLine).length ≤
        ({} : ChunkLimits).maxChunks := by
    decide +kernel
  have hperm := ParsedFile.perm_chunks_ofTree hfound hcap
  rw [← hparse] at hperm
  have hranges : (cs.map Chunk.range).Perm [(1, 1), (1, 1)] := by
    refine (hperm.map Chunk.range).trans ?_
    decide +kernel
  have hsame : cs.map Chunk.range = [(1, 1), (1, 1)] :=
    List.perm_replicate.1 (show (cs.map Chunk.range).Perm (List.replicate 2 (1, 1)) from hranges)
  refine ⟨hsame, ?_⟩
  change (firstOfRanges cs).length = 1
  rw [length_firstOfRanges, hsame]
  rfl

end CodeIndex

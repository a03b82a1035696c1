import CodeIndex.Proofs.Store.History
import CodeIndex.Proofs.Store.Order
import CodeIndex.Proofs.Store.Records
import CodeIndex.Store.Relations
import Mathlib.Data.List.TakeWhile
/-!
# Looking up names

A chunk calls a name when one of its callees is the name or a dotted path that ends with it. What
an import brings in is told in the same way. The type of a name is the first of its definitions
that defines a type.
-/

namespace CodeIndex.Store

open Text

/-! ## The end of a text -/

theorem visible_of_not_mem {text : List Char} (h : '\x00' ∉ text) : visible text = text := by
  unfold visible
  rw [List.takeWhile_eq_self_iff]
  intro c hc
  rw [bne_iff_ne]
  rintro rfl
  exact h hc

/-- The text, up to its first NUL character, ends with the separator and the name. -/
def EndsWith (separator name text : String) : Prop :=
  separator.toList ++ name.toList <:+ visible text.toList

theorem endsWithPart_iff {separator name text : List Char} (hname : '\x00' ∉ name) :
    endsWithPart separator name text = true ↔ separator ++ name <:+ visible text := by
  unfold endsWithPart lastVisible
  rw [visible_of_not_mem hname, beq_iff_eq, List.suffix_iff_eq_drop, List.length_append,
    Nat.add_comm, eq_comm]

theorem callNames_iff {name callee : String} (hname : '\x00' ∉ name.toList) :
    callNames name callee = true ↔ callee = name ∨ EndsWith "." name callee := by
  unfold callNames
  rw [Bool.or_eq_true, beq_iff_eq, Bool.and_eq_true, decide_eq_true_eq, endsWithPart_iff hname,
    visible_of_not_mem hname]
  -- a text that ends with a dot and the name is longer than the name
  have hlonger : EndsWith "." name callee →
      name.toList.length < (visible callee.toList).length := by
    intro hends
    have hle := hends.length_le
    rw [List.length_append] at hle
    exact Nat.lt_of_lt_of_le (Nat.lt_add_of_pos_left Nat.one_pos) hle
  constructor
  · rintro (heq | ⟨-, hends⟩)
    · exact Or.inl heq
    · exact Or.inr hends
  · rintro (heq | hends)
    · exact Or.inl heq
    · exact Or.inr ⟨hlonger hends, hends⟩

theorem importNames_iff {name : String} {i : Import} (hname : '\x00' ∉ name.toList) :
    importNames name i = true ↔ i.symbol = name ∨ i.source = name ∨
      EndsWith "/" name i.source ∨ EndsWith "." name i.source ∨ EndsWith "::" name i.source := by
  unfold importNames EndsWith
  simp only [Bool.or_eq_true, beq_iff_eq, endsWithPart_iff hname, or_assoc]
  rfl

/-! ## Chunks and imports by name -/

variable {s : Store}

theorem mem_calleesOf {chunkId : Nat} {callee : String} :
    callee ∈ s.calleesOf chunkId ↔ ∃ r ∈ s.calls.rows, r.2 = ⟨chunkId, callee⟩ := by
  unfold calleesOf
  rw [distinct_eq_eraseDups, List.mem_eraseDups, List.mem_map]
  constructor
  · rintro ⟨r, hr, rfl⟩
    obtain ⟨hrow, hid⟩ := List.mem_filter.1 hr
    rw [beq_iff_eq] at hid
    exact ⟨r, hrow, by rw [← hid]⟩
  · rintro ⟨r, hrow, heq⟩
    refine ⟨r, List.mem_filter.2 ⟨hrow, ?_⟩, ?_⟩ <;> simp [heq]

/-- A caller is a stored chunk with a callee that names it. -/
theorem Sound.mem_callersOf (h : s.Sound) {name : String} {c : ChunkRecord} :
    c ∈ s.callersOf name ↔
      s.chunk? c.id = some c ∧ ∃ callee ∈ s.calleesOf c.id, callNames name callee = true := by
  have hcalls : ((s.calls.rows.filter fun r => callNames name r.2.callee).map
      (·.2.chunkId)).contains c.id = true ↔
        ∃ callee ∈ s.calleesOf c.id, callNames name callee = true := by
    rw [List.contains_iff_mem, List.mem_map]
    constructor
    · rintro ⟨r, hr, hid⟩
      obtain ⟨hrow, hnames⟩ := List.mem_filter.1 hr
      exact ⟨r.2.callee, mem_calleesOf.2 ⟨r, hrow, by rw [← hid]⟩, hnames⟩
    · rintro ⟨callee, hcallee, hnames⟩
      obtain ⟨r, hrow, heq⟩ := mem_calleesOf.1 hcallee
      refine ⟨r, List.mem_filter.2 ⟨hrow, ?_⟩, ?_⟩
      · rw [heq]
        exact hnames
      · rw [heq]
  unfold callersOf byPlace
  rw [mem_sortedBy, mem_chunkRecords, h.chunk?_eq_some_iff, hcalls]
  tauto

theorem Sound.nodup_callersOf (h : s.Sound) (name : String) :
    ((s.callersOf name).map (·.id)).Nodup :=
  ((sortedBy_perm _ _).map _).nodup_iff.2 (h.nodup_chunkRecords _)

theorem mem_importRecords {p : ImportRow → Bool} {i : ImportRecord} :
    i ∈ s.importRecords p ↔ (i.id, i.row) ∈ s.imports.rows ∧ p i.row = true ∧
      s.files.get? i.row.fileId = some i.file := by
  unfold importRecords
  rw [List.mem_filterMap]
  constructor
  · rintro ⟨r, hr, hrecord⟩
    obtain ⟨hrow, hp⟩ := List.mem_filter.1 hr
    obtain ⟨f, hf, rfl⟩ := Option.map_eq_some_iff.1 hrecord
    exact ⟨hrow, hp, hf⟩
  · rintro ⟨hrow, hp, hf⟩
    refine ⟨(i.id, i.row), List.mem_filter.2 ⟨hrow, hp⟩, ?_⟩
    rw [hf]
    rfl

/-- The imports that bring in a name are read with their files. -/
theorem Sound.mem_importersOf (h : s.Sound) {name : String} {r : Nat × ImportRow} :
    r ∈ (s.importersOf name).map (fun i => (i.id, i.row)) ↔
      r ∈ s.imports.rows ∧ importNames name r.2.fact = true := by
  rw [List.mem_map]
  constructor
  · rintro ⟨i, hi, rfl⟩
    unfold importersOf at hi
    rw [mem_sortedBy, mem_importRecords] at hi
    exact ⟨hi.1, hi.2.1⟩
  · rintro ⟨hrow, hnames⟩
    obtain ⟨f, hf⟩ := Table.has_iff.1 (h.importFiles r hrow)
    have hfile := h.files.get?_eq_some_iff.2 hf
    refine ⟨⟨r.1, r.2, f⟩, ?_, rfl⟩
    unfold importersOf
    rw [mem_sortedBy, mem_importRecords]
    exact ⟨hrow, hnames, hfile⟩

/-! ## The definition of a type -/

/-- The kinds of chunks that define a type. -/
def typeKinds : List ChunkKind :=
  [.classDef, .structDef, .enumDef, .interfaceDef, .traitDef, .typeAlias]

theorem definesType_eq (k : ChunkKind) : k.definesType = typeKinds.contains k := by
  cases k <;> rfl

/-- Looking only at the chunks that define types finds the same as looking at all of the name. -/
theorem Sound.typeDefinition?_eq (h : s.Sound) (name : String) :
    s.typeDefinition? name = (s.named name).find? fun c => typeKinds.contains c.row.kind := by
  have hranked := ranked_textThenInt (fun c : ChunkRecord => c.path) (fun c => c.row.first)
  have hfilter := hranked.filter_sortedBy_comm (fun _ _ hlt hgt => Nat.lt_asymm hlt hgt)
    (h.ascending_chunkRecords fun _ c => c.name == some name)
    (fun c => typeKinds.contains c.row.kind)
  have hrecords := s.filter_chunkRecords (fun _ c => c.name == some name)
    (fun _ c => typeKinds.contains c.kind)
  unfold typeDefinition? named byPlace
  simp only [definesType_eq]
  rw [← List.head?_filter, hfilter, hrecords]

/-! ## Every history -/

/-- In every store that writes lead to, for every name without NUL characters. The callers of the
name are the chunks with a callee that is the name or ends with a dot and the name, each once. Its
importers are the imports whose symbol or source it is, or whose source ends with a separator and
the name. Its type is the first chunk of the name that defines a type. -/
theorem lookups_by_name (ops : List Operation) {name : String} (hname : '\x00' ∉ name.toList) :
    (∀ c, c ∈ (history ops).callersOf name ↔ (history ops).chunk? c.id = some c ∧
      ∃ callee ∈ (history ops).calleesOf c.id, callee = name ∨ EndsWith "." name callee) ∧
    (((history ops).callersOf name).map (·.id)).Nodup ∧
    (∀ r, r ∈ ((history ops).importersOf name).map (fun i => (i.id, i.row)) ↔
      r ∈ (history ops).imports.rows ∧ (r.2.fact.symbol = name ∨ r.2.fact.source = name ∨
        EndsWith "/" name r.2.fact.source ∨ EndsWith "." name r.2.fact.source ∨
        EndsWith "::" name r.2.fact.source)) ∧
    (history ops).typeDefinition? name =
      ((history ops).named name).find? fun c => typeKinds.contains c.row.kind := by
  have hsound := sound_history ops
  refine ⟨fun c => ?_, hsound.nodup_callersOf name, fun r => ?_, hsound.typeDefinition?_eq name⟩
  · rw [hsound.mem_callersOf]
    simp only [callNames_iff hname]
  · rw [hsound.mem_importersOf, importNames_iff hname]

/-- A callee that ends with the name, and an import of it from a dotted source. -/
theorem lookups_by_name_dotted :
    let facts : FileFacts := ⟨"a.py", "h", ⟨0, 0⟩, "python", 2⟩
    let c : Chunk := ⟨.classDef, some "foo", "", none, 1, 2, "", "", ["self.foo"], []⟩
    let s := history [.writeIndex ⟨0, 0⟩ facts [c] [⟨"x", "lib.foo", 1⟩]]
    (∀ c, c ∈ s.callersOf "foo" ↔ s.chunk? c.id = some c ∧
      ∃ callee ∈ s.calleesOf c.id, callee = "foo" ∨ EndsWith "." "foo" callee) ∧
    ((s.callersOf "foo").map (·.id)).Nodup ∧
    (∀ r, r ∈ (s.importersOf "foo").map (fun i => (i.id, i.row)) ↔
      r ∈ s.imports.rows ∧ (r.2.fact.symbol = "foo" ∨ r.2.fact.source = "foo" ∨
        EndsWith "/" "foo" r.2.fact.source ∨ EndsWith "." "foo" r.2.fact.source ∨
        EndsWith "::" "foo" r.2.fact.source)) ∧
    s.typeDefinition? "foo" = (s.named "foo").find? fun c => typeKinds.contains c.row.kind := by
  intro facts c s
  exact lookups_by_name [.writeIndex ⟨0, 0⟩ facts [c] [⟨"x", "lib.foo", 1⟩]] (by decide)

-- a NUL character in a callee hides what follows it
/-- A chunk that calls `x.foo` and more is found under `foo`, one that calls `.foo` after a NUL
character is not. -/
theorem callers_beside_nul :
    let facts : FileFacts := ⟨"a.py", "h", ⟨0, 0⟩, "python", 4⟩
    let first : Chunk := ⟨.function, some "f", "", none, 1, 2, "", "", ["x.foo\x00bar"], []⟩
    let second : Chunk := ⟨.function, some "g", "", none, 3, 4, "", "", ["a\x00.foo"], []⟩
    let s := history [.writeIndex ⟨0, 0⟩ facts [first, second] []]
    '\x00' ∉ "foo".toList ∧
    s.calleesOf 1 = ["x.foo\x00bar"] ∧ s.calleesOf 2 = ["a\x00.foo"] ∧
    "x.foo\x00bar" ≠ "foo" ∧ ¬ ".foo".toList <:+ "x.foo\x00bar".toList ∧
    ".foo".toList <:+ "a\x00.foo".toList ∧
    (s.callersOf "foo").map (·.id) = [1] := by
  intro facts first second s
  have hone : (s.chunkRecords fun id _ => ((s.calls.rows.filter fun r =>
      callNames "foo" r.2.callee).map (·.2.chunkId)).contains id).map (·.id) = [1] := by
    decide +kernel
  have hcallers : (s.callersOf "foo").map (·.id) = [1] :=
    List.perm_singleton.1 (hone ▸ (sortedBy_perm _ _).map _)
  exact ⟨by decide, by decide +kernel, by decide +kernel, by decide, by decide, by decide, hcallers⟩

end CodeIndex.Store

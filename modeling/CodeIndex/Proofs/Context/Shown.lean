import CodeIndex.Proofs.Context.Build
import CodeIndex.Proofs.Ranking.Best
/-!
# Chunks are shown once

The definitions and the related code are chosen with one list of the ids that are shown already, and
the imported symbols are looked up after both. What the window around the cursor shows is shown
nowhere else.
-/

namespace CodeIndex

open Text

namespace ContextSource

/-! ## Chunks that are not shown yet -/

theorem mem_of_mem_unseen {seen : List Nat} {cs : List ChunkRecord} {c : ChunkRecord}
    (h : c ∈ unseen seen cs) : c ∈ cs ∧ c.id ∉ seen := by
  induction cs generalizing seen with
  | nil => cases h
  | cons d cs ih =>
      rw [unseen] at h
      split at h
      · obtain ⟨hmem, hnew⟩ := ih h
        exact ⟨List.mem_cons_of_mem d hmem, hnew⟩
      · next hd =>
        rcases List.mem_cons.1 h with rfl | hrest
        · exact ⟨List.mem_cons_self, by simpa using hd⟩
        · obtain ⟨hmem, hnew⟩ := ih hrest
          exact ⟨List.mem_cons_of_mem d hmem, fun hseen => hnew (List.mem_cons_of_mem d.id hseen)⟩

theorem nodup_unseen (seen : List Nat) (cs : List ChunkRecord) :
    ((unseen seen cs).map (·.id)).Nodup := by
  induction cs generalizing seen with
  | nil => exact List.nodup_nil
  | cons d cs ih =>
      rw [unseen]
      split
      · exact ih seen
      · rw [List.map_cons, List.nodup_cons]
        refine ⟨fun hd => ?_, ih (d.id :: seen)⟩
        obtain ⟨c, hc, hid⟩ := List.mem_map.1 hd
        exact (mem_of_mem_unseen hc).2 (hid ▸ List.mem_cons_self)

/-- Two sections of which the second knows the first have no chunk twice. -/
theorem nodup_unseen_append (first : List ChunkRecord) (hfirst : (first.map (·.id)).Nodup)
    (cs : List ChunkRecord) :
    ((first ++ unseen (first.map (·.id)) cs).map (·.id)).Nodup := by
  rw [List.map_append, List.nodup_append]
  refine ⟨hfirst, nodup_unseen _ cs, ?_⟩
  rintro id hid id' hid' rfl
  obtain ⟨c, hc, rfl⟩ := List.mem_map.1 hid'
  exact (mem_of_mem_unseen hc).2 hid

/-! ## The window -/

variable {src : ContextSource} {req : ContextRequest}

theorem path_of_window? {w : CursorWindow} (hw : src.window? req = some w) :
    req.currentFile = some w.path := by
  obtain ⟨path, hpath, htext⟩ := Option.bind_eq_some_iff.1 hw
  obtain ⟨text, -, hlines⟩ := Option.bind_eq_some_iff.1 htext
  unfold CursorWindow.ofLines at hlines
  split at hlines
  · cases hlines
  · cases hlines
    exact hpath

theorem isCovered_eq_false_iff {window : Option CursorWindow} {c : ChunkRecord} :
    isCovered window c = false ↔ ∀ w, window = some w →
      ¬ (c.path = w.path ∧ w.first ≤ c.row.startLine ∧ c.row.endLine ≤ w.last) := by
  cases window with
  | none => simp [isCovered]
  | some w => simp [isCovered, CursorWindow.covers]

/-! ## The sections -/

theorem mem_definitions {window : Option CursorWindow} {c : ChunkRecord}
    (hc : c ∈ src.definitions req window) :
    (∃ name, c ∈ src.store.named name) ∧ isCovered window c = false := by
  obtain ⟨hfound, hshown⟩ := List.mem_filter.1 (mem_of_mem_unseen hc).1
  obtain ⟨name, -, htaken⟩ := List.mem_flatMap.1 hfound
  rw [Bool.and_eq_true, Bool.not_eq_true'] at hshown
  exact ⟨⟨name, List.mem_of_mem_take htaken⟩, hshown.1⟩

theorem mem_related {window : Option CursorWindow} {seen : List Nat} {c : ChunkRecord}
    (hc : c ∈ src.related req window seen) :
    (∃ r ∈ Ranking.rank src.store req.question src.searchLimit req.currentFile src.weights src.now,
      r.chunk = c) ∧ isCovered window c = false := by
  obtain ⟨hranked, hshown⟩ := List.mem_filter.1 (mem_of_mem_unseen hc).1
  rw [Bool.not_eq_true'] at hshown
  exact ⟨List.mem_map.1 hranked, hshown⟩

/-- An imported symbol stands for a chunk of its name in another file. -/
theorem mem_imported {seen : List Nat} {symbol : String} {c : ChunkRecord}
    (hc : (symbol, c) ∈ src.imported req seen) :
    c ∈ src.store.named symbol ∧ req.currentFile ≠ some c.path ∧ c.id ∉ seen := by
  unfold imported at hc
  split at hc
  · cases hc
  · next path hpath =>
    obtain ⟨n, -, htarget⟩ := List.mem_filterMap.1 hc
    obtain ⟨target, hfind, heq⟩ := Option.map_eq_some_iff.1 htarget
    cases heq
    have hchosen := List.find?_some hfind
    rw [Bool.and_eq_true, bne_iff_ne] at hchosen
    refine ⟨List.mem_of_find?_eq_some hfind, ?_, by simpa using hchosen.2⟩
    rw [hpath]
    exact fun hsame => hchosen.1 (Option.some.inj hsame).symm

/-- Different symbols stand for different chunks. -/
theorem nodup_imported (hsound : src.store.Sound) (seen : List Nat) :
    ((src.imported req seen).map (·.2.id)).Nodup := by
  unfold imported
  split
  · exact List.nodup_nil
  · next path _ =>
    dsimp only
    generalize hsymbols :
      distinct (((src.store.importsOf path).map (·.row.fact.symbol)).filter (· != "*")) = symbols
    have hnodup : symbols.Nodup := hsymbols ▸ nodup_distinct _
    have hall := Ranking.nodup_flatMap_named hsound hnodup
    have hids :
        (symbols.filterMap fun n => (src.importTarget? path seen n).map (n, ·)).map (·.2.id) =
          (symbols.flatMap fun n => (src.importTarget? path seen n).toList).map (·.id) := by
      rw [List.map_filterMap, ← List.filterMap_eq_flatMap_toList, List.map_filterMap]
      simp only [Option.map_map, Function.comp_def]
    rw [hids]
    refine hall.sublist (List.Sublist.map _ (List.Sublist.flatMap_right symbols fun n _ => ?_))
    cases htarget : src.importTarget? path seen n with
    | none => exact List.nil_sublist _
    | some c => exact List.singleton_sublist.2 (List.mem_of_find?_eq_some htarget)

end ContextSource

namespace Context

open ContextSource

/-- A context of any store and project. Each section stands in it at most once; of the chunks of
the store, the definitions and the related code show none twice and none that lies within the
window of the current file, and the imported symbols name each chunk once, always one of another
file that neither of the two shows. -/
theorem build_shows_once (ops : List Store.Operation) (project : ContextSource) (shares : Shares)
    (req : ContextRequest) :
    let src := { project with store := Store.history ops }
    let sections := (build src shares req).sections
    let definitions := src.definitions req (src.window? req)
    let related := src.related req (src.window? req) (definitions.map (·.id))
    let shown := definitions ++ related
    let imported := src.imported req (shown.map (·.id))
    (sections.map (·.kind)).Nodup ∧
    (∀ s ∈ sections,
      (s.kind = .definitions → s = Section.ofItems shares req.budget .definitions
        (definitions.map renderChunk)) ∧
      (s.kind = .fullText → s = Section.ofItems shares req.budget .fullText
        (related.map renderChunk)) ∧
      (s.kind = .imports → s = Section.ofItems shares req.budget .imports
        (imported.map fun (symbol, c) => renderLine symbol c))) ∧
    (∀ c ∈ shown, src.store.chunk? c.id = some c) ∧
    (shown.map (·.id)).Nodup ∧
    (∀ c ∈ shown, ∀ w, src.window? req = some w → req.currentFile = some w.path ∧
      ¬ (c.path = w.path ∧ w.first ≤ c.row.startLine ∧ c.row.endLine ≤ w.last)) ∧
    (∀ symbol c, (symbol, c) ∈ imported → src.store.chunk? c.id = some c ∧
      c.row.name = some symbol ∧ req.currentFile ≠ some c.path ∧ c.id ∉ shown.map (·.id)) ∧
    (imported.map (·.2.id)).Nodup := by
  intro src sections definitions related shown imported
  have hsound : src.store.Sound := Store.sound_history ops
  have hkinds : (sections.map (·.kind)).Nodup := by
    rw [kinds_build]
    exact List.Nodup.filter _ (by decide)
  -- the ids that the imports must avoid are those of both sections
  have hids : definitions.map (·.id) ++ related.map (·.id) = shown.map (·.id) :=
    List.map_append.symm
  have himports : src.itemsOf req .imports =
      imported.map fun (symbol, c) => renderLine symbol c := by
    change (src.imported req (definitions.map (·.id) ++ related.map (·.id))).map _ = _
    rw [hids]
  have hshown : ∀ c ∈ shown, src.store.chunk? c.id = some c ∧
      isCovered (src.window? req) c = false := by
    intro c hc
    rcases List.mem_append.1 hc with hdefinition | hrelated
    · obtain ⟨⟨name, hname⟩, hcovered⟩ := mem_definitions hdefinition
      exact ⟨hsound.chunk?_of_mem_named hname, hcovered⟩
    · obtain ⟨⟨r, hr, rfl⟩, hcovered⟩ := mem_related hrelated
      exact ⟨Ranking.chunk?_of_mem_rank hsound hr, hcovered⟩
  refine ⟨hkinds, fun s hs => ?_, fun c hc => (hshown c hc).1,
    nodup_unseen_append definitions (nodup_unseen [] _) _, fun c hc w hw => ?_,
    fun symbol c hc => ?_, nodup_imported hsound _⟩
  · have hitems := mem_build hs
    refine ⟨fun hkind => ?_, fun hkind => ?_, fun hkind => ?_⟩
    · rw [hkind] at hitems
      exact hitems
    · rw [hkind] at hitems
      exact hitems
    · rw [hkind, himports] at hitems
      exact hitems
  · exact ⟨path_of_window? hw, isCovered_eq_false_iff.1 (hshown c hc).2 w hw⟩
  · obtain ⟨hnamed, hfile, hnew⟩ := mem_imported hc
    exact ⟨hsound.chunk?_of_mem_named hnamed, (Store.mem_named.1 hnamed).2.1, hfile, hnew⟩

end Context

end CodeIndex

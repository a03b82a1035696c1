import CodeIndex.Config.Text
import Mathlib.Data.List.Nodup
/-!
# Settings of which some are given

Of a record, the fields that are given are kept, also within weights and shares, and the defaults
stand for the others.
-/

namespace CodeIndex.Config

/-! ## Fields -/

/-- The record has no field of that name, or a single one, whose value stands for that of the
setting. -/
inductive Field {α : Type} (means : Json → α → Prop) (fields : List (String × Json))
    (name : String) : Option α → Prop where
  | absent (h : ∀ f ∈ fields, f.1 ≠ name) : Field means fields name none
  | once {j : Json} {a : α} (h : fields.filter (·.1 == name) = [(name, j)]) (hj : means j a) :
      Field means fields name (some a)

/-- The value of the only field of that name. -/
def only (fields : List (String × Json)) (name : String) : Option (Option Json) :=
  match fields.filter (·.1 == name) with
  | [] => some none
  | [(_, j)] => some (some j)
  | _ => none

theorem fieldsOf_record (names : List String) (fields : List (String × Json)) :
    fieldsOf names (.record fields) = names.mapM (only fields) :=
  rfl

/-- What a field means is what is read of it, and an absent one leaves the default. -/
theorem Field.read {α β : Type} {means : Json → α → Prop} {fields : List (String × Json)}
    {name : String} {v : Option α} (h : Field means fields name v) {read : Json → Option β}
    {f : α → β} (hread : ∀ j a, means j a → read j = some (f a)) :
    ∃ o, only fields name = some o ∧ ∀ dflt, given read dflt o = some ((v.map f).getD dflt) := by
  cases h with
  | absent h =>
      have hnone : fields.filter (·.1 == name) = [] := by
        rw [List.filter_eq_nil_iff]
        intro f hf
        simpa using h f hf
      refine ⟨none, ?_, fun _ => rfl⟩
      unfold only
      rw [hnone]
  | once h hj =>
      refine ⟨some _, ?_, fun _ => hread _ _ hj⟩
      unfold only
      rw [h]

/-! ## Values -/

def IsTexts (j : Json) (ss : List String) : Prop :=
  j = .texts ss

/-- A whole number up to `max`. -/
def IsUpTo (max : Nat) (j : Json) (n : Nat) : Prop :=
  j = .nat n ∧ n ≤ max

/-- A number with or without a point. -/
def IsNumber (j : Json) (x : Float) : Prop :=
  j = .float x ∨ ∃ n : Int, j = .int n ∧ x = Float.ofInt n

def IsOptionalText (j : Json) (s : Option String) : Prop :=
  j = Json.ofOption .text s

def textRecord (written : List (String × String)) : Json :=
  .record (written.map fun p => (p.1, .text p.2))

/-- A record of texts as a list in the order of its keys; of a repeated key the last value
counts. -/
def IsTextMap (j : Json) (pairs : List (String × String)) : Prop :=
  pairs.Pairwise (·.1 < ·.1) ∧
    (∃ written, j = textRecord written) ∧
    ∀ k v, (k, v) ∈ pairs ↔ j.field? k = some (.text v)

theorem texts?_of_isTexts {j : Json} {ss : List String} (h : IsTexts j ss) :
    j.texts? = some ss := by
  subst h
  have hall : (ss.map Json.text).mapM Json.text? = some ss := by
    induction ss with
    | nil => rfl
    | cons s ss ih =>
        rw [List.map_cons, List.mapM_cons, ih]
        rfl
  exact hall

theorem float?_of_isNumber {j : Json} {x : Float} (h : IsNumber j x) : j.float? = some x := by
  obtain rfl | ⟨n, rfl, rfl⟩ := h
  · rfl
  · cases n <;> rfl

theorem upTo?_of_isUpTo {max n : Nat} {j : Json} (h : IsUpTo max j n) : j.upTo? max = some n := by
  obtain ⟨rfl, hle⟩ := h
  exact if_pos hle

theorem optionalText?_of_isOptionalText {j : Json} {s : Option String} (h : IsOptionalText j s) :
    optionalText? j = some s := by
  subst h
  cases s <;> rfl

/-! ### Maps -/

/-- The fields of which none with the same key comes later. -/
def latest (written : List (String × String)) : List (String × String) :=
  written.foldr (fun p seen => if seen.any (·.1 == p.1) then seen else p :: seen) []

theorem latest_cons_of_later {p : String × String} {written : List (String × String)}
    (h : (latest written).any (·.1 == p.1) = true) : latest (p :: written) = latest written :=
  if_pos h

theorem latest_cons_of_last {p : String × String} {written : List (String × String)}
    (h : ¬(latest written).any (·.1 == p.1) = true) :
    latest (p :: written) = p :: latest written :=
  if_neg h

/-- The value of the last field with that key. -/
def lastValue? (written : List (String × String)) (k : String) : Option String :=
  ((written.filter (·.1 == k)).map (·.2)).getLast?

theorem field?_textRecord (written : List (String × String)) (k : String) :
    (textRecord written).field? k = (lastValue? written k).map .text := by
  unfold textRecord Json.field? Json.fieldsNamed lastValue?
  dsimp only
  rw [← List.getLast?_map, List.filter_map, List.map_map, List.map_map]
  rfl

theorem lastValue?_cons_of_eq (p : String × String) (written : List (String × String)) :
    lastValue? (p :: written) p.1 = some ((lastValue? written p.1).getD p.2) := by
  unfold lastValue?
  rw [List.filter_cons_of_pos (by simp), List.map_cons, List.getLast?_cons]

theorem lastValue?_cons_of_ne {p : String × String} {k : String} (hne : p.1 ≠ k)
    (written : List (String × String)) : lastValue? (p :: written) k = lastValue? written k := by
  unfold lastValue?
  rw [List.filter_cons_of_neg (by simpa using hne)]

theorem mem_latest {written : List (String × String)} {k v : String} :
    (k, v) ∈ latest written ↔ lastValue? written k = some v := by
  induction written generalizing k v with
  | nil => simp [latest, lastValue?]
  | cons p written ih =>
      by_cases hlater : (latest written).any (·.1 == p.1) = true
      -- A later field has the key, so it has a last value already.
      · rw [latest_cons_of_later hlater, ih]
        obtain ⟨⟨k', w⟩, hmem, hkey⟩ := List.any_eq_true.1 hlater
        rw [beq_iff_eq] at hkey
        dsimp only at hkey
        subst hkey
        by_cases hk : p.1 = k
        · subst hk
          rw [lastValue?_cons_of_eq, ih.1 hmem]
          rfl
        · rw [lastValue?_cons_of_ne hk]
      · rw [latest_cons_of_last hlater, List.mem_cons, ih]
        by_cases hk : p.1 = k
        · subst hk
          have hnone : lastValue? written p.1 = none := by
            by_contra hsome
            obtain ⟨w, hw⟩ := Option.ne_none_iff_exists'.1 hsome
            exact hlater (List.any_eq_true.2 ⟨(p.1, w), ih.2 hw, beq_self_eq_true _⟩)
          rw [lastValue?_cons_of_eq, hnone, Prod.ext_iff]
          simp [eq_comm]
        · rw [lastValue?_cons_of_ne hk]
          refine or_iff_right ?_
          rintro rfl
          exact hk rfl

theorem nodup_latest (written : List (String × String)) :
    ((latest written).map (·.1)).Nodup := by
  induction written with
  | nil => exact List.nodup_nil
  | cons p written ih =>
      by_cases hlater : (latest written).any (·.1 == p.1) = true
      · rwa [latest_cons_of_later hlater]
      · rw [latest_cons_of_last hlater, List.map_cons, List.nodup_cons]
        refine ⟨fun hmem => hlater ?_, ih⟩
        obtain ⟨q, hq, hkey⟩ := List.mem_map.1 hmem
        exact List.any_eq_true.2 ⟨q, hq, beq_iff_eq.2 hkey⟩

/-- Without repeats, every field is the last one of its key. -/
theorem latest_eq_self {written : List (String × String)} (hnodup : (written.map (·.1)).Nodup) :
    latest written = written := by
  induction written with
  | nil => rfl
  | cons p written ih =>
      rw [List.map_cons, List.nodup_cons] at hnodup
      have hrest := ih hnodup.2
      have hlast : ¬(latest written).any (·.1 == p.1) = true := by
        rw [hrest, List.any_eq_true]
        rintro ⟨q, hq, hkey⟩
        exact hnodup.1 (List.mem_map.2 ⟨q, hq, beq_iff_eq.1 hkey⟩)
      rw [latest_cons_of_last hlast, hrest]

/-- The fields in the order of their keys. -/
def inKeyOrder (pairs : List (String × String)) : List (String × String) :=
  pairs.mergeSort fun a b => !(b.1 < a.1)

theorem inKeyOrder_perm (pairs : List (String × String)) : (inKeyOrder pairs).Perm pairs :=
  List.mergeSort_perm _ _

theorem pairwise_le_inKeyOrder (pairs : List (String × String)) :
    (inKeyOrder pairs).Pairwise (·.1 ≤ ·.1) := by
  have hle : ∀ a b : String × String, (!decide (b.1 < a.1)) = true ↔ a.1 ≤ b.1 := by
    intro a b
    rw [Bool.not_eq_true', decide_eq_false_iff_not, String.not_lt]
  have htrans : ∀ a b c : String × String, (!decide (b.1 < a.1)) = true →
      (!decide (c.1 < b.1)) = true → (!decide (c.1 < a.1)) = true := by
    intro a b c hab hbc
    rw [hle] at hab hbc ⊢
    exact String.le_trans hab hbc
  have htotal : ∀ a b : String × String,
      (!decide (b.1 < a.1) || !decide (a.1 < b.1)) = true := by
    intro a b
    rw [Bool.or_eq_true, hle, hle]
    exact String.le_total a.1 b.1
  exact (List.pairwise_mergeSort htrans htotal pairs).imp (hle _ _).1

theorem pairwise_inKeyOrder {pairs : List (String × String)}
    (hnodup : (pairs.map (·.1)).Nodup) : (inKeyOrder pairs).Pairwise (·.1 < ·.1) := by
  rw [← ((inKeyOrder_perm pairs).map _).nodup_iff] at hnodup
  refine ((pairwise_le_inKeyOrder pairs).and (List.pairwise_map.1 hnodup)).imp ?_
  rintro a b ⟨hle, hne⟩
  by_contra hnot
  exact hne (String.le_antisymm hle (String.not_lt.1 hnot))

/-- Fields in the order of their keys are determined by which they are. -/
theorem eq_of_mem_iff {as bs : List (String × String)} (has : as.Pairwise (·.1 < ·.1))
    (hbs : bs.Pairwise (·.1 < ·.1)) (hmem : ∀ p, p ∈ as ↔ p ∈ bs) : as = bs := by
  have hnodup : ∀ ps : List (String × String), ps.Pairwise (·.1 < ·.1) → ps.Nodup := by
    intro ps hps
    refine hps.imp ?_
    rintro a _ hlt rfl
    exact String.lt_irrefl _ hlt
  have hperm := (List.perm_ext_iff_of_nodup (hnodup as has) (hnodup bs hbs)).2 hmem
  refine hperm.eq_of_pairwise ?_ has hbs
  intro a b _ _ hab hba
  exact absurd (String.lt_trans hab hba) (String.lt_irrefl _)

theorem isTextMap_textRecord (written : List (String × String)) :
    IsTextMap (textRecord written) (inKeyOrder (latest written)) := by
  refine ⟨pairwise_inKeyOrder (nodup_latest written), ⟨written, rfl⟩, fun k v => ?_⟩
  rw [(inKeyOrder_perm _).mem_iff, mem_latest, field?_textRecord]
  cases lastValue? written k <;> simp

theorem textMap?_textRecord (written : List (String × String)) :
    textMap? (textRecord written) = some (inKeyOrder (latest written)) := by
  have hread : (written.map fun p => (p.1, Json.text p.2)).mapM
      (fun f => f.2.text?.map (f.1, ·)) = some written := by
    induction written with
    | nil => rfl
    | cons p written ih =>
        rw [List.map_cons, List.mapM_cons, ih]
        rfl
  refine Option.bind_eq_some_iff.2 ⟨written, hread, ?_⟩
  dsimp only
  rw [List.foldl_reverse]
  rfl

theorem textMap?_of_isTextMap {j : Json} {pairs : List (String × String)} (h : IsTextMap j pairs) :
    textMap? j = some pairs := by
  obtain ⟨hsorted, ⟨written, rfl⟩, hpairs⟩ := h
  obtain ⟨hsorted', -, hlatest⟩ := isTextMap_textRecord written
  rw [textMap?_textRecord]
  refine congrArg some (eq_of_mem_iff hsorted' hsorted ?_)
  rintro ⟨k, v⟩
  rw [hlatest, hpairs]

/-! ## Some of the weights and shares -/

/-- Some of the weights. -/
structure SomeSignals where
  fts : Option Float := none
  name : Option Float := none
  kind : Option Float := none
  proximity : Option Float := none
  recency : Option Float := none
  importGraph : Option Float := none
  access : Option Float := none

/-- The given weights, and those of `d` for the rest. -/
def SomeSignals.over (w : SomeSignals) (d : Signals) : Signals where
  fts := w.fts.getD d.fts
  name := w.name.getD d.name
  kind := w.kind.getD d.kind
  proximity := w.proximity.getD d.proximity
  recency := w.recency.getD d.recency
  importGraph := w.importGraph.getD d.importGraph
  access := w.access.getD d.access

/-- The fields of a record give these weights and no others. -/
structure SomeSignals.GivenBy (fields : List (String × Json)) (w : SomeSignals) : Prop where
  fts : Field IsNumber fields "fts" w.fts
  name : Field IsNumber fields "name" w.name
  kind : Field IsNumber fields "kind" w.kind
  proximity : Field IsNumber fields "proximity" w.proximity
  recency : Field IsNumber fields "recency" w.recency
  importGraph : Field IsNumber fields "import_graph" w.importGraph
  access : Field IsNumber fields "access" w.access

theorem weights?_of_givenBy {fields : List (String × Json)} {w : SomeSignals}
    (h : w.GivenBy fields) (d : Signals) : weights? d (.record fields) = some (w.over d) := by
  have hread : ∀ j x, IsNumber j x → j.float? = some (id x) := fun _ _ => float?_of_isNumber
  obtain ⟨a, ha, hfts⟩ := h.fts.read hread
  obtain ⟨b, hb, hname⟩ := h.name.read hread
  obtain ⟨c, hc, hkind⟩ := h.kind.read hread
  obtain ⟨e, he, hproximity⟩ := h.proximity.read hread
  obtain ⟨f, hf, hrecency⟩ := h.recency.read hread
  obtain ⟨g, hg, himportGraph⟩ := h.importGraph.read hread
  obtain ⟨i, hi, haccess⟩ := h.access.read hread
  have hfields : fieldsOf weightNames (.record fields) = some [a, b, c, e, f, g, i] := by
    rw [fieldsOf_record]
    simp [weightNames, ha, hb, hc, he, hf, hg, hi]
  unfold weights?
  rw [hfields]
  simp [hfts, hname, hkind, hproximity, hrecency, himportGraph, haccess, SomeSignals.over]

/-- Some of the shares. -/
structure SomeShares where
  currentFile : Option Nat := none
  definitions : Option Nat := none
  fullText : Option Nat := none
  imports : Option Nat := none
  projectDocs : Option Nat := none
  diagnostics : Option Nat := none

/-- The given shares, and those of `d` for the rest. -/
def SomeShares.over (s : SomeShares) (d : Shares) : Shares where
  currentFile := s.currentFile.getD d.currentFile
  definitions := s.definitions.getD d.definitions
  fullText := s.fullText.getD d.fullText
  imports := s.imports.getD d.imports
  projectDocs := s.projectDocs.getD d.projectDocs
  diagnostics := s.diagnostics.getD d.diagnostics

/-- A number of 32 bits. -/
abbrev IsShare : Json → Nat → Prop :=
  IsUpTo (Nat.pow 2 32 - 1)

/-- The fields of a record give these shares and no others. -/
structure SomeShares.GivenBy (fields : List (String × Json)) (s : SomeShares) : Prop where
  currentFile : Field IsShare fields "current_file" s.currentFile
  definitions : Field IsShare fields "definitions" s.definitions
  fullText : Field IsShare fields "full_text" s.fullText
  imports : Field IsShare fields "imports" s.imports
  projectDocs : Field IsShare fields "project_docs" s.projectDocs
  diagnostics : Field IsShare fields "diagnostics" s.diagnostics

theorem shares?_of_givenBy {fields : List (String × Json)} {s : SomeShares}
    (h : s.GivenBy fields) (d : Shares) : shares? d (.record fields) = some (s.over d) := by
  have hread : ∀ j n, IsShare j n → share? j = some (id n) := fun _ _ hn => upTo?_of_isUpTo hn
  obtain ⟨a, ha, hcurrentFile⟩ := h.currentFile.read hread
  obtain ⟨b, hb, hdefinitions⟩ := h.definitions.read hread
  obtain ⟨c, hc, hfullText⟩ := h.fullText.read hread
  obtain ⟨e, he, himports⟩ := h.imports.read hread
  obtain ⟨f, hf, hprojectDocs⟩ := h.projectDocs.read hread
  obtain ⟨g, hg, hdiagnostics⟩ := h.diagnostics.read hread
  have hfields : fieldsOf shareNames (.record fields) = some [a, b, c, e, f, g] := by
    rw [fieldsOf_record]
    simp [shareNames, ha, hb, hc, he, hf, hg]
  unfold shares?
  rw [hfields]
  simp [hcurrentFile, hdefinitions, hfullText, himports, hprojectDocs, hdiagnostics,
    SomeShares.over]

/-! ## Some of the settings -/

/-- Some of the settings. -/
structure SomeSettings where
  includePatterns : Option (List String) := none
  excludePatterns : Option (List String) := none
  batchSize : Option Nat := none
  debounceMillis : Option Nat := none
  maxFileBytes : Option Nat := none
  maxChunksPerFile : Option Nat := none
  maxChunkChars : Option Nat := none
  windowLines : Option Nat := none
  overlapLines : Option Nat := none
  minModuleLines : Option Nat := none
  tokenBudget : Option Nat := none
  searchLimit : Option Nat := none
  /-- A store path can be given as absent. -/
  storePath : Option (Option String) := none
  extraExtensions : Option (List (String × String)) := none
  weights : Option SomeSignals := none
  shares : Option SomeShares := none

/-- The given settings, and those of `d` for the rest. -/
def SomeSettings.over (p : SomeSettings) (d : Config) : Config where
  includePatterns := p.includePatterns.getD d.includePatterns
  excludePatterns := p.excludePatterns.getD d.excludePatterns
  batchSize := p.batchSize.getD d.batchSize
  debounceMillis := p.debounceMillis.getD d.debounceMillis
  maxFileBytes := p.maxFileBytes.getD d.maxFileBytes
  maxChunksPerFile := p.maxChunksPerFile.getD d.maxChunksPerFile
  maxChunkChars := p.maxChunkChars.getD d.maxChunkChars
  windowLines := p.windowLines.getD d.windowLines
  overlapLines := p.overlapLines.getD d.overlapLines
  minModuleLines := p.minModuleLines.getD d.minModuleLines
  tokenBudget := p.tokenBudget.getD d.tokenBudget
  searchLimit := p.searchLimit.getD d.searchLimit
  storePath := p.storePath.getD d.storePath
  extraExtensions := p.extraExtensions.getD d.extraExtensions
  weights := (p.weights.map (·.over d.weights)).getD d.weights
  shares := (p.shares.map (·.over d.shares)).getD d.shares

/-- A number of 64 bits. -/
abbrev IsWord : Json → Nat → Prop :=
  IsUpTo Json.maxWord

def IsWeights (j : Json) (w : SomeSignals) : Prop :=
  ∃ fields, j = .record fields ∧ w.GivenBy fields

def IsShares (j : Json) (s : SomeShares) : Prop :=
  ∃ fields, j = .record fields ∧ s.GivenBy fields

/-- The fields of a record give these settings and no others. Further fields have other names. -/
structure SomeSettings.GivenBy (fields : List (String × Json)) (p : SomeSettings) : Prop where
  includePatterns : Field IsTexts fields "include_patterns" p.includePatterns
  excludePatterns : Field IsTexts fields "exclude_patterns" p.excludePatterns
  batchSize : Field IsWord fields "batch_size" p.batchSize
  debounceMillis : Field IsWord fields "debounce_ms" p.debounceMillis
  maxFileBytes : Field IsWord fields "max_file_bytes" p.maxFileBytes
  maxChunksPerFile : Field IsWord fields "max_chunks_per_file" p.maxChunksPerFile
  maxChunkChars : Field IsWord fields "max_chunk_chars" p.maxChunkChars
  windowLines : Field IsWord fields "fallback_window_lines" p.windowLines
  overlapLines : Field IsWord fields "fallback_overlap_lines" p.overlapLines
  minModuleLines : Field IsWord fields "min_module_lines" p.minModuleLines
  tokenBudget : Field IsWord fields "token_budget" p.tokenBudget
  searchLimit : Field IsWord fields "search_limit" p.searchLimit
  storePath : Field IsOptionalText fields "store_path" p.storePath
  extraExtensions : Field IsTextMap fields "extra_extensions" p.extraExtensions
  weights : Field IsWeights fields "weights" p.weights
  shares : Field IsShares fields "buckets" p.shares

theorem ofJson?_of_givenBy {fields : List (String × Json)} {p : SomeSettings}
    (h : p.GivenBy fields) : ofJson? (.record fields) = some (p.over {}) := by
  have htexts : ∀ j ss, IsTexts j ss → j.texts? = some (id ss) := fun _ _ => texts?_of_isTexts
  have hword : ∀ j n, IsWord j n → j.word? = some (id n) := fun _ _ hn => upTo?_of_isUpTo hn
  have hpath : ∀ j s, IsOptionalText j s → optionalText? j = some (id s) :=
    fun _ _ => optionalText?_of_isOptionalText
  have hmap : ∀ j pairs, IsTextMap j pairs → textMap? j = some (id pairs) :=
    fun _ _ => textMap?_of_isTextMap
  have hsignals : ∀ j w, IsWeights j w →
      weights? Signals.defaultWeights j = some (w.over Signals.defaultWeights) := by
    rintro _ w ⟨fields, rfl, hw⟩
    exact weights?_of_givenBy hw _
  have hparts : ∀ j s, IsShares j s → shares? {} j = some (s.over {}) := by
    rintro _ s ⟨fields, rfl, hs⟩
    exact shares?_of_givenBy hs _
  obtain ⟨a, ha, hincludePatterns⟩ := h.includePatterns.read htexts
  obtain ⟨b, hb, hexcludePatterns⟩ := h.excludePatterns.read htexts
  obtain ⟨c, hc, hbatchSize⟩ := h.batchSize.read hword
  obtain ⟨d, hd, hdebounceMillis⟩ := h.debounceMillis.read hword
  obtain ⟨e, he, hmaxFileBytes⟩ := h.maxFileBytes.read hword
  obtain ⟨f, hf, hmaxChunksPerFile⟩ := h.maxChunksPerFile.read hword
  obtain ⟨g, hg, hmaxChunkChars⟩ := h.maxChunkChars.read hword
  obtain ⟨i, hi, hwindowLines⟩ := h.windowLines.read hword
  obtain ⟨k, hk, hoverlapLines⟩ := h.overlapLines.read hword
  obtain ⟨l, hl, hminModuleLines⟩ := h.minModuleLines.read hword
  obtain ⟨m, hm, htokenBudget⟩ := h.tokenBudget.read hword
  obtain ⟨n, hn, hsearchLimit⟩ := h.searchLimit.read hword
  obtain ⟨o, ho, hstorePath⟩ := h.storePath.read hpath
  obtain ⟨q, hq, hextraExtensions⟩ := h.extraExtensions.read hmap
  obtain ⟨r, hr, hweights⟩ := h.weights.read hsignals
  obtain ⟨t, ht, hshares⟩ := h.shares.read hparts
  have hfields : fieldsOf fieldNames (.record fields) =
      some [a, b, c, d, e, f, g, i, k, l, m, n, o, q, r, t] := by
    rw [fieldsOf_record]
    simp [fieldNames, ha, hb, hc, hd, he, hf, hg, hi, hk, hl, hm, hn, ho, hq, hr, ht]
  unfold ofJson?
  refine Option.bind_eq_some_iff.2 ⟨_, hfields, ?_⟩
  refine Option.bind_eq_some_iff.2 ⟨_, hincludePatterns _, ?_⟩
  refine Option.bind_eq_some_iff.2 ⟨_, hexcludePatterns _, ?_⟩
  refine Option.bind_eq_some_iff.2 ⟨_, hbatchSize _, ?_⟩
  refine Option.bind_eq_some_iff.2 ⟨_, hdebounceMillis _, ?_⟩
  refine Option.bind_eq_some_iff.2 ⟨_, hmaxFileBytes _, ?_⟩
  refine Option.bind_eq_some_iff.2 ⟨_, hmaxChunksPerFile _, ?_⟩
  refine Option.bind_eq_some_iff.2 ⟨_, hmaxChunkChars _, ?_⟩
  refine Option.bind_eq_some_iff.2 ⟨_, hwindowLines _, ?_⟩
  refine Option.bind_eq_some_iff.2 ⟨_, hoverlapLines _, ?_⟩
  refine Option.bind_eq_some_iff.2 ⟨_, hminModuleLines _, ?_⟩
  refine Option.bind_eq_some_iff.2 ⟨_, htokenBudget _, ?_⟩
  refine Option.bind_eq_some_iff.2 ⟨_, hsearchLimit _, ?_⟩
  refine Option.bind_eq_some_iff.2 ⟨_, hstorePath _, ?_⟩
  refine Option.bind_eq_some_iff.2 ⟨_, hextraExtensions _, ?_⟩
  refine Option.bind_eq_some_iff.2 ⟨_, hweights _, ?_⟩
  refine Option.bind_eq_some_iff.2 ⟨_, hshares _, ?_⟩
  simp only [Option.map_id, id_eq]
  rfl

end CodeIndex.Config

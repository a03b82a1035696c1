import CodeIndex.Proofs.Config.Given
import CodeIndex.Proofs.Json.RoundTrip
/-!
# Settings saved and loaded

Saved settings give all their fields, in a text that reads back. So they are loaded as they were.
-/

namespace CodeIndex.Config

/-! ## All settings -/

theorem Field.of_mem {α : Type} {means : Json → α → Prop} {fields : List (String × Json)}
    (hnodup : (fields.map (·.1)).Nodup) {name : String} {j : Json} (hmem : (name, j) ∈ fields)
    {a : α} (hj : means j a) : Field means fields name (some a) := by
  refine .once ?_ hj
  obtain ⟨before, after, rfl⟩ := List.append_of_mem hmem
  rw [List.map_append, List.map_cons, List.nodup_middle, List.nodup_cons,
    ← List.map_append] at hnodup
  have hother : ∀ f ∈ before ++ after, (f.1 == name) = false := by
    intro f hf
    rw [beq_eq_false_iff_ne]
    rintro rfl
    exact hnodup.1 (List.mem_map.2 ⟨f, hf, rfl⟩)
  have hbefore : before.filter (·.1 == name) = [] := by
    rw [List.filter_eq_nil_iff]
    exact fun f hf => by simp [hother f (List.mem_append_left _ hf)]
  have hafter : after.filter (·.1 == name) = [] := by
    rw [List.filter_eq_nil_iff]
    exact fun f hf => by simp [hother f (List.mem_append_right _ hf)]
  rw [List.filter_append, List.filter_cons_of_pos (by simp), hbefore, hafter, List.nil_append]

def allSignals (w : Signals) : SomeSignals where
  fts := some w.fts
  name := some w.name
  kind := some w.kind
  proximity := some w.proximity
  recency := some w.recency
  importGraph := some w.importGraph
  access := some w.access

def allShares (s : Shares) : SomeShares where
  currentFile := some s.currentFile
  definitions := some s.definitions
  fullText := some s.fullText
  imports := some s.imports
  projectDocs := some s.projectDocs
  diagnostics := some s.diagnostics

/-- All settings that saved settings give. -/
def allSettings (c : Config) : SomeSettings where
  includePatterns := some c.includePatterns
  excludePatterns := some c.excludePatterns
  batchSize := some c.batchSize
  debounceMillis := some c.debounceMillis
  maxFileBytes := some c.maxFileBytes
  maxChunksPerFile := some c.maxChunksPerFile
  maxChunkChars := some c.maxChunkChars
  windowLines := some c.windowLines
  overlapLines := some c.overlapLines
  minModuleLines := some c.minModuleLines
  tokenBudget := some c.tokenBudget
  searchLimit := some c.searchLimit
  storePath := c.storePath.map some
  extraExtensions := some (inKeyOrder c.extraExtensions)
  weights := some (allSignals c.weights)
  shares := some (allShares c.shares)

theorem allSettings_over (c : Config) :
    c.allSettings.over {} = { c with extraExtensions := inKeyOrder c.extraExtensions } := by
  have hpath : (c.storePath.map some).getD none = c.storePath := by
    cases c.storePath <;> rfl
  calc
    c.allSettings.over {} =
        { c with
          storePath := (c.storePath.map some).getD none
          extraExtensions := inKeyOrder c.extraExtensions } := rfl
    _ = { c with extraExtensions := inKeyOrder c.extraExtensions } := by rw [hpath]

/-! ## Saved fields -/

/-- What can be saved: whole numbers fit their types, an extension stands for one language, and the
text of each weight reads back as the weight. -/
structure Savable (c : Config) : Prop where
  words : ∀ n ∈ [c.batchSize, c.debounceMillis, c.maxFileBytes, c.maxChunksPerFile,
    c.maxChunkChars, c.windowLines, c.overlapLines, c.minModuleLines, c.tokenBudget,
    c.searchLimit], n ≤ Json.maxWord
  shares : ∀ n ∈ [c.shares.currentFile, c.shares.definitions, c.shares.fullText, c.shares.imports,
    c.shares.projectDocs, c.shares.diagnostics], n ≤ Nat.pow 2 32 - 1
  extensions : (c.extraExtensions.map (·.1)).Nodup
  weights : ∀ w ∈ c.weights.named, Json.read? (Json.floatText w.2) = some (.float w.2)

def savedFields (c : Config) : List (String × Json) :=
  match c.toJson with
  | .record fields => fields
  | _ => []

theorem names_savedFields (c : Config) :
    c.savedFields.map (·.1) =
      fieldNames.take 12 ++ (if c.storePath.isSome then ["store_path"] else []) ++
        fieldNames.drop 13 := by
  unfold savedFields toJson
  cases c.storePath <;> rfl

theorem nodup_savedFields (c : Config) : (c.savedFields.map (·.1)).Nodup := by
  rw [names_savedFields]
  cases c.storePath.isSome <;> decide

theorem field_storePath (c : Config) :
    Field IsOptionalText c.savedFields "store_path" (c.storePath.map some) := by
  cases hpath : c.storePath with
  | none =>
      refine .absent fun f hf hname => ?_
      have hmem : f.1 ∈ c.savedFields.map (·.1) := List.mem_map_of_mem hf
      rw [names_savedFields, hname, hpath] at hmem
      exact absurd hmem (by decide)
  | some path =>
      have hmem : ("store_path", Json.text path) ∈ c.savedFields := by
        simp [savedFields, toJson, hpath]
      exact Field.of_mem c.nodup_savedFields hmem rfl

theorem allSignals_givenBy (w : Signals) :
    (allSignals w).GivenBy (w.named.map fun (n, x) => (n, Json.float x)) := by
  have hnodup : ((w.named.map fun (n, x) => (n, Json.float x)).map (·.1)).Nodup := by
    show weightNames.Nodup
    decide
  constructor <;> refine Field.of_mem hnodup ?_ (.inl rfl) <;> simp [Signals.named]

theorem allShares_givenBy {s : Shares}
    (h : ∀ n ∈ [s.currentFile, s.definitions, s.fullText, s.imports, s.projectDocs, s.diagnostics],
      n ≤ Nat.pow 2 32 - 1) :
    IsShares (sharesJson s) (allShares s) := by
  refine ⟨_, rfl, ?_⟩
  have hread {n : Nat} (hn : n ∈ [s.currentFile, s.definitions, s.fullText, s.imports,
      s.projectDocs, s.diagnostics]) : IsShare (.nat n) n := ⟨rfl, h n hn⟩
  have hnodup : shareNames.Nodup := by decide
  constructor <;> refine Field.of_mem ?_ ?_ (hread ?_) <;> first | exact hnodup | simp

theorem Savable.word {c : Config} (h : c.Savable) {name : String} {n : Nat}
    (hmem : (name, Json.nat n) ∈ c.savedFields) (hn : n ∈ [c.batchSize, c.debounceMillis,
      c.maxFileBytes, c.maxChunksPerFile, c.maxChunkChars, c.windowLines, c.overlapLines,
      c.minModuleLines, c.tokenBudget, c.searchLimit]) :
    Field IsWord c.savedFields name (some n) :=
  Field.of_mem c.nodup_savedFields hmem ⟨rfl, h.words n hn⟩

theorem allSettings_givenBy {c : Config} (h : c.Savable) :
    c.allSettings.GivenBy c.savedFields where
  includePatterns := Field.of_mem c.nodup_savedFields (by simp [savedFields, toJson]) rfl
  excludePatterns := Field.of_mem c.nodup_savedFields (by simp [savedFields, toJson]) rfl
  batchSize := h.word (by simp [savedFields, toJson]) (by simp)
  debounceMillis := h.word (by simp [savedFields, toJson]) (by simp)
  maxFileBytes := h.word (by simp [savedFields, toJson]) (by simp)
  maxChunksPerFile := h.word (by simp [savedFields, toJson]) (by simp)
  maxChunkChars := h.word (by simp [savedFields, toJson]) (by simp)
  windowLines := h.word (by simp [savedFields, toJson]) (by simp)
  overlapLines := h.word (by simp [savedFields, toJson]) (by simp)
  minModuleLines := h.word (by simp [savedFields, toJson]) (by simp)
  tokenBudget := h.word (by simp [savedFields, toJson]) (by simp)
  searchLimit := h.word (by simp [savedFields, toJson]) (by simp)
  storePath := c.field_storePath
  extraExtensions := by
    have hmap := isTextMap_textRecord c.extraExtensions
    rw [latest_eq_self h.extensions] at hmap
    exact Field.of_mem c.nodup_savedFields (by simp [savedFields, toJson, textRecord]) hmap
  weights := Field.of_mem c.nodup_savedFields (j := weightsJson c.weights)
    (by simp [savedFields, toJson]) ⟨_, rfl, allSignals_givenBy c.weights⟩
  shares := Field.of_mem c.nodup_savedFields (j := sharesJson c.shares)
    (by simp [savedFields, toJson]) (allShares_givenBy h.shares)

/-! ## The text of saved settings -/

theorem arePrintable_iff {js : List Json} : Json.ArePrintable js ↔ ∀ j ∈ js, j.IsPrintable := by
  induction js with
  | nil => simp [Json.ArePrintable]
  | cons j js ih => simp [Json.ArePrintable, ih]

theorem arePrintableFields_iff {fields : List (String × Json)} :
    Json.ArePrintableFields fields ↔ ∀ f ∈ fields, f.2.IsPrintable := by
  induction fields with
  | nil => simp [Json.ArePrintableFields]
  | cons f fields ih => simp [Json.ArePrintableFields, ih]

theorem isPrintable_nat {n : Nat} (h : n ≤ Json.maxWord) : (Json.nat n).IsPrintable := by
  show Json.IsWhole n
  constructor
  · have hpos : (0 : Int) ≤ n := Int.natCast_nonneg n
    omega
  · exact_mod_cast h

theorem isPrintable_texts (ss : List String) : (Json.texts ss).IsPrintable := by
  refine arePrintable_iff.2 fun j hj => ?_
  obtain ⟨s, -, rfl⟩ := List.mem_map.1 hj
  exact trivial

theorem isPrintable_textRecord (written : List (String × String)) :
    (textRecord written).IsPrintable := by
  refine arePrintableFields_iff.2 fun f hf => ?_
  obtain ⟨p, -, rfl⟩ := List.mem_map.1 hf
  exact trivial

theorem Savable.isPrintable {c : Config} (h : c.Savable) : c.toJson.IsPrintable := by
  have hweights : (weightsJson c.weights).IsPrintable := by
    refine arePrintableFields_iff.2 fun f hf => ?_
    obtain ⟨w, hw, rfl⟩ := List.mem_map.1 hf
    exact h.weights w hw
  have hshares : (sharesJson c.shares).IsPrintable := by
    have hsmall : Nat.pow 2 32 - 1 ≤ Json.maxWord := by decide
    have hall := fun n hn => isPrintable_nat ((h.shares n hn).trans hsmall)
    refine arePrintableFields_iff.2 ?_
    simpa using hall
  have hwords := fun n hn => isPrintable_nat (h.words n hn)
  refine arePrintableFields_iff.2 ?_
  rw [List.forall_mem_append, List.forall_mem_append]
  refine ⟨⟨?_, ?_⟩, ?_⟩
  · simpa [isPrintable_texts] using hwords
  · cases c.storePath <;> simp [Json.IsPrintable]
  · simpa using ⟨isPrintable_textRecord c.extraExtensions, hweights, hshares⟩

theorem ofSource?_of_givenBy {s : String} {fields : List (String × Json)} {p : SomeSettings}
    (hread : Json.read? s = some (.record fields)) (h : p.GivenBy fields) :
    ofSource? (.text s) = some (p.over {}) := by
  have htext : ofText s = p.over {} := by
    unfold ofText
    rw [hread, Option.bind_some, ofJson?_of_givenBy h, Option.getD_some]
  exact congrArg some htext

/-- Settings are loaded as they were saved, with the extensions in order. -/
theorem ofSource?_toText {c : Config} (h : c.Savable) :
    ofSource? (.text c.toText) =
      some { c with extraExtensions := inKeyOrder c.extraExtensions } := by
  have hread : Json.read? c.toText = some (.record c.savedFields) := Json.read?_pretty h.isPrintable
  rw [ofSource?_of_givenBy hread (allSettings_givenBy h), allSettings_over]

/-- Settings survive being saved and loaded, and a record that gives some of them is loaded as those
and the defaults for the rest. -/
theorem settings_kept :
    (∀ c : Config, c.Savable → ∃ extra : List (String × String),
      extra.Perm c.extraExtensions ∧ extra.Pairwise (·.1 < ·.1) ∧
        ofSource? (.text c.toText) = some { c with extraExtensions := extra }) ∧
    ∀ (s : String) (fields : List (String × Json)) (p : SomeSettings),
      Json.read? s = some (.record fields) → p.GivenBy fields →
        ofSource? (.text s) = some (p.over {}) := by
  refine ⟨fun c hc => ?_, fun s fields p hread hp => ofSource?_of_givenBy hread hp⟩
  exact ⟨inKeyOrder c.extraExtensions, inKeyOrder_perm _, pairwise_inKeyOrder hc.extensions,
    ofSource?_toText hc⟩

/-- The text of the weight reads back as the weight. -/
def readsBack (x : Float) : Bool :=
  match Json.read? (Json.floatText x) with
  | some (.float y) => y = x
  | _ => false

theorem read?_of_readsBack {x : Float} (h : readsBack x = true) :
    Json.read? (Json.floatText x) = some (.float x) := by
  unfold readsBack at h
  split at h
  · rw [‹Json.read? _ = _›, of_decide_eq_true h]
  · cases h

/-- Settings with quotes, backslashes and control characters, and unordered extensions. -/
def unusual : Config where
  includePatterns := ["**/\"a\\b\".rs", "", "\x00\t\n\x1f\x7f\u2028ü𝄞"]
  excludePatterns := []
  batchSize := Json.maxWord
  overlapLines := 0
  storePath := some "C:\\stores\\\"new\"\r"
  extraExtensions := [("z\x08", "rust"), ("a\"\x0c", "\\")]
  shares := { currentFile := Nat.pow 2 32 - 1 }

theorem settings_kept_unusual :
    (unusual.Savable ∧ ∃ extra : List (String × String),
      extra.Perm unusual.extraExtensions ∧ extra.Pairwise (·.1 < ·.1) ∧
        ofSource? (.text unusual.toText) = some { unusual with extraExtensions := extra }) ∧
    ofSource? (.text
        "\x7b\"batch_size\": 7, \"weights\": \x7b\"fts\": 1\x7d, \"more\": null\x7d") =
      some { ({} : Config) with
        batchSize := 7
        weights := { Signals.defaultWeights with fts := Float.ofInt 1 } } := by
  have hsavable : unusual.Savable := by
    refine ⟨by decide, by decide, by decide, fun w hw => ?_⟩
    have hall : ∀ w ∈ unusual.weights.named, readsBack w.2 = true := by
      decide +kernel
    exact read?_of_readsBack (hall w hw)
  refine ⟨⟨hsavable, settings_kept.1 unusual hsavable⟩, ?_⟩
  have hweights : SomeSignals.GivenBy [("fts", .int 1)] { fts := some (Float.ofInt 1) } := by
    constructor
    case fts => exact .once rfl (.inr ⟨1, rfl, rfl⟩)
    all_goals exact .absent (by simp)
  refine settings_kept.2 _
    [("batch_size", .int 7), ("weights", .record [("fts", .int 1)]), ("more", .null)]
    { batchSize := some 7, weights := some { fts := some (Float.ofInt 1) } } rfl ?_
  constructor
  case batchSize => exact .once rfl ⟨rfl, by decide⟩
  case weights => exact .once rfl ⟨_, rfl, hweights⟩
  all_goals exact .absent (by simp)

end CodeIndex.Config

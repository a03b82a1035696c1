import CodeIndex.Config.Basic
import CodeIndex.Proofs.Disk.Walk
import CodeIndex.Proofs.Glob.Sample
/-!
# What pruning hides

A directory that is pruned hides the files below it and nothing else. When the excluding patterns
do not see the made-up entry by which directories are judged, no file is hidden that the filter
would have accepted.
-/

namespace CodeIndex

namespace PathFilter

/-- No pattern that excludes depends on the name of the made-up entry. -/
def isBlind (f : PathFilter) : Bool :=
  f.excluded.all Glob.blind

theorem accepts_of_prunes {f : PathFilter} (hblind : f.isBlind = true) {directory : String}
    (hprunes : f.prunes directory = true) (rest : String) :
    f.accepts (directory ++ "/" ++ rest) = false := by
  unfold prunes at hprunes
  rw [Bool.and_eq_true] at hprunes
  obtain ⟨g, hg, hmatches⟩ := List.any_eq_true.1 hprunes.2
  have hbelow := Glob.matches_below (List.all_eq_true.1 hblind g hg) hmatches rest
  have hexcluded : anyMatches f.excluded (directory ++ "/" ++ rest) = true :=
    List.any_eq_true.2 ⟨g, hg, hbelow⟩
  unfold accepts
  rw [hexcluded]
  rfl

/-- The filter without patterns. -/
def blank : PathFilter :=
  ⟨[], []⟩

theorem prunes_blank (directory : String) : blank.prunes directory = false := by
  unfold prunes anyMatches blank
  rw [List.any_nil, Bool.and_false]

theorem exists_read (included excluded : List String) (p : PathFilter → Bool)
    (h : (read included excluded).toOption.any p = true) :
    ∃ f, read included excluded = .ok f ∧ p f = true := by
  cases hread : read included excluded with
  | error e =>
      rw [hread] at h
      cases h
  | ok f =>
      rw [hread] at h
      exact ⟨f, rfl, h⟩

end PathFilter

namespace Walk

variable {d : Disk} {filter : PathFilter} {root directory : Place}

/-- On the way down from a directory there is one that is pruned. -/
def barred (filter : PathFilter) (root directory : Place) : List String → Bool
  | name :: next :: rest =>
    filter.prunes (relative root (directory ++ [name]))
      || barred filter root (directory ++ [name]) (next :: rest)
  | _ => false

theorem barred_cons (name : String) {rest : List String} (hrest : rest ≠ []) :
    barred filter root directory (name :: rest) =
      (filter.prunes (relative root (directory ++ [name]))
        || barred filter root (directory ++ [name]) rest) := by
  obtain ⟨next, more, rfl⟩ := List.exists_cons_of_ne_nil hrest
  rfl

/-- The files below a directory are those of the walk that prunes nothing, less the barred. -/
theorem filesIn_eq_filter (depth : Nat) (sets : List IgnoreSet) (directory : Place) :
    filesIn d filter root depth sets directory =
      (filesIn d .blank root depth sets directory).filter fun place =>
        !barred filter root directory (place.drop directory.length) := by
  induction depth generalizing sets directory with
  | zero => rfl
  | succ depth ih =>
      unfold filesIn
      rw [List.filter_flatMap]
      apply List.flatMap_congr
      rintro ⟨name, e⟩ -
      have hfile : ∀ ignored : Bool,
          (if ignored then [] else [directory ++ [name]]) =
            (if ignored then [] else [directory ++ [name]]).filter fun place =>
              !barred filter root directory (place.drop directory.length) := by
        intro ignored
        cases ignored with
        | true => rfl
        | false => simp [barred]
      cases e with
      | file bytes mtime => exact hfile _
      | locked size => exact hfile _
      | store content => exact hfile _
      | link target => exact hfile _
      | directory =>
          dsimp only
          rw [PathFilter.prunes_blank, Bool.or_false]
          cases IgnoreSet.ignores sets (directory ++ [name]) true with
          | true => rfl
          | false =>
              rw [Bool.false_or, if_neg Bool.false_ne_true]
              -- The directory is the first on the way to all that lies below it.
              have hbarred : ∀ place ∈ filesIn d .blank root depth
                  (.ofDirectory d (directory ++ [name]) :: sets) (directory ++ [name]),
                  barred filter root directory (place.drop directory.length) =
                    (filter.prunes (relative root (directory ++ [name])) ||
                      barred filter root (directory ++ [name])
                        (place.drop (directory ++ [name]).length)) := by
                intro place hplace
                obtain ⟨rest, hrest, rfl⟩ := place_of_filesIn hplace
                rw [List.drop_left, List.append_assoc, List.drop_left, List.singleton_append,
                  barred_cons name hrest]
              cases hprunes : filter.prunes (relative root (directory ++ [name])) with
              | true =>
                  rw [if_pos rfl, eq_comm, List.filter_eq_nil_iff]
                  intro place hplace
                  rw [hbarred place hplace, hprunes]
                  simp
              | false =>
                  rw [if_neg Bool.false_ne_true, ih]
                  apply List.filter_congr
                  intro place hplace
                  rw [hbarred place hplace, hprunes, Bool.false_or]

/-- The places of all files of a project that the ignore files leave, no directory pruned. -/
def everything (d : Disk) (root : Place) : List Place :=
  match d.entry? root with
  | some .directory => filesIn d .blank root (d.entries.length + 1) (setsAbove d root) root
  | _ => []

/-- The files at some places that the filter accepts, by their paths. -/
def chosen (filter : PathFilter) (root : Place) (places : List Place) : List FoundFile :=
  ((places.map fun p => FoundFile.mk p (relative root p)).filter
    fun f => filter.accepts f.path).mergeSort fun a b => !(b.path < a.path)

/-- A directory above the place is pruned. -/
def hidden (filter : PathFilter) (root place : Place) : Bool :=
  barred filter root root (place.drop root.length)

theorem discover_eq_chosen (d : Disk) (filter : PathFilter) (root : Place) :
    discover d filter root =
      chosen filter root ((everything d root).filter fun place => !hidden filter root place) := by
  unfold discover everything chosen hidden
  cases d.entry? root with
  | none => rfl
  | some e =>
      cases e with
      | directory =>
          dsimp only
          rw [filesIn_eq_filter]
      | file bytes mtime => rfl
      | locked size => rfl
      | store content => rfl
      | link target => rfl

/-! ## Blind filters -/

theorem relative_append (root : Place) {above rest : List String} (habove : above ≠ [])
    (hrest : rest ≠ []) :
    ∃ more, relative root (root ++ (above ++ rest)) =
      relative root (root ++ above) ++ "/" ++ more := by
  refine ⟨String.ofList (("/".intercalate rest).toList.map fun c =>
    if c == '\\' then '/' else c), ?_⟩
  have hslash : ("/".toList.map fun c => if c == '\\' then '/' else c) = "/".toList := by
    decide
  unfold relative
  rw [List.drop_left, List.drop_left, String.intercalate_append_of_ne_nil habove hrest,
    String.toList_append, String.toList_append, List.map_append, List.map_append, hslash,
    String.ofList_append, String.ofList_append, String.ofList_toList]

/-- Above a barred place there is a pruned directory. -/
theorem exists_pruned {above rest : List String}
    (hbarred : barred filter root (root ++ above) rest = true) :
    ∃ upper lower, above ++ rest = upper ++ lower ∧ upper ≠ [] ∧ lower ≠ [] ∧
      filter.prunes (relative root (root ++ upper)) = true := by
  induction rest generalizing above with
  | nil => cases hbarred
  | cons name rest ih =>
      cases rest with
      | nil => cases hbarred
      | cons next rest =>
          rw [barred, Bool.or_eq_true, List.append_assoc] at hbarred
          rcases hbarred with hprunes | hbelow
          · exact ⟨above ++ [name], next :: rest, by simp, by simp, by simp, hprunes⟩
          · obtain ⟨upper, lower, hsplit, hupper, hlower, hprunes⟩ := ih hbelow
            exact ⟨upper, lower, by rw [← hsplit]; simp, hupper, hlower, hprunes⟩

theorem accepts_of_hidden (hblind : filter.isBlind = true) {rest : List String}
    (hhidden : hidden filter root (root ++ rest) = true) :
    filter.accepts (relative root (root ++ rest)) = false := by
  unfold hidden at hhidden
  rw [List.drop_left] at hhidden
  have hbarred : barred filter root (root ++ []) rest = true := by
    rwa [List.append_nil]
  obtain ⟨upper, lower, hsplit, hupper, hlower, hprunes⟩ := exists_pruned hbarred
  rw [List.nil_append] at hsplit
  obtain ⟨more, hmore⟩ := relative_append root hupper hlower
  rw [hsplit, hmore]
  exact PathFilter.accepts_of_prunes hblind hprunes more

theorem place_of_everything {place : Place} (hplace : place ∈ everything d root) :
    ∃ rest, rest ≠ [] ∧ place = root ++ rest := by
  unfold everything at hplace
  split at hplace
  · exact place_of_filesIn hplace
  · exact absurd hplace List.not_mem_nil

/-- Files are hidden by the pruned directories above them and by nothing else. If the filter is
blind to the made-up entry, pruning a directory rejects every path below it, and the files are
those of the walk that prunes nothing. -/
theorem pruning_hides (d : Disk) (filter : PathFilter) (root : Place) :
    discover d filter root =
        chosen filter root ((everything d root).filter fun place => !hidden filter root place) ∧
      (filter.isBlind = true →
        (∀ directory rest, filter.prunes directory = true →
          filter.accepts (directory ++ "/" ++ rest) = false) ∧
        discover d filter root = chosen filter root (everything d root)) := by
  refine ⟨discover_eq_chosen d filter root, fun hblind => ⟨?_, ?_⟩⟩
  · intro directory rest hprunes
    exact PathFilter.accepts_of_prunes hblind hprunes rest
  · rw [discover_eq_chosen]
    unfold chosen
    -- of what is hidden the filter accepts nothing, so one filter does the work of both
    rw [List.filter_map, List.filter_map, List.filter_filter]
    congr 2
    apply List.filter_congr
    intro place hplace
    obtain ⟨rest, -, rfl⟩ := place_of_everything hplace
    cases hhidden : hidden filter root (root ++ rest) with
    | true =>
        have hrejects := accepts_of_hidden hblind hhidden
        simp [hrejects]
    | false => simp

/-- The patterns for files that others have produced do not see the made-up entry. -/
theorem pruning_hides_produced :
    let d : Disk := ⟨[(["web"], .directory), (["web", "node_modules"], .directory),
      (["web", "node_modules", "index.js"], .file "x".toUTF8 default)]⟩
    ∃ f, PathFilter.read ["**/*.js"] Config.defaultExclude = .ok f ∧ f.isBlind = true ∧
      f.prunes "web/node_modules" = true ∧
      f.accepts "web/node_modules/index.js" = false ∧ f.accepts "web/index.js" = true ∧
      discover d f [] = chosen f [] (everything d []) := by
  intro d
  obtain ⟨f, hread, hfacts⟩ := PathFilter.exists_read ["**/*.js"] Config.defaultExclude
    (fun f => f.isBlind && f.prunes "web/node_modules" && f.accepts "web/index.js")
    (by decide +kernel)
  rw [Bool.and_eq_true, Bool.and_eq_true] at hfacts
  obtain ⟨⟨hblind, hprunes⟩, haccepts⟩ := hfacts
  obtain ⟨hrejects, hsame⟩ := (pruning_hides d f []).2 hblind
  exact ⟨f, hread, hblind, hprunes, hrejects "web/node_modules" "index.js" hprunes, haccepts,
    hsame⟩

/-- A pattern that matches the made-up entry by its first characters prunes a directory of which
it excludes nothing. -/
theorem prunes_accepted :
    ∃ f, PathFilter.read ["**/*.txt"] ["**/__*"] = .ok f ∧ f.prunes "src" = true ∧
      f.accepts "src/a.txt" = true := by
  obtain ⟨f, hread, hfacts⟩ := PathFilter.exists_read ["**/*.txt"] ["**/__*"]
    (fun f => f.prunes "src" && f.accepts "src/a.txt") (by decide +kernel)
  rw [Bool.and_eq_true] at hfacts
  exact ⟨f, hread, hfacts⟩

end Walk

end CodeIndex

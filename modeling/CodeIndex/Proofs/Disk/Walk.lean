import CodeIndex.Proofs.Disk.Names
import CodeIndex.Proofs.Text.Lines
import CodeIndex.Project.Walk
/-!
# Walking a disk

A name leads into a directory, to a file, or nowhere. What a path leads to is an entry of the
disk or the root.
-/

namespace CodeIndex

/-- The entry is a file that can be read. -/
def Entry.isRegular : Entry → Bool
  | .file _ _ => true
  | .store _ => true
  | _ => false

/-- The entry is a file, which need not be one that can be read. -/
def Entry.isFile : Entry → Bool
  | .file _ _ => true
  | .locked _ => true
  | .store _ => true
  | _ => false

theorem Entry.isFile_of_isRegular {e : Entry} (hregular : e.isRegular = true) :
    e.isFile = true := by
  cases e <;> trivial

end CodeIndex

namespace CodeIndex.Disk

variable {d : Disk}

theorem mem_entries_of_found {at_ : Place} {e : Entry} (hne : at_ ≠ [])
    (he : d.entry? at_ = some e) : (at_, e) ∈ d.entries := by
  unfold entry? at he
  rw [if_neg (by simpa using hne)] at he
  obtain ⟨⟨place, e'⟩, hfind, rfl⟩ := Option.map_eq_some_iff.1 he
  have hplace : place = at_ := by simpa using List.find?_some hfind
  rw [← hplace]
  exact List.mem_of_find?_eq_some hfind

theorem entry?_cases {at_ : Place} {e : Entry} (he : d.entry? at_ = some e) :
    e = .directory ∨ (at_, e) ∈ d.entries := by
  by_cases hne : at_ = []
  · rw [hne] at he
    exact Or.inl (Option.some.inj he).symm
  · exact Or.inr (mem_entries_of_found hne he)

theorem mem_children {directory : Place} {name : String} {e : Entry} :
    (name, e) ∈ d.children directory ↔ (directory ++ [name], e) ∈ d.entries := by
  unfold children
  rw [List.mem_filterMap]
  constructor
  · rintro ⟨⟨place, e'⟩, hmem, hchild⟩
    rcases List.eq_nil_or_concat place with rfl | ⟨init, last, rfl⟩
    · simp at hchild
    · rw [List.concat_eq_append] at hchild hmem
      simp only [List.getLast?_append, List.getLast?_singleton, Option.some_or,
        List.dropLast_concat, Option.ite_none_right_eq_some, beq_iff_eq, Option.some.injEq,
        Prod.mk.injEq] at hchild
      obtain ⟨rfl, rfl, rfl⟩ := hchild
      exact hmem
  · intro hmem
    exact ⟨(directory ++ [name], e), hmem, by simp⟩

theorem stat_cases {path : String} {e : Entry} (he : d.stat path = .ok e) :
    e = .directory ∨ ∃ at_, (at_, e) ∈ d.entries := by
  unfold stat at he
  cases hresolve : d.resolve [] path with
  | error fault =>
      rw [hresolve] at he
      cases he
  | ok at_ =>
      rw [hresolve] at he
      simp only [bind, Except.bind] at he
      split at he
      · rename_i e' hentry
        cases he
        exact (entry?_cases hentry).imp_right fun hmem => ⟨at_, hmem⟩
      · cases he

theorem isFile_of_stat {path : String} {e : Entry} (hstat : d.stat path = .ok e) :
    d.isFile path = e.isFile := by
  unfold isFile
  rw [hstat]
  cases e <;> rfl

/-! ## One step -/

section Steps

variable {links : Nat} {at_ : Place} {name : String} {rest : List String}

theorem walk_missing (hname : name ≠ "." ∧ name ≠ "..")
    (hentry : d.entry? (at_ ++ [name]) = none) :
    d.walk links at_ (name :: rest) = .error .notFound := by
  rw [walk]
  simp [hname, hentry]

theorem walk_directory (hname : name ≠ "." ∧ name ≠ "..")
    (hentry : d.entry? (at_ ++ [name]) = some .directory) :
    d.walk links at_ (name :: rest) = d.walk links (at_ ++ [name]) rest := by
  rw [walk]
  simp [hname, hentry]

/-- A file is where a path ends. -/
theorem walk_file (hname : name ≠ "." ∧ name ≠ "..") {e : Entry} (hfile : e.isFile = true)
    (hentry : d.entry? (at_ ++ [name]) = some e) :
    d.walk links at_ (name :: rest) =
      if rest.isEmpty then .ok (at_ ++ [name]) else .error .notDirectory := by
  cases e with
  | directory => cases hfile
  | link target => cases hfile
  | file bytes mtime =>
      rw [walk]
      simp [hname, hentry]
  | locked size =>
      rw [walk]
      simp [hname, hentry]
  | store content =>
      rw [walk]
      simp [hname, hentry]

theorem walk_link (hname : name ≠ "." ∧ name ≠ "..") {target : String}
    (hentry : d.entry? (at_ ++ [name]) = some (.link target)) :
    d.walk (links + 1) at_ (name :: rest) =
      d.walk links (if Path.isAbsolute target then [] else at_) (steps target ++ rest) := by
  rw [walk]
  simp [hname, hentry]

end Steps

/-- The names lead from a directory through directories. -/
def Leads (d : Disk) (at_ : Place) : List String → Prop
  | [] => True
  | name :: rest =>
    (name ≠ "." ∧ name ≠ "..") ∧ d.entry? (at_ ++ [name]) = some .directory ∧
      Leads d (at_ ++ [name]) rest

theorem walk_leads {links : Nat} {at_ : Place} {names rest : List String}
    (hleads : d.Leads at_ names) :
    d.walk links at_ (names ++ rest) = d.walk links (at_ ++ names) rest := by
  induction names generalizing at_ with
  | nil => rw [List.nil_append, List.append_nil]
  | cons name names ih =>
      obtain ⟨hname, hentry, hrest⟩ := hleads
      rw [List.cons_append, walk_directory hname hentry, ih hrest, List.append_assoc,
        List.singleton_append]

theorem leads_append {at_ : Place} {xs ys : List String} :
    d.Leads at_ (xs ++ ys) ↔ d.Leads at_ xs ∧ d.Leads (at_ ++ xs) ys := by
  induction xs generalizing at_ with
  | nil => simp [Leads]
  | cons x xs ih =>
      rw [List.cons_append, Leads, Leads, ih, List.append_assoc, List.singleton_append]
      tauto

/-- Every place on a way through directories is a directory. -/
theorem Leads.entry?_eq {at_ : Place} {names xs : List String} (h : d.Leads at_ names)
    (hne : xs ≠ []) (hpre : xs <+: names) : d.entry? (at_ ++ xs) = some .directory := by
  obtain ⟨ys, rfl⟩ := hpre
  rcases List.eq_nil_or_concat xs with rfl | ⟨init, last, rfl⟩
  · exact absurd rfl hne
  · rw [List.concat_eq_append] at h ⊢
    have hlast := (leads_append.1 (leads_append.1 h).1).2
    rw [← List.append_assoc]
    exact hlast.2.1

/-- No name on the way is a link. -/
def Unlinked (d : Disk) (at_ : Place) (names : List String) : Prop :=
  ∀ above, above <+: names → ∀ target, d.entry? (at_ ++ above) ≠ some (.link target)

theorem unlinked_of_entries (hlinks : ∀ entry ∈ d.entries, ∀ target, entry.2 ≠ .link target)
    (at_ : Place) (names : List String) : d.Unlinked at_ names := by
  intro above _ target hentry
  rcases entry?_cases hentry with hdirectory | hmem
  · cases hdirectory
  · exact hlinks _ hmem target rfl

/-- Without links on the way, names lead to the place that they name or nowhere. -/
theorem eq_of_walk_unlinked {links : Nat} {at_ place : Place} {names : List String}
    (hnames : ∀ name ∈ names, name ≠ "." ∧ name ≠ "..") (hlinks : d.Unlinked at_ names)
    (hwalk : d.walk links at_ names = .ok place) : place = at_ ++ names := by
  induction names generalizing at_ with
  | nil =>
      rw [walk] at hwalk
      cases hwalk
      exact (List.append_nil _).symm
  | cons name names ih =>
      have hname := hnames name List.mem_cons_self
      have hhere := hlinks [name] (List.prefix_append [name] names)
      cases hentry : d.entry? (at_ ++ [name]) with
      | none =>
          rw [walk_missing hname hentry] at hwalk
          cases hwalk
      | some e =>
          have hlast : e.isFile = true → place = at_ ++ name :: names := by
            intro hfile
            rw [walk_file hname hfile hentry] at hwalk
            cases names with
            | nil => exact (Except.ok.inj hwalk).symm
            | cons other names => cases hwalk
          cases e with
          | directory =>
              have hrest : d.Unlinked (at_ ++ [name]) names := by
                intro above habove target
                rw [List.append_assoc]
                exact hlinks (name :: above) (List.cons_prefix_cons.2 ⟨rfl, habove⟩) target
              rw [walk_directory hname hentry] at hwalk
              rw [ih (fun other hother => hnames other (List.mem_cons_of_mem name hother)) hrest
                hwalk, List.append_assoc, List.singleton_append]
          | link target => exact absurd hentry (hhere target)
          | file bytes mtime => exact hlast rfl
          | locked size => exact hlast rfl
          | store content => exact hlast rfl

section Stat

variable {path name : String} {names rest : List String} (habsolute : Path.isAbsolute path = true)
  (hleads : d.Leads [] names) (hname : name ≠ "." ∧ name ≠ "..")

include habsolute

theorem stat_of_steps {ss : List String} (hsteps : steps path = ss) :
    d.stat path = (d.walk maxLinks [] ss).bind fun at_ =>
      match d.entry? at_ with
      | some e => .ok e
      | none => .error .notFound := by
  have hpath : ¬ (path == "") = true := by
    intro hempty
    rw [beq_iff_eq] at hempty
    rw [hempty] at habsolute
    cases habsolute
  unfold stat resolve startOf
  rw [if_neg hpath, if_pos habsolute, hsteps]
  rfl

include hleads hname

theorem stat_missing (hsteps : steps path = names ++ name :: rest)
    (hentry : d.entry? (names ++ [name]) = none) : d.stat path = .error .notFound := by
  rw [stat_of_steps habsolute hsteps, walk_leads hleads, List.nil_append,
    walk_missing hname hentry]
  rfl

theorem stat_of_isFile (hsteps : steps path = names ++ [name]) {e : Entry}
    (hfile : e.isFile = true) (hentry : d.entry? (names ++ [name]) = some e) :
    d.stat path = .ok e := by
  rw [stat_of_steps habsolute hsteps, walk_leads hleads, List.nil_append,
    walk_file hname hfile hentry, List.isEmpty_nil, if_pos rfl]
  simp only [Except.bind]
  rw [hentry]

theorem stat_file (hsteps : steps path = names ++ [name]) {bytes : ByteArray} {mtime : Instant}
    (hentry : d.entry? (names ++ [name]) = some (.file bytes mtime)) :
    d.stat path = .ok (.file bytes mtime) :=
  stat_of_isFile habsolute hleads hname hsteps rfl hentry

end Stat

/-- Without links on the way, a path is the text of the place that it leads to. -/
theorem eq_of_canonical?_unlinked {names : List String} {text : String}
    (hnames : ∀ name ∈ names, Path.IsName name) (hlinks : d.Unlinked [] names)
    (htext : d.canonical? [] (Path.ofNames names) = some text) : text = Path.ofNames names := by
  have habsolute := Path.isAbsolute_ofNames names
  have hpath : ¬ (Path.ofNames names == "") = true := by
    intro hempty
    rw [eq_of_beq hempty] at habsolute
    cases habsolute
  unfold canonical? resolve startOf at htext
  rw [if_neg hpath, if_pos habsolute] at htext
  obtain ⟨place, hplace, rfl⟩ := Option.map_eq_some_iff.1 htext
  have hwalk : d.walk maxLinks [] (steps (Path.ofNames names)) = .ok place := by
    cases hresult : d.walk maxLinks [] (steps (Path.ofNames names)) with
    | error fault =>
        rw [hresult] at hplace
        cases hplace
    | ok reached =>
        rw [hresult] at hplace
        rw [Option.some.inj hplace]
  by_cases hnone : names = []
  · -- the root is the path of no names, and its step stays
    have hsteps : steps (Path.ofNames []) = ["."] := by decide +kernel
    rw [hnone, hsteps, walk, if_pos (by rfl), walk] at hwalk
    rw [hnone, ← Except.ok.inj hwalk]
  · rw [Path.steps_ofNames hnames hnone] at hwalk
    have hsteps := fun name hname => And.intro (hnames name hname).ne_here (hnames name hname).ne_up
    rw [eq_of_walk_unlinked hsteps hlinks hwalk, List.nil_append]

end CodeIndex.Disk

namespace CodeIndex.IgnoreSet

/-- The names that have to do with ignore files. -/
def names : List String :=
  [".ignore", ".gitignore", ".git/info/exclude", ".git", ".jj"]

/-- A directory without ignore files, in which no repository starts. -/
def bare (directory : Place) : IgnoreSet :=
  ⟨directory, [], [], [], false⟩

theorem ofDirectory_eq_bare {d : Disk} {directory : Place}
    (hnone : ∀ name ∈ names, d.stat (Path.join (Path.ofNames directory) name) =
      .error .notFound) : ofDirectory d directory = bare directory := by
  have hrules : ∀ name ∈ names, rulesAt d (Path.join (Path.ofNames directory) name) = [] := by
    intro name hname
    unfold rulesAt
    rw [hnone name hname]
    rfl
  unfold ofDirectory bare
  dsimp only
  rw [hrules ".ignore" (by decide), hrules ".gitignore" (by decide),
    hrules ".git/info/exclude" (by decide)]
  simp [hnone ".git" (by decide), hnone ".jj" (by decide), Except.toOption]

/-- Where no entry has to do with ignore files, there are none. -/
theorem ofDirectory_eq_bare_of_missing {d : Disk} {directory : Place}
    (hleads : d.Leads [] directory) (hnames : ∀ name ∈ directory, Path.IsName name)
    (hnone : ∀ name ∈ [".ignore", ".gitignore", ".git", ".jj"],
      d.entry? (directory ++ [name]) = none) : ofDirectory d directory = bare directory := by
  have hmissing : ∀ name ∈ [".ignore", ".gitignore", ".git", ".jj"], ∀ rest : List String,
      (∀ other ∈ name :: rest, Path.IsName other) →
      d.stat (Path.join (Path.ofNames directory) ("/".intercalate (name :: rest))) =
        .error .notFound := by
    intro name hname rest hrest
    have hall : ∀ other ∈ directory ++ name :: rest, Path.IsName other := by
      intro other hother
      rcases List.mem_append.1 hother with hother | hother
      · exact hnames other hother
      · exact hrest other hother
    have hfirst := hrest name List.mem_cons_self
    rw [Path.join_ofNames (List.cons_ne_nil name rest) fun other hother =>
      ⟨(hall other hother).ne_empty, (hall other hother).not_mem_slash⟩]
    exact Disk.stat_missing (Path.isAbsolute_ofNames _) hleads ⟨hfirst.ne_here, hfirst.ne_up⟩
      (Path.steps_ofNames hall (by simp)) (hnone name hname)
  have hplain : ∀ name ∈ [".ignore", ".gitignore", ".git", ".jj", "info", "exclude"],
      Path.IsName name := by
    intro name hname
    constructor <;> revert name <;> decide
  apply ofDirectory_eq_bare
  intro name hname
  simp only [names, List.mem_cons, List.not_mem_nil, or_false] at hname
  rcases hname with rfl | rfl | rfl | rfl | rfl
  · exact hmissing ".ignore" (by decide) [] fun other hother => hplain other (by grind)
  · exact hmissing ".gitignore" (by decide) [] fun other hother => hplain other (by grind)
  · exact hmissing ".git" (by decide) ["info", "exclude"] fun other hother =>
      hplain other (by grind)
  · exact hmissing ".git" (by decide) [] fun other hother => hplain other (by grind)
  · exact hmissing ".jj" (by decide) [] fun other hother => hplain other (by grind)

theorem ignores_bare (directories : List Place) (at_ : Place) (directory : Bool) :
    ignores (directories.map bare) at_ directory = false := by
  have hverdict : ∀ rules : IgnoreSet → List IgnoreRule, (∀ place, rules (bare place) = []) →
      (directories.map bare).findSome? (fun s =>
        IgnoreRule.verdict? (rules s) (s.pathOf at_) directory) = none := by
    intro rules hrules
    rw [List.findSome?_eq_none_iff]
    intro s hs
    obtain ⟨place, -, rfl⟩ := List.mem_map.1 hs
    rw [hrules]
    rfl
  have hrepository : (directories.map bare).any (·.isRepository) = false := by
    simp [bare]
  unfold ignores
  dsimp only
  rw [hverdict (·.always) fun _ => rfl, hrepository]
  rfl

end CodeIndex.IgnoreSet

namespace CodeIndex.Walk

/-! ## Found files -/

theorem discover_of_filesIn {d : Disk} {filter : PathFilter} {root place : Place}
    (hroot : d.entry? root = some .directory)
    (hfiles : filesIn d filter root (d.entries.length + 1) (setsAbove d root) root = [place])
    (haccepts : filter.accepts (relative root place) = true) :
    discover d filter root = [⟨place, relative root place⟩] := by
  unfold discover
  rw [hroot]
  dsimp only
  rw [hfiles, List.map_singleton]
  simp [haccepts]

theorem perm_discover {d : Disk} {filter : PathFilter} {root : Place}
    (hroot : d.entry? root = some .directory) :
    (discover d filter root).Perm
      (((filesIn d filter root (d.entries.length + 1) (setsAbove d root) root).map
        fun place => FoundFile.mk place (relative root place)).filter
          fun f => filter.accepts f.path) := by
  unfold discover
  rw [hroot]
  exact List.mergeSort_perm _ _

theorem place_of_filesIn {d : Disk} {filter : PathFilter} {root : Place} {depth : Nat}
    {sets : List IgnoreSet} {directory place : Place}
    (hplace : place ∈ filesIn d filter root depth sets directory) :
    ∃ rest, rest ≠ [] ∧ place = directory ++ rest := by
  induction depth generalizing sets directory with
  | zero => simp [filesIn] at hplace
  | succ depth ih =>
      unfold filesIn at hplace
      obtain ⟨⟨name, e⟩, -, hmem⟩ := List.mem_flatMap.1 hplace
      have hhere : ∀ b : Bool, place ∈ (if b then [] else [directory ++ [name]]) →
          ∃ rest, rest ≠ [] ∧ place = directory ++ rest := by
        intro b hb
        cases b with
        | true => simp at hb
        | false => exact ⟨[name], by simp, by simpa using hb⟩
      cases e with
      | directory =>
          dsimp only at hmem
          split at hmem
          · simp at hmem
          · obtain ⟨rest, -, hrest⟩ := ih hmem
            exact ⟨name :: rest, by simp, by simp [hrest]⟩
      | file bytes mtime => exact hhere _ hmem
      | locked size => exact hhere _ hmem
      | store content => exact hhere _ hmem
      | link target => exact hhere _ hmem

theorem place_of_discover {d : Disk} {filter : PathFilter} {root : Place} {f : FoundFile}
    (hf : f ∈ discover d filter root) :
    (∃ rest, rest ≠ [] ∧ f.place = root ++ rest) ∧ f.path = relative root f.place := by
  unfold discover at hf
  rw [List.mem_mergeSort] at hf
  obtain ⟨place, hplace, rfl⟩ := List.mem_map.1 (List.mem_filter.1 hf).1
  refine ⟨?_, rfl⟩
  split at hplace
  · exact place_of_filesIn hplace
  · simp at hplace

/-! ## Paths that lead to their files -/

/-- The names are not empty and hold no slashes, and those below the root hold no
backslashes. -/
def HasPlainNames (root : Place) (f : FoundFile) : Prop :=
  (∀ name ∈ f.place, name ≠ "" ∧ '/' ∉ name.toList) ∧
    ∀ name ∈ f.place.drop root.length, '\\' ∉ name.toList

theorem not_mem_intercalate {c : Char} (hc : c ≠ '/') {names : List String}
    (hnames : ∀ name ∈ names, c ∉ name.toList) : c ∉ ("/".intercalate names).toList := by
  rw [String.toList_intercalate]
  intro hmem
  rcases Text.mem_or_mem_of_mem_intercalate hmem with hseparator | ⟨text, htext, hmem⟩
  · exact hc (List.mem_singleton.1 hseparator)
  · obtain ⟨name, hname, rfl⟩ := List.mem_map.1 htext
    exact hnames name hname hmem

theorem relative_eq {root rest : Place} (hplain : ∀ name ∈ rest, '\\' ∉ name.toList) :
    relative root (root ++ rest) = "/".intercalate rest := by
  have hnone := not_mem_intercalate (by decide) hplain
  unfold relative
  rw [List.drop_left]
  have hsame : ("/".intercalate rest).toList.map (fun c => if c == '\\' then '/' else c) =
      ("/".intercalate rest).toList := by
    refine (List.map_congr_left fun c hc => ?_).trans (List.map_id _)
    rw [if_neg]
    · rfl
    · rw [beq_iff_eq]
      rintro rfl
      exact hnone hc
  rw [hsame, String.ofList_toList]

/-- The path from the root to a place with plain names leads to it. -/
theorem ofNames_append_eq_join {root rest : Place} (hrest : rest ≠ [])
    (hnames : ∀ name ∈ root ++ rest, name ≠ "" ∧ '/' ∉ name.toList)
    (hbelow : ∀ name ∈ rest, '\\' ∉ name.toList) :
    Path.ofNames (root ++ rest) =
      Path.join (Path.ofNames root) (relative root (root ++ rest)) := by
  rw [relative_eq hbelow]
  exact (Path.join_ofNames hrest hnames).symm

/-- The path of a found file with plain names leads to it. -/
theorem ofNames_eq_join {d : Disk} {filter : PathFilter} {root : Place} {f : FoundFile}
    (hf : f ∈ discover d filter root) (hplain : HasPlainNames root f) :
    Path.ofNames f.place = Path.join (Path.ofNames root) f.path := by
  obtain ⟨⟨rest, hrest, hplace⟩, hpath⟩ := place_of_discover hf
  obtain ⟨hnames, hbelow⟩ := hplain
  rw [hplace] at hpath hnames hbelow
  rw [List.drop_left] at hbelow
  rw [hplace, hpath]
  exact ofNames_append_eq_join hrest hnames hbelow

end CodeIndex.Walk

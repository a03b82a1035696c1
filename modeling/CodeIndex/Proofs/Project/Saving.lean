import CodeIndex.Proofs.Disk.Names
import CodeIndex.Proofs.Project.Reaching
import CodeIndex.Proofs.Project.Views
import CodeIndex.Proofs.Store.History
/-!
# Saving a file and scanning its project

A file that is saved is indexed when the filter accepts it and it is not too large. A scan asks for
one thing more: that its walk comes to the file. Both leave a file in the store, or out of it,
whatever was there before.
-/

namespace CodeIndex.Project

/-! ## Plain paths -/

/-- The path from the root of the place with these names below it. -/
def pathTo (p : Project) (rest : List String) : String :=
  Walk.relative p.root (p.root ++ rest)

/-- Names below the root of a project that its paths tell apart. -/
structure IsPlain (p : Project) (rest : List String) : Prop where
  ne_nil : rest ≠ []
  names : ∀ name ∈ p.root ++ rest, Path.IsName name
  noBackslash : ∀ name ∈ rest, '\\' ∉ name.toList

namespace IsPlain

variable {p : Project} {rest : List String} (h : p.IsPlain rest)

include h

theorem not_mem_slash : ∀ name ∈ rest, '/' ∉ name.toList := fun name hname =>
  (h.names name (List.mem_append_right _ hname)).not_mem_slash

theorem join_pathTo : Path.join p.rootPath (p.pathTo rest) = Path.ofNames (p.root ++ rest) := by
  have hnames : ∀ name ∈ p.root ++ rest, name ≠ "" ∧ '/' ∉ name.toList := fun name hname =>
    ⟨(h.names name hname).ne_empty, (h.names name hname).not_mem_slash⟩
  exact (Walk.ofNames_append_eq_join h.ne_nil hnames h.noBackslash).symm

theorem relative_eq {d : Disk} {text : String}
    (htext : resolved d (Path.join p.rootPath text) = Path.ofNames (p.root ++ rest)) :
    p.relative d text = .ok (p.pathTo rest) := by
  obtain ⟨name, more, hrest⟩ := List.exists_cons_of_ne_nil h.ne_nil
  have hroot : ∀ other ∈ p.root, Path.IsName other := fun other hother =>
    h.names other (List.mem_append_left _ hother)
  have hbelow : ∀ other ∈ name :: more, Path.IsName other := fun other hother =>
    h.names other (List.mem_append_right _ (by rw [hrest]; exact hother))
  unfold Project.relative
  rw [htext, hrest, Path.within?_ofNames hroot (hbelow name List.mem_cons_self)
    fun other hother => hbelow other (List.mem_cons_of_mem name hother)]
  unfold pathTo Walk.relative
  rw [List.drop_left]

/-- Plain paths are the same only if their names are. -/
theorem pathTo_inj {other : List String} (hother : p.IsPlain other)
    (heq : p.pathTo other = p.pathTo rest) : other = rest := by
  unfold pathTo at heq
  rw [Walk.relative_eq h.noBackslash, Walk.relative_eq hother.noBackslash] at heq
  exact Path.intercalate_inj hother.not_mem_slash h.not_mem_slash hother.ne_nil h.ne_nil heq

end IsPlain

/-! ## Regular files -/

/-- A regular file with these names below the root of a project. -/
structure HasFile (p : Project) (d : Disk) (rest : List String) (e : Entry) : Prop where
  ne_nil : rest ≠ []
  names : ∀ name ∈ p.root ++ rest, Path.IsName name
  noBackslash : ∀ name ∈ rest, '\\' ∉ name.toList
  leads : d.Leads [] (p.root ++ rest).dropLast
  entry : d.entry? (p.root ++ rest) = some e
  regular : e.isRegular = true

/-- The filter accepts the file, and it is not too large. -/
def Wants (p : Project) (rest : List String) (e : Entry) : Prop :=
  p.filter.accepts (p.pathTo rest) = true ∧ Disk.sizeOf e ≤ p.config.maxFileBytes

namespace HasFile

variable {p : Project} {d : Disk} {rest : List String} {e : Entry} (h : p.HasFile d rest e)

include h

theorem resolve_ofNames :
    d.resolve [] (Path.ofNames (p.root ++ rest)) = .ok (p.root ++ rest) := by
  have hne : p.root ++ rest ≠ [] := by simp [h.ne_nil]
  have hsplit := List.dropLast_append_getLast hne
  have hlast := h.names _ (List.getLast_mem hne)
  have habsolute := Path.isAbsolute_ofNames (p.root ++ rest)
  have hpath : ¬ (Path.ofNames (p.root ++ rest) == "") = true := by
    intro hempty
    rw [eq_of_beq hempty] at habsolute
    cases habsolute
  have hentry : d.entry? ((p.root ++ rest).dropLast ++ [(p.root ++ rest).getLast hne]) =
      some e := by
    rw [hsplit]
    exact h.entry
  have hwalk : d.walk Disk.maxLinks [] (p.root ++ rest) = .ok (p.root ++ rest) := by
    rw [← hsplit, Disk.walk_leads h.leads, List.nil_append]
    exact Disk.walk_file ⟨hlast.ne_here, hlast.ne_up⟩ (Entry.isFile_of_isRegular h.regular) hentry
  unfold Disk.resolve Disk.startOf
  rw [if_neg hpath, if_pos habsolute, Path.steps_ofNames h.names hne]
  exact hwalk

theorem stat_ofNames : d.stat (Path.ofNames (p.root ++ rest)) = .ok e := by
  unfold Disk.stat
  rw [h.resolve_ofNames]
  simp only [bind, Except.bind]
  rw [h.entry]

theorem isPlain : p.IsPlain rest where
  ne_nil := h.ne_nil
  names := h.names
  noBackslash := h.noBackslash

theorem isFile_ofNames : d.isFile (Path.ofNames (p.root ++ rest)) = true :=
  (Disk.isFile_of_stat h.stat_ofNames).trans (Entry.isFile_of_isRegular h.regular)

theorem relative_eq {text : String}
    (htext : d.resolve [] (Path.join p.rootPath text) = .ok (p.root ++ rest)) :
    p.relative d text = .ok (p.pathTo rest) := by
  apply h.isPlain.relative_eq
  unfold resolved Disk.canonical?
  rw [htext]
  rfl

/-- A regular file is too large, or it is read. -/
theorem reading_eq :
    p.config.maxFileBytes < Disk.sizeOf e ∧
        p.reading d (Path.ofNames (p.root ++ rest)) = .tooLarge ∨
      Disk.sizeOf e ≤ p.config.maxFileBytes ∧
        ∃ bytes, p.reading d (Path.ofNames (p.root ++ rest)) = .content bytes := by
  have hcontent : ∃ bytes mtime, Disk.contentOf e = .ok (bytes, mtime) := by
    have hregular := h.regular
    cases e with
    | directory => cases hregular
    | link target => cases hregular
    | locked size => cases hregular
    | file bytes mtime => exact ⟨bytes, mtime.withoutLeap, rfl⟩
    | store content => exact ⟨.empty, default, rfl⟩
  obtain ⟨bytes, mtime, hbytes⟩ := hcontent
  unfold reading
  rw [h.stat_ofNames]
  dsimp only
  by_cases hsize : p.config.maxFileBytes < Disk.sizeOf e
  · rw [if_pos hsize]
    exact Or.inl ⟨hsize, rfl⟩
  · rw [if_neg hsize, hbytes]
    exact Or.inr ⟨Nat.le_of_not_lt hsize, bytes, rfl⟩

/-- If no name below the root holds a backslash, no other file is found under the path of a
file. -/
theorem alone
    (hplain : ∀ entry ∈ d.entries, ∀ name ∈ entry.1.drop p.root.length,
      '/' ∉ name.toList ∧ '\\' ∉ name.toList) :
    ∀ f ∈ p.foundAt d (p.pathTo rest), f.place = p.root ++ rest := by
  intro f hf
  obtain ⟨hmem, hpath⟩ := List.mem_filter.1 hf
  rw [beq_iff_eq] at hpath
  obtain ⟨⟨other, hother, hplace⟩, hrelative⟩ := Walk.place_of_discover hmem
  have hentry : ∃ e, (f.place, e) ∈ d.entries := by
    rw [Walk.discover_eq_chosen, Walk.mem_chosen, List.mem_filter] at hmem
    have hplaces := hmem.1.1
    unfold Walk.everything at hplaces
    split at hplaces
    · exact Walk.mem_entries_of_filesIn hplaces
    · exact absurd hplaces List.not_mem_nil
  obtain ⟨e', he'⟩ := hentry
  have hnames := hplain _ he'
  dsimp only at hnames
  rw [hplace, List.drop_left] at hnames
  have hsame : "/".intercalate other = "/".intercalate rest := by
    rw [hrelative, hplace, Walk.relative_eq fun name hname => (hnames name hname).2] at hpath
    rw [hpath]
    unfold pathTo
    exact Walk.relative_eq h.noBackslash
  rw [hplace, Path.intercalate_inj (fun name hname => (hnames name hname).1) h.isPlain.not_mem_slash
    hother
    h.ne_nil hsame]

end HasFile

/-! ## After a save -/

theorem isSome_file?_iff {s : Store} {path : String} :
    (s.file? path).isSome = true ↔ s.view path ≠ none := by
  rw [ne_eq, Store.view_eq_none_iff, Option.isSome_iff_ne_none]

theorem reviewed_tooLarge (p : Project) (grammar : Grammar) (force : Bool) (language : String)
    (v : Option FileView) : p.reviewed grammar force language v .tooLarge = none := rfl

theorem reviewed_content_ne_none (p : Project) (grammar : Grammar) (force : Bool)
    (language : String) (v : Option FileView) (bytes : ByteArray) :
    p.reviewed grammar force language v (.content bytes) ≠ none := by
  rw [reviewed]
  split
  · rename_i hsame
    rw [Bool.and_eq_true] at hsame
    rintro rfl
    cases hsame.2
  · exact Option.some_ne_none _

variable {p : Project} {env : Surroundings} {rest : List String} {e : Entry} {s : Store}

/-- A regular file that is indexed is in the store unless it is too large. -/
theorem HasFile.indexFile (h : p.HasFile env.disk rest e) (hsound : s.Sound) (force : Bool) :
    ∃ saved outcome,
      p.indexFile env (some s) force (Path.ofNames (p.root ++ rest)) (p.pathTo rest) =
        .ok (saved, outcome) ∧
      ((saved.file? (p.pathTo rest)).isSome = true ↔
        Disk.sizeOf e ≤ p.config.maxFileBytes) := by
  have hview := (p.indexFile_spec env hsound force (Path.ofNames (p.root ++ rest))
    (p.pathTo rest)).2 (p.pathTo rest)
  rw [if_pos rfl] at hview
  obtain ⟨hsize, hread⟩ | ⟨hsize, bytes, hread⟩ := h.reading_eq
  · have hindexed := indexFile_of_tooLarge hread s force (p.pathTo rest)
    refine ⟨_, _, hindexed, ?_⟩
    rw [hindexed, hread, reviewed_tooLarge] at hview
    rw [isSome_file?_iff]
    constructor
    · intro hsome
      exact absurd hview hsome
    · intro hle
      omega
  · have hindexed : ∃ saved outcome,
        p.indexFile env (some s) force (Path.ofNames (p.root ++ rest)) (p.pathTo rest) =
          .ok (saved, outcome) := by
      obtain ⟨mtime, heq⟩ := indexFile_of_content hread s force (p.pathTo rest)
      rw [heq]
      split
      · exact ⟨_, _, rfl⟩
      · exact ⟨_, _, rfl⟩
    obtain ⟨saved, outcome, hsaved⟩ := hindexed
    refine ⟨saved, outcome, hsaved, ?_⟩
    rw [hsaved, hread] at hview
    have hsome : saved.view (p.pathTo rest) ≠ none := by
      rw [show saved.view (p.pathTo rest) = _ from hview]
      exact reviewed_content_ne_none p _ _ _ _ bytes
    rw [isSome_file?_iff]
    exact ⟨fun _ => hsize, fun _ => hsome⟩

/-- A saved file is in the store if the filter accepts it and it is not too large. -/
theorem HasFile.reindex (h : p.HasFile env.disk rest e) (hsound : s.Sound) {text : String}
    (htext : env.disk.resolve [] (Path.join p.rootPath text) = .ok (p.root ++ rest)) :
    ∃ saved outcome, p.reindex env (some s) text = .ok (saved, outcome) ∧
      ((saved.file? (p.pathTo rest)).isSome = true ↔ p.Wants rest e) := by
  unfold Project.reindex Wants
  rw [h.relative_eq htext]
  simp only [bind, Except.bind]
  rw [h.isPlain.join_pathTo, h.isFile_ofNames]
  by_cases haccepts : p.filter.accepts (p.pathTo rest) = true
  · obtain ⟨saved, outcome, hsaved, hiff⟩ := h.indexFile hsound false
    refine ⟨saved, outcome, ?_, ?_⟩
    · rw [haccepts]
      exact hsaved
    · rw [hiff]
      exact ⟨fun hsize => ⟨haccepts, hsize⟩, fun hwants => hwants.2⟩
  · rw [Bool.not_eq_true] at haccepts
    rw [haccepts]
    have hgone := hsound.file?_deleteFile (p.pathTo rest)
    refine ⟨(s.deleteFile (p.pathTo rest)).1, _, congrArg Except.ok (dropFile_eq s _), ?_⟩
    rw [hgone]
    simp

/-! ## After a scan -/

/-- The last of the files found under a path decides; if they are one and the same regular file,
it is in the store unless it is too large. -/
theorem HasFile.reviewedAll_ne_none_iff (h : p.HasFile env.disk rest e) (force : Bool)
    (v : Option FileView) {fs : List FoundFile} (hne : fs ≠ [])
    (halone : ∀ f ∈ fs, f.place = p.root ++ rest) :
    p.reviewedAll env.disk env.grammar force v fs ≠ none ↔
      Disk.sizeOf e ≤ p.config.maxFileBytes := by
  obtain ⟨before, last, rfl⟩ : ∃ before last, fs = before ++ [last] :=
    ⟨fs.dropLast, fs.getLast hne, (List.dropLast_append_getLast hne).symm⟩
  have hlast : last.place = p.root ++ rest := halone last (by simp)
  unfold reviewedAll
  rw [List.foldl_append, List.foldl_cons, List.foldl_nil, hlast]
  obtain ⟨hsize, hread⟩ | ⟨hsize, bytes, hread⟩ := h.reading_eq
  · rw [hread, reviewed_tooLarge]
    constructor
    · intro hnone
      exact absurd rfl hnone
    · intro hle
      omega
  · rw [hread]
    exact ⟨fun _ => hsize, fun _ => reviewed_content_ne_none p _ _ _ _ bytes⟩

/-- A file is in the store after a scan if the filter accepts it, it is not too large and the walk
comes to it. -/
theorem HasFile.scan (h : p.HasFile env.disk rest e) (hsound : s.Sound) (force : Bool)
    (halone : ∀ f ∈ p.foundAt env.disk (p.pathTo rest), f.place = p.root ++ rest) :
    ∃ scanned, (p.scan env (some s) force).store = some scanned ∧
      ((scanned.file? (p.pathTo rest)).isSome = true ↔
        p.Wants rest e ∧ Walk.passedOver env.disk p.filter p.root rest = false) := by
  obtain ⟨scanned, hscanned, -, hview⟩ := p.scan_spec env force hsound
  refine ⟨scanned, hscanned, ?_⟩
  have hfile : e ≠ .directory := by
    rintro rfl
    exact absurd h.regular Bool.false_ne_true
  have hfound : ⟨p.root ++ rest, p.pathTo rest⟩ ∈
        Walk.discover env.disk p.filter p.root ↔
      p.filter.accepts (p.pathTo rest) = true ∧
        Walk.passedOver env.disk p.filter p.root rest = false :=
    Walk.mem_discover h.ne_nil h.leads h.entry hfile
  have hnonempty : p.foundAt env.disk (p.pathTo rest) ≠ [] ↔
      p.filter.accepts (p.pathTo rest) = true ∧
        Walk.passedOver env.disk p.filter p.root rest = false := by
    rw [← hfound]
    constructor
    · intro hne
      obtain ⟨f, hf⟩ := List.exists_mem_of_ne_nil _ hne
      have hplace := halone f hf
      obtain ⟨hmem, hpath⟩ := List.mem_filter.1 hf
      rw [beq_iff_eq] at hpath
      rw [← hplace, ← hpath]
      exact hmem
    · intro hmem
      exact List.ne_nil_of_mem (List.mem_filter.2 ⟨hmem, beq_self_eq_true _⟩)
  rw [isSome_file?_iff, hview]
  unfold Project.scanned Wants
  -- a path under which nothing is found is removed as stale
  by_cases hnone : p.foundAt env.disk (p.pathTo rest) = []
  · rw [hnone]
    have hmissed := mt hnonempty.2 (not_not.2 hnone)
    constructor
    · intro habsurd
      exact absurd rfl habsurd
    · rintro ⟨⟨haccepts, -⟩, hreached⟩
      exact absurd ⟨haccepts, hreached⟩ hmissed
  · obtain ⟨haccepts, hreached⟩ := hnonempty.1 hnone
    rw [if_neg (by simpa using hnone), h.reviewedAll_ne_none_iff force _ hnone halone]
    exact ⟨fun hsize => ⟨⟨haccepts, hsize⟩, hreached⟩, fun hboth => hboth.1.2⟩

/-- A file is in the store after it is saved if the filter accepts it and it is not too large, and
after a scan if moreover the walk comes to it. The two agree unless the walk passes over a file
that the project wants. -/
theorem saved_and_scanned (p : Project) (env : Surroundings) (ops : List Store.Operation)
    {rest : List String} {e : Entry} (h : p.HasFile env.disk rest e) {text : String}
    (htext : env.disk.resolve [] (Path.join p.rootPath text) = .ok (p.root ++ rest))
    (halone : ∀ f ∈ p.foundAt env.disk (p.pathTo rest), f.place = p.root ++ rest) :
    ∃ saved outcome scanned,
      p.reindex env (some (Store.history ops)) text = .ok (saved, outcome) ∧
      (p.scan env (some (Store.history ops)) false).store = some scanned ∧
      ((saved.file? (p.pathTo rest)).isSome = true ↔ p.Wants rest e) ∧
      ((scanned.file? (p.pathTo rest)).isSome = true ↔
        p.Wants rest e ∧ Walk.passedOver env.disk p.filter p.root rest = false) ∧
      (((saved.file? (p.pathTo rest)).isSome = true ↔
          (scanned.file? (p.pathTo rest)).isSome = true) ↔
        (p.Wants rest e → Walk.passedOver env.disk p.filter p.root rest = false)) := by
  have hsound := Store.sound_history ops
  obtain ⟨saved, outcome, hsaved, hsavedIff⟩ := h.reindex hsound htext
  obtain ⟨scanned, hscanned, hscannedIff⟩ := h.scan hsound false halone
  refine ⟨saved, outcome, scanned, hsaved, hscanned, hsavedIff, hscannedIff, ?_⟩
  rw [hsavedIff, hscannedIff]
  exact iff_self_and

/-! ## Two projects of one file -/

/-- A project that wants every file. -/
def openProject : Project :=
  ⟨[], {}, ⟨[⟨[.anyStart]⟩], []⟩⟩

/-- A file and nothing else. -/
def plainDisk : Disk :=
  ⟨[(["a.txt"], .file "x".toUTF8 default)]⟩

/-- A file with an ignore file that names it. -/
def ignoringDisk : Disk :=
  ⟨[([".ignore"], .file "a.txt".toUTF8 default), (["a.txt"], .file "x".toUTF8 default)]⟩

theorem pathTo_open : openProject.pathTo ["a.txt"] = "a.txt" := by decide +kernel

theorem wants_open : openProject.Wants ["a.txt"] (.file "x".toUTF8 default) := by
  unfold Wants
  rw [pathTo_open]
  decide +kernel

theorem hasFile_open {d : Disk} (hentry : d.entry? ["a.txt"] = some (.file "x".toUTF8 default)) :
    openProject.HasFile d ["a.txt"] (.file "x".toUTF8 default) where
  ne_nil := List.cons_ne_nil _ _
  names := by
    intro name hname
    rw [List.mem_singleton.1 hname]
    exact ⟨by decide, by decide, by decide, by decide⟩
  noBackslash := by decide
  leads := trivial
  entry := hentry
  regular := rfl

theorem passedOver_plain :
    Walk.passedOver plainDisk openProject.filter [] ["a.txt"] = false := by
  have hbare : IgnoreSet.ofDirectory plainDisk [] = IgnoreSet.bare [] := by
    have hleads : plainDisk.Leads [] [] := trivial
    exact IgnoreSet.ofDirectory_eq_bare_of_missing hleads (by simp)
      (by simp [plainDisk, Disk.entry?])
  have hsets : Walk.setsAbove plainDisk [] = [[]].map IgnoreSet.bare := by
    simp [Walk.setsAbove, hbare]
  unfold Walk.passedOver Walk.overlooked Walk.ignored
  rw [hsets, IgnoreSet.ignores_bare]
  rfl

theorem passedOver_ignoring :
    Walk.passedOver ignoringDisk openProject.filter [] ["a.txt"] = true := by
  have hleads : ignoringDisk.Leads [] [] := trivial
  have hignore : ignoringDisk.stat "/.ignore" = .ok (.file "a.txt".toUTF8 default) :=
    Disk.stat_file rfl hleads (by decide) rfl rfl
  have hmissing : ∀ name ∈ [".gitignore", ".git/info/exclude", ".git", ".jj"],
      ignoringDisk.stat (Path.join (Path.ofNames []) name) = .error .notFound := by
    intro name hname
    simp only [List.mem_cons, List.not_mem_nil, or_false] at hname
    rcases hname with rfl | rfl | rfl | rfl <;>
      exact Disk.stat_missing rfl hleads (by decide) rfl rfl
  have hset : IgnoreSet.ofDirectory ignoringDisk [] =
      ⟨[], IgnoreRule.ofBytes "a.txt".toUTF8.toList, [], [], false⟩ := by
    have hpath : Path.join (Path.ofNames []) ".ignore" = "/.ignore" := by decide +kernel
    unfold IgnoreSet.ofDirectory IgnoreSet.rulesAt
    dsimp only
    rw [hpath, hignore, hmissing ".gitignore" (by decide),
      hmissing ".git/info/exclude" (by decide)]
    simp [hmissing ".git" (by decide), hmissing ".jj" (by decide), Except.toOption, Except.bind,
      Disk.contentOf]
  have hsets : Walk.setsAbove ignoringDisk [] =
      [⟨[], IgnoreRule.ofBytes "a.txt".toUTF8.toList, [], [], false⟩] := by
    simp [Walk.setsAbove, hset]
  unfold Walk.passedOver Walk.overlooked Walk.ignored
  rw [hsets]
  decide +kernel

theorem alone_open {d : Disk} (hentry : d.entry? ["a.txt"] = some (.file "x".toUTF8 default))
    (hplain : ∀ entry ∈ d.entries, ∀ name ∈ entry.1,
      '/' ∉ name.toList ∧ '\\' ∉ name.toList) :
    ∀ f ∈ openProject.foundAt d (openProject.pathTo ["a.txt"]), f.place = ["a.txt"] :=
  (hasFile_open hentry).alone hplain

/-- A file that nothing passes over is in the store after a save and after a scan. -/
theorem saved_and_scanned_plain :
    let env : Surroundings := ⟨plainDisk, fun _ _ => none, default⟩
    ∃ saved outcome scanned,
      openProject.reindex env (some (Store.history [])) "a.txt" = .ok (saved, outcome) ∧
      (openProject.scan env (some (Store.history [])) false).store = some scanned ∧
      (saved.file? "a.txt").isSome = true ∧ (scanned.file? "a.txt").isSome = true := by
  intro env
  have h : openProject.HasFile env.disk ["a.txt"] (.file "x".toUTF8 default) := hasFile_open rfl
  have halone := alone_open (d := plainDisk) rfl (by decide)
  have htext : env.disk.resolve [] (Path.join openProject.rootPath "a.txt") =
      .ok (openProject.root ++ ["a.txt"]) := by
    rw [← pathTo_open, h.isPlain.join_pathTo]
    exact h.resolve_ofNames
  obtain ⟨saved, outcome, scanned, hsaved, hscanned, hsavedIff, hscannedIff, -⟩ :=
    saved_and_scanned openProject env [] h htext halone
  rw [pathTo_open] at hsavedIff hscannedIff
  exact ⟨saved, outcome, scanned, hsaved, hscanned, hsavedIff.2 wants_open,
    hscannedIff.2 ⟨wants_open, passedOver_plain⟩⟩

/-- An ignored file is in the store after a save and not after a scan. -/
theorem scan_misses_saved :
    let env : Surroundings := ⟨ignoringDisk, fun _ _ => none, default⟩
    ∃ saved outcome scanned,
      openProject.reindex env (some (Store.history [])) "a.txt" = .ok (saved, outcome) ∧
      (openProject.scan env (some (Store.history [])) false).store = some scanned ∧
      (saved.file? "a.txt").isSome = true ∧ (scanned.file? "a.txt").isSome = false := by
  intro env
  have hsound := Store.sound_history []
  have h : openProject.HasFile env.disk ["a.txt"] (.file "x".toUTF8 default) := hasFile_open rfl
  have halone := alone_open (d := ignoringDisk) rfl (by decide)
  have htext : env.disk.resolve [] (Path.join openProject.rootPath "a.txt") =
      .ok (openProject.root ++ ["a.txt"]) := by
    rw [← pathTo_open, h.isPlain.join_pathTo]
    exact h.resolve_ofNames
  obtain ⟨saved, outcome, hsaved, hsavedIff⟩ := h.reindex hsound htext
  obtain ⟨scanned, hscanned, hscannedIff⟩ := h.scan hsound false halone
  rw [pathTo_open] at hsavedIff hscannedIff
  refine ⟨saved, outcome, scanned, hsaved, hscanned, hsavedIff.2 wants_open, ?_⟩
  rw [← Bool.not_eq_true, hscannedIff]
  rintro ⟨-, hreached⟩
  have hpassed := passedOver_ignoring
  rw [show Walk.passedOver ignoringDisk openProject.filter [] ["a.txt"] = false from hreached]
    at hpassed
  cases hpassed

end CodeIndex.Project

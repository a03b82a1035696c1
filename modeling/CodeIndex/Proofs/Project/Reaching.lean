import CodeIndex.Proofs.Project.Pruning
/-!
# Files that a walk reaches

A walk that prunes nothing comes to every file that lies below its directory, unless an ignore
file says otherwise of the file or of a directory on the way to it. Every entry on the way is an
entry of the disk, so the walk goes deep enough.
-/

namespace CodeIndex.Walk

variable {d : Disk} {filter : PathFilter} {root directory : Place}

/-! ## The ignore files on the way -/

theorem setsAbove_concat (d : Disk) (directory : Place) (name : String) :
    setsAbove d (directory ++ [name]) =
      .ofDirectory d (directory ++ [name]) :: setsAbove d directory := by
  have htake : ∀ n ∈ List.range (directory.length + 1),
      IgnoreSet.ofDirectory d ((directory ++ [name]).take n) =
        IgnoreSet.ofDirectory d (directory.take n) := by
    intro n hn
    rw [List.mem_range] at hn
    rw [List.take_append_of_le_length (by omega)]
  unfold setsAbove
  rw [List.length_append, List.length_singleton, List.range_succ, List.map_append,
    List.map_congr_left htake, List.reverse_append, List.map_singleton,
    List.take_of_length_le (by simp)]
  rfl

/-- An ignore file says that the entry is to be passed over. -/
def ignored (d : Disk) (directory : Place) (name : String) (isDirectory : Bool) : Bool :=
  IgnoreSet.ignores (setsAbove d directory) (directory ++ [name]) isDirectory

/-- The file with these names below a directory is ignored, or a directory on the way to it. -/
def overlooked (d : Disk) (directory : Place) : List String → Bool
  | [] => false
  | [name] => ignored d directory name false
  | name :: next :: rest =>
    ignored d directory name true || overlooked d (directory ++ [name]) (next :: rest)

/-! ## Members of a walk -/

theorem mem_filesIn {depth : Nat} {sets : List IgnoreSet} {place : Place} :
    place ∈ filesIn d filter root (depth + 1) sets directory ↔
      ∃ name e, (directory ++ [name], e) ∈ d.entries ∧
        (e = .directory ∧ IgnoreSet.ignores sets (directory ++ [name]) true = false ∧
            filter.prunes (relative root (directory ++ [name])) = false ∧
            place ∈ filesIn d filter root depth
              (.ofDirectory d (directory ++ [name]) :: sets) (directory ++ [name]) ∨
          e ≠ .directory ∧ IgnoreSet.ignores sets (directory ++ [name]) false = false ∧
            place = directory ++ [name]) := by
  have hfile : ∀ name : String,
      place ∈ (if IgnoreSet.ignores sets (directory ++ [name]) false then []
        else [directory ++ [name]]) ↔
      IgnoreSet.ignores sets (directory ++ [name]) false = false ∧
        place = directory ++ [name] := by
    intro name
    cases IgnoreSet.ignores sets (directory ++ [name]) false <;> simp
  have hdirectory : ∀ name : String,
      place ∈ (if IgnoreSet.ignores sets (directory ++ [name]) true ||
          filter.prunes (relative root (directory ++ [name])) then []
        else filesIn d filter root depth (.ofDirectory d (directory ++ [name]) :: sets)
          (directory ++ [name])) ↔
      IgnoreSet.ignores sets (directory ++ [name]) true = false ∧
        filter.prunes (relative root (directory ++ [name])) = false ∧
        place ∈ filesIn d filter root depth (.ofDirectory d (directory ++ [name]) :: sets)
          (directory ++ [name]) := by
    intro name
    cases IgnoreSet.ignores sets (directory ++ [name]) true <;>
      cases filter.prunes (relative root (directory ++ [name])) <;> simp
  rw [filesIn, List.mem_flatMap]
  constructor
  · rintro ⟨⟨name, e⟩, hchild, hmem⟩
    refine ⟨name, e, Disk.mem_children.1 hchild, ?_⟩
    cases e with
    | directory => exact Or.inl ⟨rfl, (hdirectory name).1 hmem⟩
    | file bytes mtime => exact Or.inr ⟨by simp, (hfile name).1 hmem⟩
    | locked size => exact Or.inr ⟨by simp, (hfile name).1 hmem⟩
    | store content => exact Or.inr ⟨by simp, (hfile name).1 hmem⟩
    | link target => exact Or.inr ⟨by simp, (hfile name).1 hmem⟩
  · rintro ⟨name, e, hentry, hplace⟩
    refine ⟨(name, e), Disk.mem_children.2 hentry, ?_⟩
    rcases hplace with ⟨rfl, hbelow⟩ | ⟨hne, hhere⟩
    · exact (hdirectory name).2 hbelow
    · cases e with
      | directory => exact absurd rfl hne
      | file bytes mtime => exact (hfile name).2 hhere
      | locked size => exact (hfile name).2 hhere
      | store content => exact (hfile name).2 hhere
      | link target => exact (hfile name).2 hhere

/-- What a walk finds are entries of the disk. -/
theorem mem_entries_of_filesIn {depth : Nat} {sets : List IgnoreSet} {place : Place}
    (hplace : place ∈ filesIn d filter root depth sets directory) :
    ∃ e, (place, e) ∈ d.entries := by
  induction depth generalizing sets directory with
  | zero => simp [filesIn] at hplace
  | succ depth ih =>
      obtain ⟨name, e, hentry, ⟨-, -, -, hbelow⟩ | ⟨-, -, rfl⟩⟩ := mem_filesIn.1 hplace
      · exact ih hbelow
      · exact ⟨e, hentry⟩

/-- By induction on the names that lead from the directory to the file. -/
theorem mem_filesIn_blank {depth : Nat} {rest : List String} {e : Entry} (hrest : rest ≠ [])
    (hleads : d.Leads directory rest.dropLast) (hentry : d.entry? (directory ++ rest) = some e)
    (hfile : e ≠ .directory) (hdepth : rest.length ≤ depth) :
    directory ++ rest ∈ filesIn d .blank root depth (setsAbove d directory) directory ↔
      overlooked d directory rest = false := by
  induction rest generalizing directory depth with
  | nil => exact absurd rfl hrest
  | cons name rest ih =>
      obtain ⟨depth, rfl⟩ : ∃ n, depth = n + 1 := by
        rw [List.length_cons] at hdepth
        exact ⟨depth - 1, by omega⟩
      rw [mem_filesIn]
      cases rest with
      | nil =>
          rw [overlooked, ignored]
          constructor
          · rintro ⟨other, e', -, ⟨-, -, -, hmem⟩ | ⟨-, hkept, hplace⟩⟩
            · obtain ⟨more, hmore, hplace⟩ := place_of_filesIn hmem
              rw [List.append_assoc, List.append_cancel_left_eq, List.singleton_append,
                List.cons.injEq] at hplace
              exact absurd hplace.2.symm hmore
            · rw [hplace]
              exact hkept
          · intro hkept
            have hmem := Disk.mem_entries_of_found (by simp) hentry
            exact ⟨name, e, hmem, Or.inr ⟨hfile, hkept, rfl⟩⟩
      | cons next rest =>
          rw [List.dropLast_cons_cons] at hleads
          obtain ⟨-, hdirectory, hbelow⟩ := hleads
          have hsplit : directory ++ name :: next :: rest =
              (directory ++ [name]) ++ next :: rest := by simp
          rw [hsplit] at hentry ⊢
          have hstep : (directory ++ [name]) ++ next :: rest ∈
              filesIn d .blank root depth (setsAbove d (directory ++ [name]))
                (directory ++ [name]) ↔
              overlooked d (directory ++ [name]) (next :: rest) = false :=
            ih (List.cons_ne_nil next rest) hbelow hentry (by simpa using hdepth)
          rw [overlooked, ignored, Bool.or_eq_false_iff, ← hstep, setsAbove_concat]
          constructor
          · rintro ⟨other, e', -, ⟨-, hkept, -, hmem⟩ | ⟨-, -, hplace⟩⟩
            · obtain ⟨more, -, hplace⟩ := place_of_filesIn hmem
              -- the file is below one child of the directory only
              have hname : other = name := by
                rw [List.append_assoc, List.append_assoc, List.append_cancel_left_eq,
                  List.singleton_append, List.singleton_append, List.cons.injEq] at hplace
                exact hplace.1.symm
              rw [hname] at hkept hmem
              exact ⟨hkept, hmem⟩
            · rw [List.append_assoc, List.append_cancel_left_eq] at hplace
              cases hplace
          · rintro ⟨hkept, hmem⟩
            have hentries := Disk.mem_entries_of_found (by simp) hdirectory
            exact ⟨name, .directory, hentries,
              Or.inl ⟨rfl, hkept, PathFilter.prunes_blank _, hmem⟩⟩

/-- The places on the way to an entry are so many entries of the disk. -/
theorem length_le_entries {rest : List String} {e : Entry}
    (hleads : d.Leads directory rest.dropLast)
    (hentry : d.entry? (directory ++ rest) = some e) : rest.length ≤ d.entries.length := by
  -- the places are told apart by their lengths
  let places := (List.range rest.length).map fun n => directory ++ rest.take (n + 1)
  have hnodup : places.Nodup := by
    refine List.nodup_range.map_on ?_
    intro n hn m hm heq
    have hlength := congrArg List.length heq
    rw [List.mem_range] at hn hm
    simp only [List.length_append, List.length_take] at hlength
    omega
  have hsubset : places ⊆ d.entries.map (·.1) := by
    intro place hplace
    obtain ⟨n, hn, rfl⟩ := List.mem_map.1 hplace
    rw [List.mem_range] at hn
    have hne : rest.take (n + 1) ≠ [] := by
      rw [← List.length_pos_iff, List.length_take]
      omega
    have hsome : ∃ e', d.entry? (directory ++ rest.take (n + 1)) = some e' := by
      by_cases hlast : n + 1 = rest.length
      · rw [hlast, List.take_length]
        exact ⟨e, hentry⟩
      · have hpre : rest.take (n + 1) <+: rest.dropLast := by
          rw [List.dropLast_eq_take]
          exact List.take_prefix_take_left (by omega)
        exact ⟨.directory, hleads.entry?_eq hne hpre⟩
    obtain ⟨e', he'⟩ := hsome
    have hmem := Disk.mem_entries_of_found (by simp [hne]) he'
    exact List.mem_map_of_mem (f := fun entry => entry.1) hmem
  have hlength := (hnodup.subperm hsubset).length_le
  simpa [places] using hlength

/-- A file below the root is found by the walk that prunes nothing, unless it is overlooked. -/
theorem mem_everything {rest : List String} {e : Entry} (hrest : rest ≠ [])
    (hleads : d.Leads [] (root ++ rest).dropLast)
    (hentry : d.entry? (root ++ rest) = some e) (hfile : e ≠ .directory) :
    root ++ rest ∈ everything d root ↔ overlooked d root rest = false := by
  rw [List.dropLast_append_of_ne_nil hrest, Disk.leads_append, List.nil_append] at hleads
  obtain ⟨habove, hbelow⟩ := hleads
  have hroot : d.entry? root = some .directory := by
    by_cases hne : root = []
    · rw [hne]
      rfl
    · exact habove.entry?_eq hne (List.prefix_refl root)
  have hdepth := length_le_entries hbelow hentry
  unfold everything
  rw [hroot]
  exact mem_filesIn_blank hrest hbelow hentry hfile (by omega)

theorem mem_chosen {places : List Place} {f : FoundFile} :
    f ∈ chosen filter root places ↔
      f.place ∈ places ∧ f.path = relative root f.place ∧ filter.accepts f.path = true := by
  unfold chosen
  rw [List.mem_mergeSort, List.mem_filter, List.mem_map]
  constructor
  · rintro ⟨⟨place, hplace, rfl⟩, haccepts⟩
    exact ⟨hplace, rfl, haccepts⟩
  · rintro ⟨hplace, hpath, haccepts⟩
    refine ⟨⟨f.place, hplace, ?_⟩, haccepts⟩
    rw [← hpath]

/-- The walk of a project does not come to the file with these names below the root: the file is
overlooked, or it is hidden by a pruned directory. -/
def passedOver (d : Disk) (filter : PathFilter) (root : Place) (rest : List String) : Bool :=
  overlooked d root rest || barred filter root root rest

theorem mem_discover {rest : List String} {e : Entry} (hrest : rest ≠ [])
    (hleads : d.Leads [] (root ++ rest).dropLast)
    (hentry : d.entry? (root ++ rest) = some e) (hfile : e ≠ .directory) :
    ⟨root ++ rest, relative root (root ++ rest)⟩ ∈ discover d filter root ↔
      filter.accepts (relative root (root ++ rest)) = true ∧
        passedOver d filter root rest = false := by
  rw [discover_eq_chosen, mem_chosen, List.mem_filter, mem_everything hrest hleads hentry hfile,
    Bool.not_eq_true']
  unfold hidden passedOver
  rw [List.drop_left, Bool.or_eq_false_iff]
  tauto

end CodeIndex.Walk

import CodeIndex.Disk.Basic
import CodeIndex.Proofs.Text.Search
import Mathlib.Data.List.Basic
/-!
# Paths of names

The path of a list of names is read back as these names, whether it is taken apart into
components or into steps, or followed into one of the directories on it.
-/

namespace CodeIndex.Path

open Text (pieces)

/-- The text can be the name of an entry. -/
structure IsName (s : String) : Prop where
  ne_empty : s ≠ ""
  ne_here : s ≠ "."
  ne_up : s ≠ ".."
  not_mem_slash : '/' ∉ s.toList

/-- The characters of names, each after a slash. -/
def slashed (names : List String) : List Char :=
  names.flatMap fun name => '/' :: name.toList

theorem toList_intercalate (name : String) (rest : List String) :
    ("/".intercalate (name :: rest)).toList = name.toList ++ slashed rest := by
  induction rest generalizing name with
  | nil => simp [slashed]
  | cons other rest ih =>
      rw [String.intercalate_cons_cons, String.toList_append, ih, String.toList_append]
      simp [slashed]

theorem toList_ofNames {names : List String} (hne : names ≠ []) :
    (ofNames names).toList = slashed names := by
  obtain ⟨name, rest, rfl⟩ := List.exists_cons_of_ne_nil hne
  unfold ofNames
  rw [String.toList_append, toList_intercalate]
  rfl

/-! ## Segments -/

theorem pieces_slashed {names : List String} (hnames : ∀ name ∈ names, '/' ∉ name.toList) :
    pieces (· == '/') (slashed names) = [] :: names.map String.toList := by
  induction names with
  | nil => rfl
  | cons name names ih =>
      have hrest := ih fun other hother => hnames other (List.mem_cons_of_mem name hother)
      have hname := Text.beq_of_not_mem (hnames name List.mem_cons_self)
      have hsplit : slashed (name :: names) = '/' :: (name.toList ++ slashed names) := rfl
      rw [hsplit, pieces, if_pos (by rfl), Text.pieces_append hname hrest, List.append_nil]
      rfl

theorem intercalate_inj {as bs : List String} (has : ∀ name ∈ as, '/' ∉ name.toList)
    (hbs : ∀ name ∈ bs, '/' ∉ name.toList) (hne : as ≠ []) (hne' : bs ≠ [])
    (heq : "/".intercalate as = "/".intercalate bs) : as = bs := by
  have hslashed : slashed as = slashed bs := by
    rw [← toList_ofNames hne, ← toList_ofNames hne']
    unfold ofNames
    rw [heq]
  have hpieces := congrArg (pieces (· == '/')) hslashed
  rw [pieces_slashed has, pieces_slashed hbs, List.cons.injEq] at hpieces
  exact List.map_injective_iff.2 (fun _ _ => String.toList_inj.1) hpieces.2

theorem isAbsolute_ofNames (names : List String) : isAbsolute (ofNames names) = true := by
  unfold isAbsolute ofNames
  rw [String.toList_append]
  rfl

section Names

variable {names : List String} (hnames : ∀ name ∈ names, IsName name)

include hnames

theorem segments_ofNames (hne : names ≠ []) : segments (ofNames names) = "" :: names := by
  have hslash := fun name hname => (hnames name hname).not_mem_slash
  unfold segments
  rw [toList_ofNames hne, pieces_slashed hslash, List.map_cons, List.map_map]
  have hsame : names.map (String.ofList ∘ String.toList) = names := by
    refine (List.map_congr_left fun name _ => ?_).trans (List.map_id names)
    exact String.ofList_toList
  rw [hsame]

theorem steps_ofNames (hne : names ≠ []) : Disk.steps (ofNames names) = names := by
  have hfilter : names.filter (· != "") = names := by
    rw [List.filter_eq_self]
    intro name hname
    exact bne_iff_ne.2 (hnames name hname).ne_empty
  have hlast : (("" :: names).getLast? == some "") = false := by
    rw [beq_eq_false_iff_ne, List.getLast?_cons, List.getLast?_eq_some_getLast hne]
    intro hempty
    exact (hnames _ (List.getLast_mem hne)).ne_empty (Option.some.inj hempty)
  unfold Disk.steps
  dsimp only
  rw [segments_ofNames hnames hne, hlast]
  simp [hfilter]

theorem parts_ofNames (hne : names ≠ []) :
    parts (ofNames names) = .root :: names.map .name := by
  have hpart : ∀ name ∈ names, part? name = some (.name name) := by
    intro name hname
    obtain ⟨hempty, hhere, hup, -⟩ := hnames name hname
    simp [part?, hempty, hhere, hup]
  unfold parts
  rw [if_pos (isAbsolute_ofNames names), segments_ofNames hnames hne,
    List.filterMap_cons_none (by rfl), List.filterMap_congr hpart]
  simp

end Names

/-! ## Paths from a directory -/

theorem isAbsolute_intercalate {name : String} (hempty : name ≠ "") (hslash : '/' ∉ name.toList)
    (rest : List String) : isAbsolute ("/".intercalate (name :: rest)) = false := by
  obtain ⟨c, cs, hname⟩ := List.exists_cons_of_ne_nil (l := name.toList) (by simpa using hempty)
  have hc : c ≠ '/' := by
    rintro rfl
    exact hslash (by simp [hname])
  unfold isAbsolute
  rw [toList_intercalate, hname]
  simpa using hc

theorem getLast?_slashed {names : List String} (hne : names ≠ [])
    (hnames : ∀ name ∈ names, name ≠ "" ∧ '/' ∉ name.toList) :
    (slashed names).getLast? ≠ some '/' := by
  obtain ⟨init, last, rfl⟩ : ∃ init last, names = init ++ [last] :=
    ⟨names.dropLast, names.getLast hne, (List.dropLast_append_getLast hne).symm⟩
  obtain ⟨hempty, hslash⟩ := hnames last (by simp)
  have hsplit : slashed (init ++ [last]) = (slashed init ++ ['/']) ++ last.toList := by
    simp [slashed]
  have hchars : last.toList ≠ [] := by simpa using hempty
  rw [hsplit, List.getLast?_append_of_ne_nil _ hchars]
  intro hlast
  exact hslash (List.mem_of_getLast? hlast)

/-- Names joined to the path of a directory give the path of the place below it. -/
theorem join_ofNames {directory rest : List String} (hrest : rest ≠ [])
    (hnames : ∀ name ∈ directory ++ rest, name ≠ "" ∧ '/' ∉ name.toList) :
    join (ofNames directory) ("/".intercalate rest) = ofNames (directory ++ rest) := by
  obtain ⟨name, more, rfl⟩ := List.exists_cons_of_ne_nil hrest
  obtain ⟨hempty, hslash⟩ := hnames name (by simp)
  unfold join
  rw [isAbsolute_intercalate hempty hslash more, if_neg Bool.false_ne_true]
  by_cases hdirectory : directory = []
  · rw [hdirectory, if_pos (by rfl)]
    rfl
  · have hlast := getLast?_slashed hdirectory fun other hother =>
      hnames other (List.mem_append_left _ hother)
    have hbase : ¬ (ofNames directory == "" ||
        (ofNames directory).toList.getLast? == some '/') = true := by
      rw [toList_ofNames hdirectory, Bool.or_eq_true, beq_iff_eq, beq_iff_eq]
      rintro (hnone | hsome)
      · have habsolute := isAbsolute_ofNames directory
        rw [hnone] at habsolute
        cases habsolute
      · exact hlast hsome
    rw [if_neg hbase, ← String.toList_inj, toList_ofNames (by simp), String.toList_append,
      String.toList_append, toList_ofNames hdirectory, toList_intercalate]
    simp [slashed]

/-! ## Paths into a directory -/

theorem withoutStart_append {w : List Char} (hne : w ≠ []) (hhere : w ≠ ['.'])
    (hslash : '/' ∉ w) (cs : List Char) : withoutStart (w ++ cs) = w ++ cs := by
  obtain ⟨c, w, rfl⟩ := List.exists_cons_of_ne_nil hne
  have hc : c ≠ '/' := by
    rintro rfl
    exact hslash List.mem_cons_self
  by_cases hdot : c = '.'
  · cases w with
    | nil => exact absurd (by rw [hdot]) hhere
    | cons c' w =>
        have hc' : c' ≠ '/' := by
          rintro rfl
          exact hslash (List.mem_cons_of_mem _ List.mem_cons_self)
        rw [hdot, List.cons_append, List.cons_append]
        unfold withoutStart
        split
        · rename_i heq
          cases heq
        · rename_i heq
          cases heq
        · rename_i heq
          rw [List.cons.injEq, List.cons.injEq] at heq
          exact absurd heq.2.1 hc'
        · rfl
  · unfold withoutStart
    rw [List.cons_append]
    split
    · rename_i heq
      exact absurd (List.cons.inj heq).1 hc
    · rename_i heq
      exact absurd (List.cons.inj heq).1 hdot
    · rename_i heq
      exact absurd (List.cons.inj heq).1 hdot
    · rfl

/-- Read from its end, a name is no slash and no dot either. -/
theorem IsName.reverse {name : String} (hname : IsName name) :
    name.toList.reverse ≠ [] ∧ name.toList.reverse ≠ ['.'] ∧ '/' ∉ name.toList.reverse := by
  refine ⟨by simpa using hname.ne_empty, fun heq => ?_, ?_⟩
  · have hlist : name.toList = ['.'] := by simpa using congrArg List.reverse heq
    exact hname.ne_here (by rw [← String.ofList_toList (s := name), hlist])
  · rw [List.mem_reverse]
    exact hname.not_mem_slash

section Within

variable {directory : List String} {name : String} {rest : List String}

theorem slashed_cons (name : String) (rest : List String) :
    slashed (name :: rest) = '/' :: (name.toList ++ slashed rest) := rfl

theorem withoutStart_slashed (hname : IsName name) (rest : List String) :
    withoutStart (slashed (name :: rest)) = name.toList ++ slashed rest := by
  have hne : name.toList ≠ [] := by simpa using hname.ne_empty
  have hhere : name.toList ≠ ['.'] := by
    intro heq
    exact hname.ne_here (by rw [← String.ofList_toList (s := name), heq])
  rw [slashed_cons, withoutStart]
  exact withoutStart_append hne hhere hname.not_mem_slash (slashed rest)

theorem afterNames_slashed (hdirectory : ∀ other ∈ directory, IsName other)
    (hname : IsName name) :
    afterNames directory.length (slashed (directory ++ name :: rest)) =
      name.toList ++ slashed rest := by
  induction directory with
  | nil => exact withoutStart_slashed hname rest
  | cons first directory ih =>
      have hfirst := hdirectory first List.mem_cons_self
      have hkept : ∀ c ∈ first.toList, (c != '/') = true := by
        intro c hc
        rw [bne_iff_ne]
        rintro rfl
        exact hfirst.not_mem_slash hc
      have hdrop : (first.toList ++ slashed (directory ++ name :: rest)).dropWhile (· != '/') =
          slashed (directory ++ name :: rest) := by
        rw [List.dropWhile_append_of_pos hkept]
        cases directory <;> rfl
      rw [List.length_cons, afterNames, List.cons_append, withoutStart_slashed hfirst, hdrop]
      exact ih fun other hother => hdirectory other (List.mem_cons_of_mem first hother)

/-- Nothing stands at the end of such a path that would be left out. -/
theorem withoutStart_reverse (hname : IsName name) (hrest : ∀ other ∈ rest, IsName other) :
    withoutStart (name.toList ++ slashed rest).reverse = (name.toList ++ slashed rest).reverse := by
  have hlast : ∃ last before, IsName last ∧
      name.toList ++ slashed rest = before ++ last.toList := by
    rcases List.eq_nil_or_concat rest with rfl | ⟨init, last, hinit⟩
    · exact ⟨name, [], hname, by simp [slashed]⟩
    · rw [List.concat_eq_append] at hinit
      refine ⟨last, name.toList ++ slashed init ++ ['/'], hrest last (by simp [hinit]), ?_⟩
      rw [hinit]
      simp [slashed]
  obtain ⟨last, before, hlastName, hsplit⟩ := hlast
  obtain ⟨hne, hhere, hslash⟩ := hlastName.reverse
  rw [hsplit, List.reverse_append]
  exact withoutStart_append hne hhere hslash before.reverse

/-- What follows a directory in the path of a place below it are the names below it. -/
theorem within?_ofNames (hdirectory : ∀ other ∈ directory, IsName other)
    (hname : IsName name) (hrest : ∀ other ∈ rest, IsName other) :
    within? directory (ofNames (directory ++ name :: rest)) =
      some ("/".intercalate (name :: rest)) := by
  have hall : ∀ other ∈ directory ++ name :: rest, IsName other := by
    intro other hother
    rcases List.mem_append.1 hother with hother | hother
    · exact hdirectory other hother
    · rcases List.mem_cons.1 hother with rfl | hother
      · exact hname
      · exact hrest other hother
  have hne : directory ++ name :: rest ≠ [] := by simp
  have hpre : (PathPart.root :: directory.map PathPart.name).isPrefixOf
      (parts (ofNames (directory ++ name :: rest))) = true := by
    rw [parts_ofNames hall hne, List.map_append, List.isPrefixOf_iff_prefix]
    exact List.cons_prefix_cons.2 ⟨rfl, List.prefix_append _ _⟩
  have htext : String.ofList (name.toList ++ slashed rest) = "/".intercalate (name :: rest) := by
    rw [← toList_intercalate, String.ofList_toList]
  unfold within?
  dsimp only
  rw [if_pos hpre, toList_ofNames hne, afterNames_slashed hdirectory hname,
    withoutStart_reverse hname hrest, List.reverse_reverse, htext]

end Within

/-! ## The directory above -/

theorem withoutEnd_append {w : List Char} (hne : w ≠ []) (hhere : w ≠ ['.']) (hslash : '/' ∉ w)
    (cs : List Char) : withoutEnd (w ++ cs) = w ++ cs := by
  obtain ⟨c, w, rfl⟩ := List.exists_cons_of_ne_nil hne
  unfold withoutEnd
  rw [List.cons_append]
  split
  · rename_i heq
    rw [List.cons.injEq] at heq
    exact absurd (heq.1 ▸ List.mem_cons_self) hslash
  · rename_i rest heq
    rw [List.cons.injEq] at heq
    obtain ⟨hdot, hrest⟩ := heq
    cases w with
    | nil => exact absurd (by rw [hdot]) hhere
    | cons c' w =>
        rw [List.cons_append, List.cons.injEq] at hrest
        exact absurd (hrest.1 ▸ List.mem_cons_of_mem _ List.mem_cons_self) hslash
  · rfl

theorem IsName.withoutEnd_append {name : String} (hname : IsName name) (cs : List Char) :
    withoutEnd (name.toList.reverse ++ cs) = name.toList.reverse ++ cs := by
  obtain ⟨hne, hhere, hslash⟩ := hname.reverse
  exact Path.withoutEnd_append hne hhere hslash cs

theorem slashed_append (names : List String) (name : String) :
    slashed (names ++ [name]) = slashed names ++ '/' :: name.toList := by
  simp [slashed]

theorem withoutEnd_slashed {names : List String} (hnames : ∀ name ∈ names, IsName name) :
    withoutEnd (slashed names).reverse = (slashed names).reverse := by
  rcases List.eq_nil_or_concat names with rfl | ⟨init, last, rfl⟩
  · rfl
  · rw [List.concat_eq_append] at hnames ⊢
    have hlast := hnames last (by simp)
    rw [slashed_append, List.reverse_append, List.reverse_cons, List.append_assoc]
    exact hlast.withoutEnd_append _

section Above

variable {names : List String} {name : String} (hnames : ∀ other ∈ names ++ [name], IsName other)

include hnames

theorem getLast?_parts : (parts (ofNames (names ++ [name]))).getLast? = some (.name name) := by
  rw [parts_ofNames hnames (by simp), List.map_append, ← List.cons_append]
  exact List.getLast?_concat

theorem fileName?_ofNames : fileName? (ofNames (names ++ [name])) = some name := by
  unfold fileName?
  rw [getLast?_parts hnames]

theorem parent?_ofNames : parent? (ofNames (names ++ [name])) = some (ofNames names) := by
  have hname := hnames name (by simp)
  have hdirectory : ∀ other ∈ names, IsName other := fun other hother =>
    hnames other (List.mem_append_left _ hother)
  have hkept : ∀ c ∈ name.toList.reverse, (c != '/') = true := by
    intro c hc
    rw [bne_iff_ne]
    rintro rfl
    exact hname.not_mem_slash (List.mem_reverse.1 hc)
  have habove : withoutEnd ((withoutEnd (ofNames (names ++ [name])).toList.reverse).dropWhile
      (· != '/')) = (slashed names).reverse := by
    rw [toList_ofNames (by simp), slashed_append, List.reverse_append, List.reverse_cons,
      List.append_assoc, hname.withoutEnd_append, List.dropWhile_append_of_pos hkept]
    exact withoutEnd_slashed hdirectory
  unfold parent?
  rw [getLast?_parts hnames]
  dsimp only
  rw [habove, isAbsolute_ofNames]
  by_cases hnone : names = []
  · rw [hnone]
    rfl
  · have hchars : slashed names ≠ [] := by
      rw [← toList_ofNames hnone]
      simp [ofNames]
    rw [if_neg (by simpa using hchars), List.reverse_reverse, ← toList_ofNames hnone,
      String.ofList_toList]

end Above

end CodeIndex.Path

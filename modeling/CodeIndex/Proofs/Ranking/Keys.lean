import CodeIndex.Proofs.Ranking.Parts
import CodeIndex.Proofs.Relation.Callee
/-!
# Keys of files and of imports

The keys of a file and the key of an import, from the names that the path and the source are put
together from. A file has the parts of its path, the extension and a leading `src` apart; an import
is looked for by the parts of its names without those that lead to them.
-/

namespace CodeIndex.Ranking

open Text

variable {key name stem ext : List Char} {ps qs names init ups : List (List Char)}

/-! ## Names in a path -/

/-- What a name in a path is made of: ASCII letters and digits, `_`, `-` and dots. -/
def isPathChar (c : Char) : Bool :=
  c.isAlphanum || c == '_' || c == '-' || c == '.'

/-- A name in a path, whose dots are all inside of it. -/
structure IsPathName (name : List Char) : Prop where
  ne_nil : name ≠ []
  chars : ∀ c ∈ name, isPathChar c = true
  first : name.head? ≠ some '.'
  last : name.getLast? ≠ some '.'

instance (name : List Char) : Decidable (IsPathName name) :=
  decidable_of_iff (name ≠ [] ∧ name.all isPathChar = true ∧ name.head? ≠ some '.' ∧
      name.getLast? ≠ some '.')
    ⟨fun ⟨hne, hchars, hfirst, hlast⟩ => ⟨hne, List.all_eq_true.1 hchars, hfirst, hlast⟩,
      fun h => ⟨h.ne_nil, List.all_eq_true.2 h.chars, h.first, h.last⟩⟩

theorem IsPathName.not_mem (h : IsPathName name) {c : Char} (hc : isPathChar c = false) :
    c ∉ name := by
  intro hmem
  rw [h.chars c hmem] at hc
  cases hc

/-- Characters of paths are neither blanks nor quotes. -/
theorem isBlank_of_isPathChar {c : Char} (hc : isPathChar c = true) : isBlank c = false := by
  by_contra hblank
  rw [Bool.not_eq_false] at hblank
  unfold isPathChar at hc
  rw [isAlphanum_of_isBlank hblank] at hc
  simp only [Bool.false_or, Bool.or_eq_true, beq_iff_eq] at hc
  rcases hc with (rfl | rfl) | rfl <;> exact absurd hblank (by decide)

/-! ## Extensions -/

theorem withoutExtension_append (hdot : '.' ∉ ext) (hslash : '/' ∉ ext) (hne : stem ≠ [])
    (hlast : stem.getLast? ≠ some '/') : withoutExtension (stem ++ '.' :: ext) = stem := by
  rw [withoutExtension, splitLast_singleton.2 ⟨rfl, hdot⟩]
  simp [hslash, hne, hlast]

theorem withoutExtension_of_not_mem (hdot : '.' ∉ name) : withoutExtension name = name := by
  have hnone : splitLast ['.'] name = none := splitLast_eq_none hdot []
  rw [withoutExtension, hnone]

theorem withoutExtension_isPrefix (path : List Char) : withoutExtension path <+: path := by
  unfold withoutExtension
  cases hsplit : splitLast ['.'] path with
  | none => exact List.prefix_refl path
  | some cut =>
      obtain ⟨stem, ext⟩ := cut
      dsimp only
      split
      · exact List.prefix_refl path
      · exact ⟨_, (splitLast_singleton.1 hsplit).1.symm⟩

/-- Only the last name of a path loses its extension. -/
theorem withoutExtension_slashed (init : List (List Char)) (hne : name ≠ []) (hslash : '/' ∉ name)
    (hfirst : name.head? ≠ some '.') :
    withoutExtension (slashed (init ++ [name])) = slashed (init ++ [withoutExtension name]) := by
  by_cases hinit : init = []
  · subst hinit
    simp [slashed]
  have hpath : ∀ last, slashed (init ++ [last]) = slashed init ++ '/' :: last := by
    intro last
    rw [slashed, intercalate_append hinit (List.cons_ne_nil _ _), List.intercalate_singleton]
    rfl
  rw [hpath, hpath]
  by_cases hdot : '.' ∈ name
  · obtain ⟨stem, ext, rfl, hext⟩ := exists_splitLast_of_mem hdot
    rw [List.mem_append, List.mem_cons, not_or, not_or] at hslash
    have hstem : stem ≠ [] := by
      rintro rfl
      exact hfirst rfl
    have hlast : stem.getLast? ≠ some '/' := fun h => hslash.1 (List.mem_of_getLast? h)
    have hboth : (slashed init ++ '/' :: stem).getLast? ≠ some '/' := by
      obtain ⟨c, cs, rfl⟩ := List.exists_cons_of_ne_nil hstem
      simpa using hlast
    have hwhole : slashed init ++ '/' :: (stem ++ '.' :: ext) =
        (slashed init ++ '/' :: stem) ++ '.' :: ext := by
      simp
    rw [hwhole, withoutExtension_append hext hslash.2.2 (by simp) hboth,
      withoutExtension_append hext hslash.2.2 hstem hlast]
  · rw [withoutExtension_of_not_mem hdot]
    by_cases hdirs : '.' ∈ slashed init
    · -- the last dot belongs to a directory
      obtain ⟨front, back, hsplit, hback⟩ := exists_splitLast_of_mem hdirs
      have hlast : '.' ∉ back ++ '/' :: name := by simp [hback, hdot]
      rw [hsplit, List.append_assoc, List.cons_append, withoutExtension,
        splitLast_singleton.2 ⟨rfl, hlast⟩]
      simp
    · exact withoutExtension_of_not_mem (by simp [hdirs, hdot])

/-! ## Keys of a file -/

theorem parts_withoutSourceRoot_isSuffix (key : List Char) :
    parts (withoutSourceRoot key) <:+ parts key := by
  unfold withoutSourceRoot withoutStart
  cases hstrip : stripStart "src.".toList key with
  | none => exact List.suffix_refl _
  | some rest =>
      obtain rfl := stripStart_eq_some_iff.1 hstrip
      have hparts : parts ("src.".toList ++ rest) = parts "src".toList ++ parts rest :=
        parts_append_cons "src".toList rest
      rw [hparts]
      exact List.suffix_append _ _

theorem not_mem_of_mem_indexNames : ∀ n ∈ indexNames, '.' ∉ n := by
  decide

/-- The key of a file's own path, index names included. -/
def ownKey (path : List Char) : List Char :=
  withoutSourceRoot (slashesAsDots (withoutExtension path))

/-- The key of the directory of a file. -/
def directoryKey (path : List Char) : List Char :=
  withoutSourceRoot (dotted (directories path))

theorem withoutEnd_index {n : List Char} (hn : n ∈ indexNames)
    (hlast : (parts key).getLast? ≠ some n) : withoutEnd ('.' :: n) key = key := by
  unfold withoutEnd
  cases hstrip : stripEnd ('.' :: n) key with
  | none => rfl
  | some front =>
      rw [stripEnd_eq_some_iff.1 hstrip, parts_append_cons,
        parts_of_not_mem (not_mem_of_mem_indexNames n hn), List.getLast?_concat] at hlast
      exact absurd rfl hlast

/-- A file whose name stands for no directory has the key of its own path, and perhaps that of its
directory. -/
theorem fileKeysOf_spec {path : List Char} (hlast : (parts (ownKey path)).getLast? = some name)
    (hne : name ≠ []) (hname : name ∉ indexNames) :
    ownKey path ∈ fileKeysOf path ∧
      ∀ key ∈ fileKeysOf path,
        key = ownKey path ∨ directories path ≠ [] ∧ key = directoryKey path := by
  have hfold :
      indexNames.foldl (fun k n => withoutEnd ('.' :: n) k) (ownKey path) = ownKey path := by
    refine List.foldlRecOn (motive := fun k => k = ownKey path) indexNames _ rfl fun k hk n hn => ?_
    rw [hk, withoutEnd_index hn]
    rw [hlast]
    exact fun heq => hname (Option.some.inj heq ▸ hn)
  have hempty : ownKey path ≠ [] := by
    intro hnil
    rw [hnil] at hlast
    exact hne (Option.some.inj hlast).symm
  have hreserved : ownKey path ∉ indexNames := by
    intro hmem
    rw [parts_of_not_mem (not_mem_of_mem_indexNames _ hmem), List.getLast?_singleton,
      Option.some.injEq] at hlast
    exact hname (hlast ▸ hmem)
  unfold fileKeysOf
  dsimp only
  rw [← ownKey, ← dotted, ← directoryKey, hfold]
  constructor
  · refine List.mem_filter.2 ⟨?_, by simp [hempty, hreserved]⟩
    split
    · exact List.mem_singleton_self _
    · exact List.mem_cons_self
  · intro key hkey
    have hmem := (List.mem_filter.1 hkey).1
    split at hmem
    · exact Or.inl (List.mem_singleton.1 hmem)
    · rename_i hdirs
      simp only [Bool.or_eq_true, List.isEmpty_iff, not_or] at hdirs
      rcases List.mem_cons.1 hmem with rfl | hdir
      · exact Or.inl rfl
      · exact Or.inr ⟨hdirs.1.1, List.mem_singleton.1 hdir⟩

theorem directories_slashed (hnames : ∀ n ∈ init ++ [name], n ≠ [] ∧ '/' ∉ n) :
    directories (slashed (init ++ [name])) = init := by
  have hpieces : pieces (· == '/') (slashed (init ++ [name])) = init ++ [name] := by
    rw [pieces_eq_splitOnP, ← List.splitOn_eq_splitOnP]
    exact List.splitOn_intercalate '/' (fun n hn => (hnames n hn).2) (by simp)
  rw [directories, hpieces, List.filter_eq_self.2 fun n hn => by simp [(hnames n hn).1],
    List.dropLast_concat]

/-- The name of a file in its directories, with an extension. -/
theorem slashed_concat_append (init : List (List Char)) (name more : List Char) :
    slashed (init ++ [name ++ more]) = slashed (init ++ [name]) ++ more := by
  by_cases hinit : init = []
  · subst hinit
    simp [slashed]
  · rw [slashed, slashed, intercalate_append hinit (by simp), intercalate_append hinit (by simp)]
    simp

theorem ownKey_slashed (hnames : ∀ n ∈ init ++ [name], IsPathName n) (hdot : '.' ∉ ext)
    (hslash : '/' ∉ ext) :
    ownKey (slashed (init ++ [name ++ '.' :: ext])) =
      withoutSourceRoot (dotted (init ++ [name])) := by
  have hname := hnames name List.mem_concat_self
  have hplain : ∀ n ∈ init ++ [name], '/' ∉ n := fun n hn => (hnames n hn).not_mem (by decide)
  have hfirst : (name ++ '.' :: ext).head? ≠ some '.' := by
    rw [List.head?_append_of_ne_nil _ hname.ne_nil]
    exact hname.first
  have hlast : name.getLast? ≠ some '/' :=
    fun h => hplain name List.mem_concat_self (List.mem_of_getLast? h)
  have hboth : '/' ∉ name ++ '.' :: ext := by simp [hslash, hplain]
  rw [ownKey, withoutExtension_slashed init (by simp) hboth hfirst,
    withoutExtension_append hdot hslash hname.ne_nil hlast, slashesAsDots_slashed hplain]

theorem getLast?_parts_withoutSourceRoot (key : List Char) :
    (parts (withoutSourceRoot key)).getLast? = (parts key).getLast? :=
  getLast?_of_isSuffix (parts_withoutSourceRoot_isSuffix key) (parts_ne_nil _)

theorem getLast?_parts_dotted (init : List (List Char)) (name : List Char) :
    (parts (dotted (init ++ [name]))).getLast? = (parts name).getLast? := by
  rw [parts_dotted_names (by simp), List.flatMap_append, List.flatMap_singleton,
    List.getLast?_append, List.getLast?_eq_some_getLast (parts_ne_nil name), Option.some_or]

/-- A file whose name ends in no index name has its path as a key, and perhaps its directory. -/
theorem fileKeysOf_slashed {p : List Char} (hnames : ∀ n ∈ init ++ [name], IsPathName n)
    (hdot : '.' ∉ ext) (hslash : '/' ∉ ext) (hlast : (parts name).getLast? = some p) (hp : p ≠ [])
    (hindex : p ∉ indexNames) :
    withoutSourceRoot (dotted (init ++ [name])) ∈
        fileKeysOf (slashed (init ++ [name ++ '.' :: ext])) ∧
      ∀ key ∈ fileKeysOf (slashed (init ++ [name ++ '.' :: ext])),
        key = withoutSourceRoot (dotted (init ++ [name])) ∨
          init ≠ [] ∧ key = withoutSourceRoot (dotted init) := by
  have hown := ownKey_slashed hnames hdot hslash
  have hdirs : directories (slashed (init ++ [name ++ '.' :: ext])) = init := by
    refine directories_slashed fun n hn => ?_
    rcases List.mem_append.1 hn with hn | hn
    · have hpath := hnames n (List.mem_append_left _ hn)
      exact ⟨hpath.ne_nil, hpath.not_mem (by decide)⟩
    · rw [List.mem_singleton.1 hn]
      simp [hslash, (hnames name List.mem_concat_self).not_mem (by decide : isPathChar '/' = false)]
  have hend : (parts (ownKey (slashed (init ++ [name ++ '.' :: ext])))).getLast? = some p := by
    rw [hown, getLast?_parts_withoutSourceRoot, getLast?_parts_dotted, hlast]
  have hspec := fileKeysOf_spec hend hp hindex
  rwa [directoryKey, hdirs, hown] at hspec

/-! ## Keys of an import -/

/-- Words that name the importing module or one around it. -/
def selfWords : List (List Char) :=
  ["crate".toList, "self".toList, "super".toList]

/-- Names that lead from a directory to itself or to the one around it. -/
def relativeNames : List (List Char) :=
  [".".toList, "..".toList]

/-- What an import is looked for by: its parts without the leading words, the last part apart, and
without empty parts at the ends. -/
def sought (ps : List (List Char)) : List (List Char) :=
  innerParts (withoutLeading selfWords ps)

theorem not_mem_of_mem_sought {p : List Char} (hps : ∀ p ∈ ps, '.' ∉ p) (hp : p ∈ sought ps) :
    '.' ∉ p :=
  hps p ((withoutLeading_isSuffix selfWords ps).subset (innerParts_subset _ hp))

theorem sought_concat (ps : List (List Char)) (hne : name ≠ []) :
    ∃ kept, kept <:+ ps ∧ sought (ps ++ [name]) = kept ++ [name] := by
  obtain ⟨dropped, hdropped⟩ := withoutLeading_isSuffix selfWords (ps ++ [name])
  have hnonempty : withoutLeading selfWords (ps ++ [name]) ≠ [] := withoutLeading_ne_nil (by simp)
  obtain ⟨init, last, hinit⟩ := (List.eq_nil_or_concat' _).resolve_left hnonempty
  rw [hinit, ← List.append_assoc] at hdropped
  obtain ⟨hps, hlast⟩ := List.append_inj' hdropped rfl
  obtain rfl := List.singleton_inj.1 hlast
  refine ⟨init.dropWhile List.isEmpty, ?_, ?_⟩
  · exact (List.dropWhile_suffix _).trans ⟨dropped, hps⟩
  · rw [sought, hinit, innerParts_append init hne]

theorem sought_cons {w : List Char} (hw : w ∈ selfWords) (hne : ps ≠ [])
    (hfirst : ps.headD [] ∉ selfWords) (hps : ∀ p ∈ ps, p ≠ []) : sought (w :: ps) = ps := by
  have hleading : withoutLeading selfWords ([w] ++ ps) = ps :=
    withoutLeading_append (by simpa using hw) hne hfirst
  rw [sought, ← List.singleton_append, hleading, innerParts_eq_self hps]

theorem dropAround_dropLeading (key : List Char) :
    dropAround (· == '.') (dropLeading selfStarts key.length key) =
      dotted (sought (parts key)) := by
  have hdots : ∀ p ∈ parts key, '.' ∉ p := fun p hp => not_mem_of_mem_parts hp
  have hlength := length_le_length_intercalate '.' (parts key)
  rw [← dotted, dotted_parts] at hlength
  have hstarts : selfStarts = selfWords.map (· ++ ['.']) := rfl
  have hdropped : dropLeading selfStarts key.length (dotted (parts key)) =
      dotted (withoutLeading selfWords (parts key)) := by
    rw [hstarts]
    exact dropLeading_intercalate (by decide) hdots hlength
  rw [dotted_parts] at hdropped
  rw [hdropped, dropAround_dotted, sought]
  exact fun p hp => hdots p ((withoutLeading_isSuffix _ _).subset hp)

/-- What sources of imports are made of that are neither quoted nor spaced. -/
def isSourceChar (c : Char) : Bool :=
  isPathChar c || c == '/' || c == ':'

/-- Such a source is read as it stands. -/
theorem dropAround_trim_source {source : List Char}
    (hsource : ∀ c ∈ source, isSourceChar c = true) :
    dropAround (fun c => c == '"' || c == '\'') (trim source) = source := by
  have hblank : trim source = source := by
    refine dropAround_eq_self fun c hc => ?_
    have hchar := hsource c hc
    unfold isSourceChar at hchar
    rw [Bool.or_eq_true, Bool.or_eq_true, beq_iff_eq, beq_iff_eq] at hchar
    rcases hchar with (hpath | rfl) | rfl
    · exact isBlank_of_isPathChar hpath
    · decide
    · decide
  rw [hblank]
  refine dropAround_eq_self fun c hc => ?_
  rw [Bool.or_eq_false_iff, beq_eq_false_iff_ne, beq_eq_false_iff_ne]
  constructor <;> rintro rfl <;> exact absurd (hsource _ hc) (by decide)

theorem forall_mem_intercalate {p : Char → Bool} {separator : List Char}
    (hseparator : separator.all p = true) (hnames : ∀ name ∈ names, ∀ c ∈ name, p c = true) :
    ∀ c ∈ separator.intercalate names, p c = true := by
  intro c hc
  rcases mem_or_mem_of_mem_intercalate hc with hseparate | ⟨name, hname, hc⟩
  · exact List.all_eq_true.1 hseparator c hseparate
  · exact hnames name hname c hc

/-- A relative path is looked for by the parts of its names, the last one without its
extension. -/
theorem importKeyOf_slashed (hups : ∀ up ∈ ups, up ∈ relativeNames) (hne : ups ≠ [])
    (hnames : ∀ n ∈ init ++ [name], IsPathName n) :
    importKeyOf (slashed (ups ++ (init ++ [name]))) =
      dotted (sought ((init ++ [withoutExtension name]).flatMap parts)) := by
  have hname := hnames name List.mem_concat_self
  have hslash : ∀ n ∈ ups ++ (init ++ [name]), '/' ∉ n := by
    intro n hn
    rcases List.mem_append.1 hn with hup | hn
    · have hall : ∀ up ∈ relativeNames, '/' ∉ up := by decide
      exact hall n (hups n hup)
    · exact (hnames n hn).not_mem (by decide)
  have hchars : ∀ c ∈ slashed (ups ++ (init ++ [name])), isSourceChar c = true := by
    refine forall_mem_intercalate (by decide) fun n hn => ?_
    rcases List.mem_append.1 hn with hup | hn
    · have hall : ∀ up ∈ relativeNames, up.all isSourceChar = true := by decide
      exact List.all_eq_true.1 (hall n (hups n hup))
    · intro c hc
      simp [isSourceChar, (hnames n hn).chars c hc]
  have hhead : (init ++ [name]).headD [] ∉ relativeNames := by
    obtain ⟨first, rest, hfirst⟩ := List.exists_cons_of_ne_nil (by simp : init ++ [name] ≠ [])
    have hdot := (hnames first (hfirst ▸ List.mem_cons_self)).first
    have hall : ∀ up ∈ relativeNames, up.head? = some '.' := by decide
    rw [hfirst, List.headD_cons]
    exact fun hmem => hdot (hall first hmem)
  have hpath : dropLeading relativeStarts (slashed (ups ++ (init ++ [name]))).length
      (slashed (ups ++ (init ++ [name]))) = slashed (init ++ [name]) := by
    have hstarts : relativeStarts = relativeNames.map (· ++ ['/']) := rfl
    rw [hstarts, slashed, dropLeading_intercalate (by decide) hslash
      (length_le_length_intercalate _ _), withoutLeading_append hups (by simp) hhead, ← slashed]
  have hseparated : (slashed (ups ++ (init ++ [name]))).contains '/' = true := by
    rw [slashed, intercalate_append hne (by simp)]
    simp
  have hstem : ∀ n ∈ init ++ [withoutExtension name], '/' ∉ n := by
    intro n hn
    rcases List.mem_append.1 hn with hn | hn
    · exact (hnames n (List.mem_append_left _ hn)).not_mem (by decide)
    · rw [List.mem_singleton.1 hn]
      exact fun hmem => hname.not_mem (by decide) ((withoutExtension_isPrefix name).subset hmem)
  unfold importKeyOf
  dsimp only
  rw [dropAround_trim_source hchars, hpath, if_pos hseparated, dropAround_dropLeading,
    withoutExtension_slashed init hname.ne_nil (hname.not_mem (by decide)) hname.first,
    slashesAsDots_slashed hstem, parts_dotted_names (by simp)]

/-- A path of modules is looked for by their names. -/
theorem importKeyOf_colons (hps : ∀ p ∈ ps, IsPathName p) (hdots : ∀ p ∈ ps, '.' ∉ p)
    (hne : ps ≠ []) : importKeyOf ([':', ':'].intercalate ps) = dotted (sought ps) := by
  have hchars : ∀ c ∈ [':', ':'].intercalate ps, isSourceChar c = true := by
    refine forall_mem_intercalate (by decide) fun p hp c hc => ?_
    simp [isSourceChar, (hps p hp).chars c hc]
  have hslash : '/' ∉ [':', ':'].intercalate ps := by
    have hcolons : [':', ':'].all (· != '/') = true := by decide
    have hall := forall_mem_intercalate hcolons fun p hp c hc =>
      bne_iff_ne.2 fun hslash => (hps p hp).not_mem (by decide) (hslash ▸ hc)
    exact fun hmem => absurd (hall '/' hmem) (by decide)
  have hpath : dropLeading relativeStarts ([':', ':'].intercalate ps).length
      ([':', ':'].intercalate ps) = [':', ':'].intercalate ps :=
    dropLeading_of_not_mem relativeNames _ hslash
  have hplain : ([':', ':'].intercalate ps).contains '/' = false := by
    simpa using hslash
  unfold importKeyOf
  dsimp only
  rw [dropAround_trim_source hchars, hpath, hplain, if_neg Bool.false_ne_true,
    replaceAll_colons fun p hp => (hps p hp).not_mem (by decide), dropAround_dropLeading,
    parts_dotted hdots hne]

end CodeIndex.Ranking

import CodeIndex.Proofs.Ranking.Keys
/-!
# Imports and files

Which files an import reaches. The key of an import and the keys of a file are computed apart from
each other; they meet when both are last parts of one list of parts. An import whose key starts
like a library outside the project reaches no file, also when it is written as one of the
project's own, and what stands behind the last dot of a name is taken for an extension, also when
the name has none.
-/

namespace CodeIndex.Ranking

open Text

variable {key name stem ext : List Char} {ps qs names init ups : List (List Char)}

/-! ## Reaching a file -/

/-- The parts belong to no library outside the project, and they are the last parts of a key of
the file, or end with all of its parts. -/
def Reaches (ps : List (List Char)) (file : List Char) : Prop :=
  ps ≠ [] ∧ ps.headD [] ∉ externalRoots ∧
    ∃ key ∈ fileKeysOf file, ps <:+ parts key ∨ parts key <:+ ps

instance (ps : List (List Char)) (file : List Char) : Decidable (Reaches ps file) :=
  inferInstanceAs (Decidable (_ ∧ _ ∧ _))

theorem any_keysMeet_iff {file : List Char} (hdots : ∀ p ∈ ps, '.' ∉ p)
    (hhead : ps.head? ≠ some []) :
    ((fileKeysOf file).any fun key =>
      ([dotted ps].filter fun i => !i.isEmpty && !isExternal i).any (keysMeet key)) = true ↔
        Reaches ps file := by
  by_cases hnil : ps = []
  · subst hnil
    simp [dotted, Reaches]
  have hparts := parts_dotted hdots hnil
  have hnonempty : dotted ps ≠ [] := by
    intro hempty
    rw [hempty] at hparts
    exact hhead (hparts ▸ rfl)
  have hinside : (!(dotted ps).isEmpty && !isExternal (dotted ps)) =
      !externalRoots.contains (ps.headD []) := by
    rw [isExternal_eq, hparts, List.isEmpty_eq_false_iff.2 hnonempty]
    rfl
  unfold Reaches
  rw [List.filter_singleton, hinside, ← List.contains_iff_mem]
  cases externalRoots.contains (ps.headD []) with
  | true => simp
  | false => simp [hnil, keysMeet_iff, hparts, or_comm]

/-- The strength of an import is one for a file that it reaches. -/
theorem importStrength_importKey {file source : String}
    (hkey : importKeyOf source.toList = dotted (sought ps)) (hdots : ∀ p ∈ ps, '.' ∉ p) :
    importStrength file [importKey source] =
      if Reaches (sought ps) file.toList then 1.0 else 0.0 := by
  have htext : [importKey source].map String.toList = [dotted (sought ps)] := by
    rw [List.map_singleton, importKey, String.toList_ofList, hkey]
  have hinner : ∀ p ∈ sought ps, '.' ∉ p := fun p hp => not_mem_of_mem_sought hdots hp
  unfold importStrength
  dsimp only
  rw [htext]
  exact if_congr (any_keysMeet_iff hinner (head?_innerParts _)) rfl rfl

/-- A file without a dot in its name is reached by the last parts of its path, unless these lead
outside the project. -/
theorem reaches_iff (hnames : ∀ n ∈ init ++ [name], IsPathName n) (hdot : '.' ∉ ext)
    (hslash : '/' ∉ ext) (hname : '.' ∉ name) (hindex : name ∉ indexNames)
    (hps : ps <:+ (init ++ [name]).flatMap parts) (hne : ps ≠ []) :
    Reaches ps (slashed (init ++ [name ++ '.' :: ext])) ↔ ps.headD [] ∉ externalRoots := by
  have hlast : (parts name).getLast? = some name := by
    rw [parts_of_not_mem hname, List.getLast?_singleton]
  have hkey := (fileKeysOf_slashed hnames hdot hslash hlast
    (hnames name List.mem_concat_self).ne_nil hindex).1
  have hparts := parts_withoutSourceRoot_isSuffix (dotted (init ++ [name]))
  rw [parts_dotted_names (by simp)] at hparts
  exact ⟨fun h => h.2.1,
    fun h => ⟨hne, h, _, hkey, List.suffix_or_suffix_of_suffix hps hparts⟩⟩

/-- A file that is reached has a key with the same last part. -/
theorem Reaches.getLast?_eq {path : List Char} (h : Reaches ps path) :
    ∃ key ∈ fileKeysOf path, (parts key).getLast? = ps.getLast? := by
  obtain ⟨hne, -, key, hkey, hsuffix | hsuffix⟩ := h
  · exact ⟨key, hkey, (getLast?_of_isSuffix hsuffix hne).symm⟩
  · exact ⟨key, hkey, getLast?_of_isSuffix hsuffix (parts_ne_nil key)⟩

/-! ## Imports of a module -/

/-- An ASCII identifier. -/
def isIdentifier : List Char → Bool
  | [] => false
  | c :: cs => (c.isAlpha || c == '_') && cs.all fun d => d.isAlphanum || d == '_'

theorem isPathName_of_isIdentifier (h : isIdentifier name = true) :
    IsPathName name ∧ '.' ∉ name := by
  cases name with
  | nil => cases h
  | cons c cs =>
      rw [isIdentifier, Bool.and_eq_true, List.all_eq_true] at h
      have hchars : ∀ d ∈ c :: cs, (d.isAlphanum || d == '_') = true := by
        rw [List.forall_mem_cons]
        refine ⟨?_, h.2⟩
        rw [Char.isAlphanum, Bool.or_right_comm, h.1, Bool.true_or]
      have hdot : '.' ∉ c :: cs := fun hmem => absurd (hchars '.' hmem) (by decide)
      refine ⟨⟨List.cons_ne_nil _ _, fun d hd => ?_, fun hfirst => ?_, fun hlast => ?_⟩, hdot⟩
      · rw [isPathChar, hchars d hd]
        rfl
      · exact hdot (List.mem_of_head? hfirst)
      · exact hdot (List.mem_of_getLast? hlast)

theorem flatMap_parts_of_not_mem (hnames : ∀ n ∈ names, '.' ∉ n) : names.flatMap parts = names := by
  induction names with
  | nil => rfl
  | cons name names ih =>
      rw [List.forall_mem_cons] at hnames
      rw [List.flatMap_cons, parts_of_not_mem hnames.1, ih hnames.2, List.singleton_append]

theorem toList_path (dirs : List String) (name ext : String) :
    ("/".intercalate (dirs ++ [name]) ++ ext).toList =
      slashed (dirs.map String.toList ++ [name.toList ++ ext.toList]) := by
  rw [slashed_concat_append, String.toList_append, String.toList_intercalate, List.map_append,
    List.map_singleton]
  rfl

/-- An import from the root of the crate reaches the file of its module, unless the first name on
the way is that of a library outside the project. -/
theorem crate_import_strength {modules : List String} (hne : modules ≠ [])
    (hmodules : ∀ m ∈ modules, isIdentifier m.toList = true)
    (hfirst : (modules.head hne).toList ∉ selfWords)
    (hlast : (modules.getLast hne).toList ∉ indexNames) :
    importStrength ("src/" ++ "/".intercalate modules ++ ".rs")
        [importKey ("crate::" ++ "::".intercalate modules)] =
      if (modules.head hne).toList ∈ externalRoots then 0.0 else 1.0 := by
  obtain ⟨front, last, rfl⟩ := (List.eq_nil_or_concat' modules).resolve_left hne
  have hpaths : ∀ m ∈ (front ++ [last]).map String.toList, IsPathName m ∧ '.' ∉ m :=
    List.forall_mem_map.2 fun m hm => isPathName_of_isIdentifier (hmodules m hm)
  have hbelow : ∀ root, IsPathName root ∧ '.' ∉ root →
      ∀ n ∈ root :: (front ++ [last]).map String.toList, IsPathName n ∧ '.' ∉ n :=
    fun root hroot => List.forall_mem_cons.2 ⟨hroot, hpaths⟩
  have hfile : ("src/" ++ "/".intercalate (front ++ [last]) ++ ".rs").toList =
      slashed (("src".toList :: front.map String.toList) ++
        [last.toList ++ '.' :: "rs".toList]) := by
    have hroot := toList_path ("src" :: front) last ".rs"
    rwa [List.cons_append, String.intercalate_cons_of_ne_nil (by simp)] at hroot
  have hsource : ("crate::" ++ "::".intercalate (front ++ [last])).toList =
      [':', ':'].intercalate ("crate".toList :: (front ++ [last]).map String.toList) := by
    rw [List.intercalate_cons_of_ne_nil (by simp)]
    simp
  have hhead : ((front ++ [last]).map String.toList).headD [] =
      ((front ++ [last]).head hne).toList := by
    cases front <;> rfl
  have hsought : sought ("crate".toList :: (front ++ [last]).map String.toList) =
      (front ++ [last]).map String.toList :=
    sought_cons (by decide) (by simp) (hhead ▸ hfirst) fun m hm => (hpaths m hm).1.ne_nil
  have hcrate := hbelow "crate".toList (by decide)
  have hkey : importKeyOf ("crate::" ++ "::".intercalate (front ++ [last])).toList =
      dotted (sought ("crate".toList :: (front ++ [last]).map String.toList)) := by
    rw [hsource]
    exact importKeyOf_colons (fun p hp => (hcrate p hp).1) (fun p hp => (hcrate p hp).2)
      (List.cons_ne_nil _ _)
  have hreaches : Reaches ((front ++ [last]).map String.toList)
      ("src/" ++ "/".intercalate (front ++ [last]) ++ ".rs").toList ↔
        ((front ++ [last]).head hne).toList ∉ externalRoots := by
    have hsrc := hbelow "src".toList (by decide)
    rw [List.map_append, List.map_singleton, ← List.cons_append] at hsrc
    rw [hfile, ← hhead]
    refine reaches_iff (fun n hn => (hsrc n hn).1) (by decide) (by decide) ?_ ?_ ?_ (by simp)
    · exact (hsrc _ List.mem_concat_self).2
    · simpa using hlast
    · rw [flatMap_parts_of_not_mem fun n hn => (hsrc n hn).2, List.map_append, List.map_singleton]
      exact List.suffix_cons _ _
  rw [importStrength_importKey hkey fun p hp => (hcrate p hp).2, hsought,
    if_congr hreaches rfl rfl, ite_not]

theorem crate_import_strength_models :
    importStrength "src/db/models.rs" [importKey "crate::db::models"] = 1.0 ∧
      importStrength "src/core/log.rs" [importKey "crate::core::log"] = 0.0 := by
  constructor
  · have h :=
      @crate_import_strength ["db", "models"] (by decide) (by decide) (by decide) (by decide)
    rw [if_neg (by decide)] at h
    exact h
  · have h :=
      @crate_import_strength ["core", "log"] (by decide) (by decide) (by decide) (by decide)
    rw [if_pos (by decide)] at h
    exact h

/-- A module of the crate that has the name of a library is not reached. -/
theorem crate_import_missed :
    isIdentifier "core".toList = true ∧ "core".toList ∉ selfWords ∧ "core".toList ∉ indexNames ∧
      importStrength "src/core.rs" [importKey "crate::core"] ≠ 1.0 := by
  decide

/-! ## Relative imports -/

/-- A relative import of a file, by the names that its source and the file's path are put together
from. -/
structure RelativeImport where
  /-- The steps that lead to where the names start. -/
  ups : List String
  /-- The directories of the file that the source does not name. -/
  above : List String
  inner : List String
  name : String
  ups_ne_nil : ups ≠ []
  steps : ∀ up ∈ ups, up.toList ∈ relativeStarts
  paths : ∀ n ∈ above ++ inner ++ [name], IsPathName n.toList
  notIndex : name.toList ∉ indexNames

namespace RelativeImport

variable (i : RelativeImport)

def source : String :=
  String.join i.ups ++ "/".intercalate (i.inner ++ [i.name])

def file : String :=
  "/".intercalate (i.above ++ i.inner ++ [i.name]) ++ ".ts"

def strength : Float :=
  importStrength i.file [importKey i.source]

/-- What the file is looked for by: the parts of the names, without what stands behind the last
dot. -/
def target : List (List Char) :=
  sought ((i.inner.map String.toList ++ [withoutExtension i.name.toList]).flatMap parts)

theorem toList_file : i.file.toList =
    slashed ((i.above ++ i.inner).map String.toList ++ [i.name.toList ++ '.' :: "ts".toList]) :=
  toList_path (i.above ++ i.inner) i.name ".ts"

theorem toList_source : i.source.toList =
    slashed (i.ups.map (fun up => up.toList.dropLast) ++
      (i.inner.map String.toList ++ [i.name.toList])) := by
  have hsteps : (i.ups.map fun up => up.toList.dropLast).flatMap (· ++ ['/']) =
      i.ups.flatMap String.toList := by
    rw [List.flatMap_map]
    refine List.flatMap_congr fun up hup => ?_
    have hstart : ∀ start ∈ relativeStarts, start.dropLast ++ ['/'] = start := by decide
    exact hstart _ (i.steps up hup)
  rw [slashed_append _ (by simp), hsteps, source, String.toList_append, String.toList_join,
    String.toList_intercalate, List.map_append, List.map_singleton]
  rfl

theorem strength_eq_ite : i.strength = if Reaches i.target i.file.toList then 1.0 else 0.0 := by
  have hnames : ∀ n ∈ i.inner.map String.toList ++ [i.name.toList], IsPathName n := by
    rw [← List.map_singleton, ← List.map_append]
    refine List.forall_mem_map.2 fun n hn => i.paths n ?_
    rw [List.append_assoc]
    exact List.mem_append_right _ hn
  have hkey : importKeyOf i.source.toList = dotted i.target := by
    rw [toList_source]
    refine importKeyOf_slashed (List.forall_mem_map.2 fun up hup => ?_) ?_ hnames
    · have hnames : ∀ start ∈ relativeStarts, start.dropLast ∈ relativeNames := by decide
      exact hnames _ (i.steps up hup)
    · simpa using i.ups_ne_nil
  refine importStrength_importKey hkey fun p hp => ?_
  obtain ⟨n, -, hpart⟩ := List.mem_flatMap.1 hp
  exact not_mem_of_mem_parts hpart

theorem file_names : ∀ n ∈ (i.above ++ i.inner).map String.toList ++ [i.name.toList],
    IsPathName n := by
  rw [← List.map_singleton, ← List.map_append]
  exact List.forall_mem_map.2 i.paths

/-- A name without a dot: the file is reached, unless the source leads outside the project. -/
theorem reaches_plain (hname : '.' ∉ i.name.toList) :
    Reaches i.target i.file.toList ↔ i.target.headD [] ∉ externalRoots := by
  have hpath := i.file_names i.name.toList List.mem_concat_self
  obtain ⟨kept, hkept, htarget⟩ :=
    sought_concat ((i.inner.map String.toList).flatMap parts) hpath.ne_nil
  have hwhole : i.target = kept ++ [i.name.toList] := by
    rw [target, withoutExtension_of_not_mem hname, List.flatMap_append, List.flatMap_singleton,
      parts_of_not_mem hname, htarget]
  have hsuffix : i.target <:+
      ((i.above ++ i.inner).map String.toList ++ [i.name.toList]).flatMap parts := by
    rw [hwhole, List.flatMap_append, List.flatMap_singleton, parts_of_not_mem hname,
      List.map_append, List.flatMap_append]
    obtain ⟨dropped, hdropped⟩ := hkept
    exact ⟨(i.above.map String.toList).flatMap parts ++ dropped, by simp [← hdropped]⟩
  rw [toList_file]
  exact reaches_iff i.file_names (by decide) (by decide) hname i.notIndex hsuffix (by simp [hwhole])

/-- A name with a dot in it: the file is looked for by what stands before the last dot, and the
file's own key ends with what stands behind it. -/
theorem not_reaches_dotted (hname : i.name.toList = stem ++ '.' :: ext) (hdot : '.' ∉ ext)
    (hindex : ext ∉ indexNames) (hstem : stem.getLast? ≠ some '.')
    (hparts : (parts stem).getLast? ≠ some ext)
    (hdir : ∀ dir ∈ (i.above ++ i.inner).getLast?,
      (parts dir.toList).getLast? ≠ (parts stem).getLast?) :
    ¬Reaches i.target i.file.toList := by
  have hpath := i.file_names i.name.toList List.mem_concat_self
  have hext : ext ≠ [] := by
    rintro rfl
    exact hpath.last (by simp [hname])
  have hne : stem ≠ [] := by
    rintro rfl
    exact hpath.first (by simp [hname])
  have hslash : '/' ∉ stem ++ '.' :: ext := hname ▸ hpath.not_mem (by decide)
  rw [List.mem_append, List.mem_cons, not_or, not_or] at hslash
  have hwithout : withoutExtension i.name.toList = stem := by
    rw [hname]
    exact withoutExtension_append hdot hslash.2.2 hne fun h => hslash.1 (List.mem_of_getLast? h)
  obtain ⟨front, last, hlast, hlastNe⟩ := exists_parts_eq_concat hne hstem
  have htarget : i.target.getLast? = (parts stem).getLast? := by
    obtain ⟨kept, -, hkept⟩ :=
      sought_concat ((i.inner.map String.toList).flatMap parts ++ front) hlastNe
    rw [target, hwithout, List.flatMap_append, List.flatMap_singleton, hlast, ← List.append_assoc,
      hkept, List.getLast?_concat, List.getLast?_concat]
  have hend : (parts i.name.toList).getLast? = some ext := by
    rw [hname, getLast?_parts_append_cons, parts_of_not_mem hdot, List.getLast?_singleton]
  intro hreaches
  obtain ⟨key, hkey, hkeyEnd⟩ := hreaches.getLast?_eq
  rw [toList_file] at hkey
  rw [htarget] at hkeyEnd
  rcases (fileKeysOf_slashed i.file_names (by decide) (by decide) hend hext hindex).2 key hkey with
    rfl | ⟨hdirs, rfl⟩
  · rw [getLast?_parts_withoutSourceRoot, getLast?_parts_dotted, hend] at hkeyEnd
    exact hparts hkeyEnd.symm
  · obtain ⟨outer, dir, hdirs⟩ := (List.eq_nil_or_concat' (i.above ++ i.inner)).resolve_left
      (by simpa using hdirs)
    rw [hdirs, List.map_append, List.map_singleton, getLast?_parts_withoutSourceRoot,
      getLast?_parts_dotted] at hkeyEnd
    exact hdir dir (by simp [hdirs]) hkeyEnd

/-- A relative import reaches the file when the parts of its source, without what stands behind the
last dot, meet those of the file. For a name without a dot they do, unless the source leads outside
the project. For a name with one they do not, unless its last two parts are the same, the last one
is an index name, or the file's directory ends in the part before the dot. -/
theorem strength_eq :
    (i.strength = if Reaches i.target i.file.toList then 1.0 else 0.0) ∧
      ('.' ∉ i.name.toList →
        i.strength = if i.target.headD [] ∈ externalRoots then 0.0 else 1.0) ∧
      ∀ stem ext, i.name.toList = stem ++ '.' :: ext → '.' ∉ ext → ext ∉ indexNames →
        stem.getLast? ≠ some '.' → (parts stem).getLast? ≠ some ext →
          (∀ dir ∈ (i.above ++ i.inner).getLast?,
            (parts dir.toList).getLast? ≠ (parts stem).getLast?) → i.strength = 0.0 := by
  refine ⟨i.strength_eq_ite, fun hname => ?_, ?_⟩
  · rw [strength_eq_ite, if_congr (i.reaches_plain hname) rfl rfl, ite_not]
  · intro stem ext hname hdot hindex hstem hparts hdir
    rw [strength_eq_ite, if_neg (i.not_reaches_dotted hname hdot hindex hstem hparts hdir)]

/-- The file `web/api/client.ts` by `../api/client`. -/
def client : RelativeImport where
  ups := ["../"]
  above := ["web"]
  inner := ["api"]
  name := "client"
  ups_ne_nil := by decide
  steps := by decide
  paths := by decide
  notIndex := by decide

/-- The file `user.service.ts` by `./user.service`. -/
def service : RelativeImport where
  ups := ["./"]
  above := []
  inner := []
  name := "user.service"
  ups_ne_nil := by decide
  steps := by decide
  paths := by decide
  notIndex := by decide

/-- The file `core/log.ts` by `./core/log`. -/
def coreLog : RelativeImport where
  ups := ["./"]
  above := []
  inner := ["core"]
  name := "log"
  ups_ne_nil := by decide
  steps := by decide
  paths := by decide
  notIndex := by decide

theorem strength_eq_client :
    client.strength = 1.0 ∧ service.strength = 0.0 ∧ coreLog.strength = 0.0 := by
  refine ⟨((strength_eq client).2.1 (by decide)).trans (if_neg (by decide)), ?_,
    ((strength_eq coreLog).2.1 (by decide)).trans (if_pos (by decide))⟩
  exact (strength_eq service).2.2 "user".toList "service".toList (by decide) (by decide) (by decide)
    (by decide) (by decide) (by decide)

theorem relative_import_missed :
    (service.source = "./user.service" ∧ service.file = "user.service.ts" ∧
        service.strength ≠ 1.0) ∧
      coreLog.source = "./core/log" ∧ coreLog.file = "core/log.ts" ∧ coreLog.strength ≠ 1.0 := by
  decide

end RelativeImport

end CodeIndex.Ranking

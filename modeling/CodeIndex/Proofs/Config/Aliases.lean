import CodeIndex.Config.Basic
import CodeIndex.Glob.Filter
import CodeIndex.Proofs.Disk.Names
import CodeIndex.Proofs.Glob.Suffix
import CodeIndex.Proofs.Text.Search
import Mathlib
/-!
# Further extensions

A further extension asks for a pattern, which finds its files, and for a language, which is given
to them. The pattern leaves out the dots at the start of the key and keeps its case. The language
is looked up under the extension of a file in lower case. The two agree for the keys that have no
dot and no capital letter; under any other key nothing is ever looked up.
-/

namespace CodeIndex

namespace Config

/-! ## Extensions of files -/

/-- The text can be an extension: letters and digits. -/
structure IsExtension (ext : String) : Prop where
  ne_empty : ext ≠ ""
  alphanum : ∀ c ∈ ext.toList, c.isAlphanum = true

theorem IsExtension.not_mem {ext : String} (h : IsExtension ext) {c : Char}
    (hc : c.isAlphanum = false) : c ∉ ext.toList := by
  intro hmem
  rw [h.alphanum c hmem] at hc
  cases hc

theorem IsExtension.isLiteral {ext : String} (h : IsExtension ext) :
    ∀ c ∈ ext.toList, Glob.isLiteral c = true := by
  intro c hmem
  have hc := h.alphanum c hmem
  unfold Glob.isLiteral
  rw [Bool.not_eq_true', ← Bool.not_eq_true, List.contains_iff_mem]
  intro hspecial
  have hall : ∀ d ∈ ['?', '*', '[', '\x7b', '\x7d', ',', '\\'], d.isAlphanum = false := by
    simp
  rw [hall c hspecial] at hc
  cases hc

/-- A file lies in the project or in one of its directories, and has a name. -/
structure IsPlace (directory name : String) : Prop where
  directory : directory = "" ∨ ∃ above, directory = above ++ "/"
  ne_empty : name ≠ ""
  not_mem_slash : '/' ∉ name.toList

theorem pieces_name {name : List Char} (hname : '/' ∉ name) :
    Text.pieces (· == '/') name = [name] :=
  Text.pieces_eq_singleton (Text.beq_of_not_mem hname)

theorem fileName?_of_place {directory name : String} (h : IsPlace directory name)
    (hhere : name ≠ ".") (hup : name ≠ "..") :
    fileName? (directory ++ name) = some name.toList := by
  obtain ⟨init, hinit⟩ : ∃ init, Text.pieces (· == '/') (directory ++ name).toList =
      init ++ [name.toList] := by
    rcases h.directory with rfl | ⟨above, rfl⟩
    · exact ⟨[], by rw [String.empty_append, pieces_name h.not_mem_slash]; rfl⟩
    · have hsplit : (above ++ "/" ++ name).toList = above.toList ++ '/' :: name.toList := by simp
      exact ⟨Text.pieces (· == '/') above.toList, by
        rw [hsplit, Text.pieces_append_cons (by rfl), pieces_name h.not_mem_slash]⟩
  have hne : name.toList ≠ [] := by simpa using h.ne_empty
  have hnotHere : name.toList ≠ ['.'] := fun heq => hhere (String.toList_inj.1 heq)
  have hnotUp : name.toList ≠ ['.', '.'] := fun heq => hup (String.toList_inj.1 heq)
  have hkept : ([name.toList].filter fun p => !p.isEmpty && p != ['.']) = [name.toList] := by
    simp [h.ne_empty, hnotHere]
  unfold fileName?
  rw [hinit, List.filter_append, hkept]
  simp [hnotUp]

theorem extension?_of_place {directory x ext : String} (h : IsPlace directory x)
    (hext : IsExtension ext) : extension? (directory ++ x ++ "." ++ ext) = some ext.toList := by
  have hchars : (x ++ "." ++ ext).toList = x.toList ++ '.' :: ext.toList := by simp
  have hplace : IsPlace directory (x ++ "." ++ ext) := by
    refine ⟨h.directory, ?_, ?_⟩
    · simp [h.ne_empty]
    · rw [hchars, List.mem_append, not_or]
      exact ⟨h.not_mem_slash, List.not_mem_cons_of_ne_of_not_mem (by decide)
        (hext.not_mem (by decide))⟩
  have hends : ∀ other : String, other.toList.getLast? = some '.' → x ++ "." ++ ext ≠ other := by
    rintro other hother rfl
    obtain ⟨c, cs, hcs⟩ := List.exists_cons_of_ne_nil (l := ext.toList) (by
      simpa using hext.ne_empty)
    have hmem : '.' ∈ ext.toList := by
      rw [hchars, List.getLast?_append_cons, hcs, List.getLast?_cons_cons, ← hcs] at hother
      exact List.mem_of_getLast? hother
    exact hext.not_mem (by decide) hmem
  have hname := fileName?_of_place hplace (hends "." rfl) (hends ".." rfl)
  have hsplit : Text.splitLast ['.'] (x ++ "." ++ ext).toList = some (x.toList, ext.toList) :=
    Text.splitLast_singleton.2 ⟨hchars, hext.not_mem (by decide)⟩
  have hpath : directory ++ x ++ "." ++ ext = directory ++ (x ++ "." ++ ext) := by
    simp [String.append_assoc]
  unfold extension?
  rw [hpath, hname, Option.bind_eq_bind, Option.bind_some, hsplit]
  simp [h.ne_empty]

/-- An extension has no dot. -/
theorem not_mem_of_extension? {path : String} {ext : List Char}
    (hext : extension? path = some ext) : '.' ∉ ext := by
  unfold extension? at hext
  obtain ⟨name, -, hext⟩ := Option.bind_eq_some_iff.1 hext
  obtain ⟨⟨stem, rest⟩, hsplit, hext⟩ := Option.bind_eq_some_iff.1 hext
  dsimp only at hext
  split at hext
  · cases hext
  · cases hext
    exact (Text.splitLast_singleton.1 hsplit).2

/-! ## Keys -/

/-- The extension for which a key asks in the patterns. -/
def bareExtension (key : String) : String :=
  String.ofList (Text.dropStart (· == '.') key.toList)

/-- The key under which the language of a file with an extension is looked up. -/
def lookupKey (ext : List Char) : String :=
  String.ofList (ext.map Char.toLower)

theorem toLower_eq_dot {c : Char} (h : c.toLower = '.') : c = '.' := by
  have hupper : ¬ c.isUpper := by
    intro hupper
    have halpha : c.isAlpha = true := by simp [Char.isAlpha, hupper]
    rw [← Char.isAlpha_toLower_eq_isAlpha, h] at halpha
    cases halpha
  rwa [Char.toLower_eq_of_not_isUpper hupper] at h

/-- Only keys that are spelled like the extension they ask for are ever looked up. -/
theorem eq_of_lookupKey {path key : String} {ext : List Char}
    (hext : extension? path = some ext) (hkey : lookupKey ext = key) :
    key = lookupKey (bareExtension key).toList := by
  have hchars : key.toList = ext.map Char.toLower := by rw [← hkey, lookupKey, String.toList_ofList]
  have hdot : ∀ c ∈ key.toList, (c == '.') = false := by
    intro c hc
    rw [beq_eq_false_iff_ne]
    rintro rfl
    obtain ⟨d, hd, hlower⟩ := List.mem_map.1 (hchars ▸ hc)
    exact not_mem_of_extension? hext (toLower_eq_dot hlower ▸ hd)
  have hbare : Text.dropStart (· == '.') key.toList = key.toList := by
    unfold Text.dropStart
    cases hcs : key.toList with
    | nil => rfl
    | cons c cs => exact List.dropWhile_cons_of_neg (by simpa using hdot c (by simp [hcs]))
  have hlower : key.toList.map Char.toLower = key.toList := by
    rw [hchars, List.map_map]
    exact List.map_congr_left fun c _ => Char.toLower_toLower_eq_toLower c
  rw [lookupKey, bareExtension, String.toList_ofList, hbare, hlower, String.ofList_toList]

variable {extra : List (String × String)}

theorem detectLanguage_of_extension? {path : String} {ext : List Char}
    (hext : extension? path = some ext) :
    detectLanguage extra path =
      match extra.find? (·.1 == lookupKey ext) with
      | some (_, language) => Language.canonical? language
      | none => Language.ofExtension? (lookupKey ext) := by
  unfold detectLanguage
  rw [hext]
  rfl

/-- The other entries. -/
def without (extra : List (String × String)) (key : String) : List (String × String) :=
  extra.filter (·.1 != key)

theorem detectLanguage_without {path key : String}
    (hkey : ∀ ext, extension? path = some ext → lookupKey ext ≠ key) :
    detectLanguage extra path = detectLanguage (without extra key) path := by
  cases hext : extension? path with
  | none =>
      unfold detectLanguage
      rw [hext]
      rfl
  | some ext =>
      have hfind : (without extra key).find? (·.1 == lookupKey ext) =
          extra.find? (·.1 == lookupKey ext) := by
        unfold without
        rw [List.find?_filter]
        refine congrArg (fun p => extra.find? p) (funext fun e => ?_)
        by_cases he : e.1 = lookupKey ext
        · simp [he, hkey ext hext]
        · simp [he]
      rw [detectLanguage_of_extension? hext, detectLanguage_of_extension? hext, hfind]

/-! ## Patterns -/

theorem mem_of_mapM {α β ε : Type} {f : α → Except ε β} {xs : List α} {ys : List β}
    (hmap : xs.mapM f = .ok ys) {x : α} (hx : x ∈ xs) : ∃ y ∈ ys, f x = .ok y := by
  induction xs generalizing ys with
  | nil => cases hx
  | cons a xs ih =>
      rw [List.mapM_cons] at hmap
      cases hfirst : f a with
      | error e =>
          rw [hfirst] at hmap
          cases hmap
      | ok b =>
          cases hrest : xs.mapM f with
          | error e =>
              rw [hfirst, hrest] at hmap
              cases hmap
          | ok bs =>
              rw [hfirst, hrest] at hmap
              cases hmap
              rcases List.mem_cons.1 hx with rfl | hx
              · exact ⟨b, List.mem_cons_self, hfirst⟩
              · obtain ⟨y, hy, hread⟩ := ih hrest hx
                exact ⟨y, List.mem_cons_of_mem b hy, hread⟩

theorem included_of_read {included excluded : List String} {f : PathFilter}
    (hread : PathFilter.read included excluded = .ok f) {pattern : String}
    (hpattern : pattern ∈ included) :
    ∃ g ∈ f.included, Glob.read .strict pattern = .ok g := by
  unfold PathFilter.read at hread
  cases hincluded : included.mapM (Glob.read .strict) with
  | error e =>
      rw [hincluded] at hread
      cases hread
  | ok gs =>
      cases hexcluded : excluded.mapM (Glob.read .strict) with
      | error e =>
          rw [hincluded, hexcluded] at hread
          cases hread
      | ok hs =>
          rw [hincluded, hexcluded] at hread
          cases hread
          exact mem_of_mapM hincluded hpattern

variable {c : Config} {key language : String}

theorem anyMatches_of_entry {f : PathFilter}
    (hread : PathFilter.read c.allIncludes c.excludePatterns = .ok f)
    (hentry : (key, language) ∈ c.extraExtensions) (hext : IsExtension (bareExtension key))
    (before : String) :
    PathFilter.anyMatches f.included (before ++ "." ++ bareExtension key) = true := by
  have hpattern : "**/*." ++ bareExtension key ∈ c.allIncludes :=
    List.mem_append_right _ (List.mem_map.2 ⟨_, hentry, rfl⟩)
  obtain ⟨g, hg, hglob⟩ := included_of_read hread hpattern
  rw [Glob.read_extension hext.isLiteral] at hglob
  cases hglob
  exact List.any_eq_true.2 ⟨_, hg, Glob.matches_extension hext.ne_empty before⟩

theorem canonical?_of_fault? (hvalid : c.fault? = none)
    (hentry : (key, language) ∈ c.extraExtensions) :
    Language.canonical? language = some language := by
  have hfaults : c.faults = [] := List.head?_eq_none_iff.1 hvalid
  unfold faults at hfaults
  have hlast := (List.append_eq_nil_iff.1 hfaults).2
  rw [List.map_eq_nil_iff, List.filter_eq_nil_iff] at hlast
  have hknown := hlast _ hentry
  rw [Bool.not_eq_true, Option.isNone_eq_false_iff] at hknown
  unfold Language.canonical? at hknown ⊢
  split at hknown
  · rename_i hname
    rw [if_pos hname]
  · cases hknown

theorem find?_of_only (hentry : (key, language) ∈ extra)
    (honly : ∀ e ∈ extra, bareExtension e.1 = bareExtension key → e = (key, language)) :
    extra.find? (·.1 == key) = some (key, language) := by
  obtain ⟨e, he⟩ := Option.isSome_iff_exists.1
    (List.find?_isSome (p := fun e => e.1 == key) |>.2 ⟨_, hentry, beq_self_eq_true key⟩)
  have hkey : e.1 = key := by simpa using List.find?_some he
  rw [he, honly e (List.mem_of_find?_eq_some he) (congrArg bareExtension hkey)]

/-- Files with a further extension of valid settings are always found by the patterns. They are
given the language of the entry when the key has no dot at its start and no capital letter, and
otherwise the entry counts for no path at all. -/
theorem alias_scanned_and_detected (hvalid : c.fault? = none) {f : PathFilter}
    (hread : PathFilter.read c.allIncludes c.excludePatterns = .ok f)
    (hentry : (key, language) ∈ c.extraExtensions) (hext : IsExtension (bareExtension key))
    (honly : ∀ e ∈ c.extraExtensions, bareExtension e.1 = bareExtension key → e = (key, language)) :
    Language.canonical? language = some language ∧
      (∀ directory x, IsPlace directory x →
        let path := directory ++ x ++ "." ++ bareExtension key
        PathFilter.anyMatches f.included path = true ∧
          (detectLanguage c.extraExtensions path = some language ↔
            key = lookupKey (bareExtension key).toList ∨
              detectLanguage (without c.extraExtensions key) path = some language)) ∧
      (key ≠ lookupKey (bareExtension key).toList → ∀ path,
        detectLanguage c.extraExtensions path =
          detectLanguage (without c.extraExtensions key) path) := by
  have hcanonical := canonical?_of_fault? hvalid hentry
  have hnever : key ≠ lookupKey (bareExtension key).toList → ∀ path,
      detectLanguage c.extraExtensions path =
        detectLanguage (without c.extraExtensions key) path := fun hspelled path =>
    detectLanguage_without fun ext hfile hkey => hspelled (eq_of_lookupKey hfile hkey)
  refine ⟨hcanonical, fun directory x hplace => ⟨anyMatches_of_entry hread hentry hext _, ?_⟩,
    hnever⟩
  by_cases hspelled : key = lookupKey (bareExtension key).toList
  · have hfind := find?_of_only hentry honly
    rw [detectLanguage_of_extension? (extension?_of_place hplace hext), ← hspelled, hfind]
    exact ⟨fun _ => Or.inl rfl, fun _ => hcanonical⟩
  · rw [hnever hspelled]
    exact ⟨Or.inr, fun h => h.resolve_left hspelled⟩

/-- Settings that know a few extensions by other names. -/
def aliased (extra : List (String × String)) : Config where
  includePatterns := ["README"]
  excludePatterns := []
  extraExtensions := extra

theorem alias_scanned_and_detected_lower :
    let c := aliased [("svelte", "typescript"), ("h++", "cpp")]
    let f : PathFilter := ⟨[⟨"README".toList.map .char⟩, Glob.ofExtension "svelte".toList,
      Glob.ofExtension "h++".toList], []⟩
    PathFilter.read c.allIncludes c.excludePatterns = .ok f ∧
      PathFilter.anyMatches f.included "ui/Widget.svelte" = true ∧
      detectLanguage c.extraExtensions "ui/Widget.svelte" = some "typescript" := by
  intro c f
  have hvalid : c.fault? = none := by decide +kernel
  have hread : PathFilter.read c.allIncludes c.excludePatterns = .ok f := rfl
  have hext : IsExtension (bareExtension "svelte") :=
    ⟨by decide +kernel, by simp [bareExtension, Text.dropStart]⟩
  have hentry : ("svelte", "typescript") ∈ c.extraExtensions := List.mem_cons_self
  obtain ⟨-, hfiles, -⟩ :=
    alias_scanned_and_detected hvalid hread hentry hext (by decide +kernel)
  have hplace : IsPlace "ui/" "Widget" := ⟨Or.inr ⟨"ui", rfl⟩, by decide, by decide⟩
  obtain ⟨hmatches, hdetected⟩ := hfiles "ui/" "Widget" hplace
  exact ⟨hread, hmatches, hdetected.2 (Or.inl (by decide +kernel))⟩

/-- One key has capital letters and the other a dot. Both extensions are asked for, and no file
that has one is recognised. -/
theorem alias_scanned_undetected :
    let c := aliased [("XYZ", "python"), (".abc", "python")]
    c.fault? = none ∧
      (∃ f, PathFilter.read c.allIncludes c.excludePatterns = .ok f ∧
        PathFilter.anyMatches f.included "dir/x.XYZ" = true ∧
        PathFilter.anyMatches f.included "dir/x.abc" = true) ∧
      detectLanguage c.extraExtensions "dir/x.XYZ" = none ∧
      detectLanguage c.extraExtensions "dir/x.abc" = none := by
  intro c
  refine ⟨by decide +kernel, ⟨_, rfl, ?_, ?_⟩, ?_, ?_⟩ <;> decide +kernel

end Config

end CodeIndex

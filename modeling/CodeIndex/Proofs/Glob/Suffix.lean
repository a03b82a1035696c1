import CodeIndex.Proofs.Glob.Language
import CodeIndex.Proofs.Text.Bytes
/-!
# Patterns for extensions

Two stars, a slash, a star, a dot and an extension: the pattern matches every path that ends in
the dot and the extension.
-/

namespace CodeIndex.Glob

/-- The character means itself in a pattern, and not a wildcard, a class, a group or an escape. -/
def isLiteral (c : Char) : Bool :=
  !(['?', '*', '[', '\x7b', '\x7d', ',', '\\'].contains c)

variable {brackets : Brackets} {slashes : Slashes}

theorem readFrom_literals {cs : List Char} (hcs : ∀ c ∈ cs, isLiteral c = true) {fuel : Nat}
    (hfuel : cs.length ≤ fuel) (r : Reading) (prev : Option Char) :
    readFrom brackets fuel r prev cs =
      .ok { r with current := (cs.map GlobPart.char).reverse ++ r.current } := by
  induction cs generalizing fuel r prev with
  | nil =>
      unfold readFrom
      rfl
  | cons c cs ih =>
      obtain ⟨fuel, rfl⟩ := Nat.exists_eq_add_one_of_ne_zero (Nat.ne_of_gt (Nat.lt_of_lt_of_le
        (Nat.succ_pos _) hfuel))
      have hc := hcs c List.mem_cons_self
      have hstep : readFrom brackets (fuel + 1) r prev (c :: cs) =
          readFrom brackets fuel (r.push (.char c)) (some c) cs := by
        rw [readFrom]
        all_goals
          rintro rfl
          cases hc
      have hrest : ∀ d ∈ cs, isLiteral d = true := fun d hd => hcs d (List.mem_cons_of_mem c hd)
      rw [hstep, ih hrest (Nat.le_of_succ_le_succ hfuel)]
      simp [Reading.push]

/-- The pattern for files with an extension. -/
def ofExtension (ext : List Char) : Glob :=
  ⟨.anyStart :: .star :: .char '.' :: ext.map .char⟩

theorem read_extension {ext : String} (hext : ∀ c ∈ ext.toList, isLiteral c = true) :
    Glob.read brackets ("**/*." ++ ext) = .ok (ofExtension ext.toList) := by
  have hchars : ("**/*." ++ ext).toList = ['*', '*', '/', '*', '.'] ++ ext.toList := by simp
  let r : Reading := ⟨[.star, .anyStart], []⟩
  have hdot : ∀ c ∈ '.' :: ext.toList, isLiteral c = true := List.forall_mem_cons.2 ⟨rfl, hext⟩
  have hread : readFrom brackets (ext.toList.length + 5) ⟨[], []⟩ none
      (['*', '*', '/', '*', '.'] ++ ext.toList) =
      readFrom brackets (ext.toList.length + 3) r (some '*') ('.' :: ext.toList) := rfl
  have hparts : parts? brackets ("**/*." ++ ext).toList =
      .ok (.anyStart :: .star :: .char '.' :: ext.toList.map .char) := by
    unfold parts?
    rw [hchars, List.length_append, Nat.add_comm, List.length_cons, List.length_cons,
      List.length_cons, List.length_cons, List.length_cons, List.length_nil, hread,
      readFrom_literals hdot (by simp)]
    simp [r, bind, Except.bind, pure, Except.pure]
  unfold Glob.read
  rw [hparts]
  rfl

theorem bytes_mem_chars (cs : List Char) :
    (String.ofList cs).toUTF8.toList ∈ partsLanguage slashes (cs.map .char) := by
  induction cs with
  | nil =>
      rw [List.map_nil, partsLanguage, Language.mem_one]
      decide +kernel
  | cons c cs ih =>
      have hsplit : String.ofList (c :: cs) = String.singleton c ++ String.ofList cs := by
        rw [← String.toList_inj]
        simp
      rw [List.map_cons, partsLanguage, hsplit, Text.toList_toUTF8_append]
      exact Language.append_mem_mul rfl ih

theorem matches_extension {ext : String} (hne : ext ≠ "") (before : String) :
    (ofExtension ext.toList).matches .ordinary (before ++ "." ++ ext) = true := by
  have hchars : (String.ofList ('.' :: ext.toList)).toUTF8.toList ∈
      partsLanguage .ordinary (('.' :: ext.toList).map .char) := bytes_mem_chars _
  have hends : String.ofList ('.' :: ext.toList) = "." ++ ext := by
    rw [← String.toList_inj]
    simp
  have hstar : before.toUTF8.toList ∈ partLanguage .ordinary .star := fun b _ => rfl
  have hstart : [] ∈ partLanguage .ordinary .anyStart := by
    unfold partLanguage directories
    exact Or.inl rfl
  have hmem : (before ++ "." ++ ext).toUTF8.toList ∈
      partsLanguage .ordinary (ofExtension ext.toList).parts := by
    rw [String.append_assoc, Text.toList_toUTF8_append, ← hends, ← List.nil_append (_ ++ _)]
    exact Language.append_mem_mul hstart (Language.append_mem_mul hstar hchars)
  have hneeds : needsName .ordinary (ofExtension ext.toList).parts = false := by
    obtain ⟨c, cs, hcs⟩ := List.exists_cons_of_ne_nil (l := ext.toList) (by simpa using hne)
    have hplain : ((cs.map GlobPart.char).all isPlain) = true := by
      rw [List.all_map]
      exact List.all_eq_true.2 fun _ _ => rfl
    unfold needsName ofExtension
    rw [hcs]
    simp [decidedByName, decidedByExtension, decidedByEnding, isNamePart, isPlain, hplain]
  unfold Glob.matches
  rw [matchesBytes_iff]
  refine Or.inr ⟨hmem, ?_⟩
  rw [hneeds]
  exact fun h => Bool.false_ne_true h.2

end CodeIndex.Glob

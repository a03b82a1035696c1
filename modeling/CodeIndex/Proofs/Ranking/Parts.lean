import CodeIndex.Proofs.Text.Lines
import CodeIndex.Proofs.Text.Search
import CodeIndex.Proofs.Text.Trimming
import CodeIndex.Ranking.ModuleKey
/-!
# Parts of a key

A key is read as the parts between its dots, a path as the names between its slashes. Two keys
meet when the parts of one are the last parts of the other. What is dropped from the ends of a key
is dropped part by part.
-/

namespace CodeIndex.Ranking

open Text

variable {a b key p : List Char} {ps qs names words : List (List Char)} {x : Char}

def parts (key : List Char) : List (List Char) :=
  key.splitOn '.'

def dotted (ps : List (List Char)) : List Char :=
  ['.'].intercalate ps

def slashed (names : List (List Char)) : List Char :=
  ['/'].intercalate names

/-! ## Parts -/

theorem dotted_parts (key : List Char) : dotted (parts key) = key :=
  List.intercalate_splitOn '.'

theorem parts_dotted (hps : ∀ p ∈ ps, '.' ∉ p) (hne : ps ≠ []) : parts (dotted ps) = ps :=
  List.splitOn_intercalate '.' hps hne

theorem parts_ne_nil (key : List Char) : parts key ≠ [] :=
  List.splitOn_ne_nil '.' key

theorem parts_append_cons (a b : List Char) : parts (a ++ '.' :: b) = parts a ++ parts b :=
  List.splitOn_append_cons_self a b

theorem parts_of_not_mem (hkey : '.' ∉ key) : parts key = [key] :=
  List.splitOn_eq_singleton hkey

/-- A text is cut at its first dot, if it has one. -/
theorem eq_append_cons_or_not_mem (key : List Char) :
    (∃ front back, key = front ++ '.' :: back ∧ '.' ∉ front) ∨ '.' ∉ key := by
  by_cases hdot : '.' ∈ key
  · exact Or.inl (List.eq_append_cons_of_mem hdot)
  · exact Or.inr hdot

theorem not_mem_of_mem_parts (hp : p ∈ parts key) : '.' ∉ p := by
  induction hlength : key.length using Nat.strong_induction_on generalizing key with
  | _ n ih =>
      rcases eq_append_cons_or_not_mem key with ⟨front, back, rfl, hfront⟩ | hkey
      · rw [parts_append_cons, parts_of_not_mem hfront, List.singleton_append, List.mem_cons] at hp
        rcases hp with rfl | hback
        · exact hfront
        · exact ih back.length (by simp at hlength; omega) hback rfl
      · rw [parts_of_not_mem hkey, List.mem_singleton] at hp
        exact hp ▸ hkey

theorem intercalate_cons_eq (x : Char) (p : List Char) (hne : ps ≠ []) :
    [x].intercalate (p :: ps) = p ++ x :: [x].intercalate ps := by
  rw [List.intercalate_cons_of_ne_nil hne, List.append_assoc, List.singleton_append]

/-- The parts of names with dots between them are the parts of each name in turn. -/
theorem parts_dotted_names (hne : names ≠ []) : parts (dotted names) = names.flatMap parts := by
  induction names with
  | nil => exact absurd rfl hne
  | cons name names ih =>
      by_cases hnames : names = []
      · subst hnames
        simp [dotted]
      · rw [dotted, intercalate_cons_eq '.' name hnames, ← dotted, parts_append_cons, ih hnames,
          List.flatMap_cons]

theorem slashed_append (ups : List (List Char)) (hne : names ≠ []) :
    slashed (ups ++ names) = ups.flatMap (· ++ ['/']) ++ slashed names := by
  induction ups with
  | nil => rfl
  | cons up ups ih =>
      rw [List.cons_append, slashed, intercalate_cons_eq '/' up (by simp [hne]), ← slashed, ih,
        List.flatMap_cons]
      simp

theorem slashesAsDots_slashed (hnames : ∀ name ∈ names, '/' ∉ name) :
    slashesAsDots (slashed names) = dotted names := by
  have hsame : ∀ {cs : List Char}, '/' ∉ cs → slashesAsDots cs = cs := by
    intro cs hcs
    refine (List.map_congr_left fun c hc => ?_).trans (List.map_id cs)
    have hne : (c == '/') = false := beq_of_not_mem hcs c hc
    simp [hne]
  induction names with
  | nil => rfl
  | cons name names ih =>
      rw [List.forall_mem_cons] at hnames
      by_cases hnil : names = []
      · subst hnil
        simpa [slashed, dotted] using hsame hnames.1
      · have hrest := ih hnames.2
        rw [slashed, intercalate_cons_eq '/' name hnil, dotted, intercalate_cons_eq '.' name hnil]
        rw [slashed, dotted] at hrest
        rw [← hrest, slashesAsDots, List.map_append, List.map_cons]
        exact congrArg (· ++ _) (hsame hnames.1)

theorem replaceAll_colons (hps : ∀ p ∈ ps, ':' ∉ p) :
    replaceAll [':', ':'] ['.'] ([':', ':'].intercalate ps) = dotted ps := by
  induction ps with
  | nil => rfl
  | cons p ps ih =>
      rw [List.forall_mem_cons] at hps
      by_cases hnil : ps = []
      · subst hnil
        simpa [dotted] using replaceAll_eq_self hps.1 [':'] ['.']
      · rw [List.intercalate_cons_of_ne_nil hnil, List.append_assoc, replaceAll_append hps.1,
          replaceAll_occurrence, ih hps.2, dotted, dotted, intercalate_cons_eq '.' p hnil]
        rfl

/-- Where a list ends is where its last members end. -/
theorem getLast?_of_isSuffix (hsuffix : ps <:+ qs) (hne : ps ≠ []) : ps.getLast? = qs.getLast? := by
  obtain ⟨front, rfl⟩ := hsuffix
  rw [List.getLast?_append, List.getLast?_eq_some_getLast hne, Option.some_or]

theorem getLast?_parts_append_cons (a b : List Char) :
    (parts (a ++ '.' :: b)).getLast? = (parts b).getLast? := by
  rw [parts_append_cons]
  exact (getLast?_of_isSuffix (List.suffix_append _ _) (parts_ne_nil b)).symm

/-- A text that does not end in a dot ends in a part that is not empty. -/
theorem exists_parts_eq_concat (hne : key ≠ []) (hlast : key.getLast? ≠ some '.') :
    ∃ front last, parts key = front ++ [last] ∧ last ≠ [] := by
  obtain ⟨front, last, hparts⟩ := (List.eq_nil_or_concat' _).resolve_left (parts_ne_nil key)
  refine ⟨front, last, hparts, ?_⟩
  rintro rfl
  have hkey := dotted_parts key
  rw [hparts] at hkey
  by_cases hfront : front = []
  · subst hfront
    exact hne hkey.symm
  · rw [dotted, intercalate_append hfront (List.cons_ne_nil _ _)] at hkey
    exact hlast (hkey ▸ by simp)

/-! ## Keys that meet -/

theorem parts_isSuffix_iff :
    parts b <:+ parts a ↔ a = b ∨ ∃ front, a = front ++ '.' :: b := by
  constructor
  · rintro ⟨front, hfront⟩
    have hwhole := congrArg dotted hfront
    rw [dotted_parts] at hwhole
    by_cases hnil : front = []
    · rw [hnil, List.nil_append, dotted_parts] at hwhole
      exact Or.inl hwhole.symm
    · rw [dotted, intercalate_append hnil (parts_ne_nil b), ← dotted, ← dotted, dotted_parts]
        at hwhole
      exact Or.inr ⟨_, hwhole.symm⟩
  · rintro (rfl | ⟨front, rfl⟩)
    · exact List.suffix_refl _
    · rw [parts_append_cons]
      exact List.suffix_append _ _

theorem endsWithKey_iff : endsWithKey a b = true ↔ ∃ front, a = front ++ '.' :: b := by
  unfold endsWithKey
  cases hstrip : stripEnd b a with
  | none =>
      have hnot : ∀ front, a ≠ front ++ '.' :: b := by
        rintro front rfl
        have hend := stripEnd_append (front ++ ['.']) b
        rw [List.append_assoc, List.singleton_append, hstrip] at hend
        cases hend
      simpa using hnot
  | some head =>
      obtain rfl := stripEnd_eq_some_iff.1 hstrip
      rw [beq_iff_eq, List.getLast?_eq_some_iff]
      constructor
      · rintro ⟨front, rfl⟩
        exact ⟨front, by simp⟩
      · rintro ⟨front, hfront⟩
        rw [List.append_cons] at hfront
        exact ⟨front, List.append_cancel_right hfront⟩

/-- Keys meet when the parts of one are the last parts of the other. -/
theorem keysMeet_iff : keysMeet a b = true ↔ parts a <:+ parts b ∨ parts b <:+ parts a := by
  simp only [keysMeet, Bool.or_eq_true, beq_iff_eq, endsWithKey_iff, parts_isSuffix_iff]
  grind

theorem isExternal_eq (key : List Char) :
    isExternal key = externalRoots.contains ((parts key).headD []) := by
  have hhead : (parts key).headD [] = key.takeWhile (· != '.') := by
    rcases eq_append_cons_or_not_mem key with ⟨front, back, rfl, hfront⟩ | hkey
    · rw [parts_append_cons, parts_of_not_mem hfront, List.takeWhile_append_of_pos]
      · simp
      · intro c hc
        rw [bne_iff_ne]
        rintro rfl
        exact hfront hc
    · rw [parts_of_not_mem hkey, List.headD_cons, List.takeWhile_eq_self_iff.2]
      intro c hc
      rw [bne_iff_ne]
      rintro rfl
      exact hkey hc
  rw [isExternal, hhead]

/-! ## Leading words -/

/-- The list without its leading members that are among the words, its last member apart. -/
def withoutLeading (words : List (List Char)) : List (List Char) → List (List Char)
  | p :: q :: ps => if p ∈ words then withoutLeading words (q :: ps) else p :: q :: ps
  | ps => ps

theorem withoutLeading_isSuffix (words ps : List (List Char)) :
    withoutLeading words ps <:+ ps := by
  fun_induction withoutLeading words ps with
  | case1 p q ps hp ih => exact ih.trans (List.suffix_cons _ _)
  | case2 p q ps hp => exact List.suffix_refl _
  | case3 ps hps => exact List.suffix_refl _

theorem withoutLeading_ne_nil (hne : ps ≠ []) : withoutLeading words ps ≠ [] := by
  fun_induction withoutLeading words ps with
  | case1 p q ps hp ih => exact ih (List.cons_ne_nil _ _)
  | case2 p q ps hp => exact hne
  | case3 ps hps => exact hne

theorem withoutLeading_append (hps : ∀ p ∈ ps, p ∈ words) (hne : qs ≠ [])
    (hqs : qs.headD [] ∉ words) : withoutLeading words (ps ++ qs) = qs := by
  obtain ⟨q, qs, rfl⟩ := List.exists_cons_of_ne_nil hne
  induction ps with
  | nil =>
      cases qs with
      | nil => rfl
      | cons r qs => exact if_neg hqs
  | cons p ps ih =>
      rw [List.forall_mem_cons] at hps
      have hrest := ih hps.2
      cases ps with
      | nil => exact (if_pos hps.1).trans hrest
      | cons r ps => exact (if_pos hps.1).trans hrest

theorem stripStart_word {w : List Char} (hw : x ∉ w) (hp : x ∉ p) (b : List Char) :
    stripStart (w ++ [x]) (p ++ x :: b) = if w = p then some b else none := by
  split
  · rename_i hsame
    rw [stripStart_eq_some_iff, hsame, List.append_assoc, List.singleton_append]
  · rename_i hdifferent
    rw [Option.eq_none_iff_forall_ne_some]
    intro rest hstrip
    rw [stripStart_eq_some_iff, List.append_assoc, List.singleton_append] at hstrip
    -- both are what stands before the first separator
    have hfirst := splitFirst_singleton.2 ⟨hstrip, hw⟩
    rw [splitFirst_singleton.2 ⟨rfl, hp⟩] at hfirst
    cases hfirst
    exact hdifferent rfl

/-- A word and a separator are dropped at once, whichever of the words it is. -/
theorem findSome?_stripStart_word (hwords : ∀ w ∈ words, x ∉ w) (hp : x ∉ p) (b : List Char) :
    (words.map (· ++ [x])).findSome? (stripStart · (p ++ x :: b)) =
      if p ∈ words then some b else none := by
  induction words with
  | nil => rfl
  | cons w words ih =>
      rw [List.forall_mem_cons] at hwords
      rw [List.map_cons, List.findSome?_cons, stripStart_word hwords.1 hp, ih hwords.2]
      by_cases hsame : w = p
      · simp [hsame]
      · simp [hsame, Ne.symm hsame]

/-- Without a separator there is no leading word. -/
theorem dropLeading_of_not_mem (words : List (List Char)) (fuel : Nat) (hp : x ∉ p) :
    dropLeading (words.map (· ++ [x])) fuel p = p := by
  have hnone : (words.map (· ++ [x])).findSome? (stripStart · p) = none := by
    refine List.findSome?_eq_none_iff.2 fun w hw => ?_
    obtain ⟨w, -, rfl⟩ := List.mem_map.1 hw
    rw [Option.eq_none_iff_forall_ne_some]
    intro rest hstrip
    rw [stripStart_eq_some_iff.1 hstrip] at hp
    simp at hp
  cases fuel with
  | zero => rfl
  | succ fuel => rw [dropLeading, hnone]

theorem dropLeading_intercalate {fuel : Nat} (hwords : ∀ w ∈ words, x ∉ w)
    (hps : ∀ p ∈ ps, x ∉ p) (hfuel : ps.length ≤ fuel + 1) :
    dropLeading (words.map (· ++ [x])) fuel ([x].intercalate ps) =
      [x].intercalate (withoutLeading words ps) := by
  fun_induction withoutLeading words ps generalizing fuel with
  | case1 p q ps hp ih =>
      rw [List.forall_mem_cons] at hps
      rw [List.length_cons, List.length_cons] at hfuel
      obtain ⟨fuel, rfl⟩ := Nat.exists_eq_add_one_of_ne_zero (by omega : fuel ≠ 0)
      rw [intercalate_cons_eq x p (List.cons_ne_nil q ps), dropLeading,
        findSome?_stripStart_word hwords hps.1, if_pos hp]
      exact ih hps.2 (by simpa using hfuel)
  | case2 p q ps hp =>
      cases fuel with
      | zero => rfl
      | succ fuel =>
          rw [List.forall_mem_cons] at hps
          rw [intercalate_cons_eq x p (List.cons_ne_nil q ps), dropLeading,
            findSome?_stripStart_word hwords hps.1, if_neg hp]
  | case3 ps hshort =>
      apply dropLeading_of_not_mem
      match ps, hshort with
      | [], _ => simp
      | [p], _ => simpa using hps
      | p :: q :: ps, hshort => exact absurd rfl (hshort p q ps)

theorem length_le_length_intercalate (x : Char) (ps : List (List Char)) :
    ps.length ≤ ([x].intercalate ps).length + 1 := by
  induction ps with
  | nil => exact Nat.zero_le _
  | cons p ps ih =>
      by_cases hnil : ps = []
      · subst hnil
        simp
      · rw [intercalate_cons_eq x p hnil, List.length_cons, List.length_append, List.length_cons]
        omega

/-! ## Empty parts at the ends -/

/-- The parts from the first one that is not empty to the last one. -/
def innerParts (ps : List (List Char)) : List (List Char) :=
  (ps.dropWhile List.isEmpty).rdropWhile List.isEmpty

theorem dropStart_dotted (hps : ∀ p ∈ ps, '.' ∉ p) :
    dropStart (· == '.') (dotted ps) = dotted (ps.dropWhile List.isEmpty) := by
  induction ps with
  | nil => rfl
  | cons p ps ih =>
      rw [List.forall_mem_cons] at hps
      cases p with
      | nil =>
          have hrest := ih hps.2
          rw [List.dropWhile_cons_of_pos List.isEmpty_nil, ← hrest]
          by_cases hnil : ps = []
          · subst hnil
            rfl
          · rw [dotted, intercalate_cons_eq '.' [] hnil]
            rfl
      | cons c p =>
          have hc : (c == '.') = false := beq_of_not_mem hps.1 c List.mem_cons_self
          rw [List.dropWhile_cons_of_neg (by simp), dropStart, dotted]
          rw [List.intercalate_cons_cons_left, List.dropWhile_cons_of_neg (by simp [hc])]

theorem dropEnd_dotted (hps : ∀ p ∈ ps, '.' ∉ p) :
    dropEnd (· == '.') (dotted ps) = dotted (ps.rdropWhile List.isEmpty) := by
  induction ps using List.reverseRecOn with
  | nil => rfl
  | append_singleton ps p ih =>
      have hfront : ∀ q ∈ ps, '.' ∉ q := fun q hq => hps q (List.mem_append_left _ hq)
      have hlast : '.' ∉ p := hps p List.mem_concat_self
      by_cases hp : p = []
      · subst hp
        rw [List.rdropWhile_concat_pos _ _ _ List.isEmpty_nil, ← ih hfront]
        by_cases hnil : ps = []
        · subst hnil
          rfl
        · rw [dotted, intercalate_append hnil (List.cons_ne_nil _ _), ← dotted, dropEnd_append]
          exact if_pos rfl
      · have hself : dropEnd (· == '.') (dotted (ps ++ [p])) = dotted (ps ++ [p]) := by
          have hend : dropEnd (· == '.') p = p := by
            refine dropEnd_eq_self fun c hc => ?_
            exact beq_of_not_mem hlast c (List.mem_of_getLast? hc)
          by_cases hnil : ps = []
          · subst hnil
            simpa [dotted] using hend
          · rw [dotted, intercalate_append hnil (List.cons_ne_nil _ _),
              List.append_cons, List.intercalate_singleton, dropEnd_append, hend, if_neg hp]
        rw [hself, List.rdropWhile_concat_neg _ _ _ (by simpa using hp)]

theorem innerParts_subset (ps : List (List Char)) : innerParts ps ⊆ ps :=
  List.Subset.trans (List.rdropWhile_prefix _ _).subset (List.dropWhile_suffix _).subset

theorem head?_innerParts (ps : List (List Char)) : (innerParts ps).head? ≠ some [] := by
  intro hhead
  obtain ⟨more, hmore⟩ := List.rdropWhile_prefix List.isEmpty (ps.dropWhile List.isEmpty)
  have hfirst := List.head?_dropWhile_not List.isEmpty ps
  rw [← hmore, List.head?_append, ← innerParts, hhead] at hfirst
  cases hfirst

/-- A last part that is not empty stays, and what stays are last parts. -/
theorem innerParts_append (ps : List (List Char)) (hp : p ≠ []) :
    innerParts (ps ++ [p]) = ps.dropWhile List.isEmpty ++ [p] := by
  have hkept : (ps ++ [p]).dropWhile List.isEmpty = ps.dropWhile List.isEmpty ++ [p] := by
    rw [List.dropWhile_append]
    split
    · rename_i hnil
      rw [List.isEmpty_iff.1 hnil, List.nil_append, List.dropWhile_cons_of_neg (by simpa using hp)]
    · rfl
  rw [innerParts, hkept, List.rdropWhile_concat_neg _ _ _ (by simpa using hp)]

theorem innerParts_eq_self (hps : ∀ p ∈ ps, p ≠ []) : innerParts ps = ps := by
  rcases List.eq_nil_or_concat' ps with rfl | ⟨front, last, rfl⟩
  · rfl
  rw [innerParts_append front (hps last List.mem_concat_self)]
  cases front with
  | nil => rfl
  | cons p front => rw [List.dropWhile_cons_of_neg (by simpa using hps p List.mem_cons_self)]

theorem dropAround_dotted (hps : ∀ p ∈ ps, '.' ∉ p) :
    dropAround (· == '.') (dotted ps) = dotted (innerParts ps) := by
  rw [dropAround, dropStart_dotted hps, dropEnd_dotted, innerParts]
  exact fun p hp => hps p ((List.dropWhile_suffix _).subset hp)

end CodeIndex.Ranking

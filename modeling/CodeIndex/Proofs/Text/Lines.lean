import CodeIndex.Text.Lines
/-!
# Lines and rows

A text has one line for each newline, and one more when something follows the last of them. It
is blank when all its lines are. The rows of a text, which `List.splitOn` gives, are what stands
between its newlines; lines that are joined are rows again.
-/

namespace CodeIndex.Text

theorem lines_eq_nil_iff {cs : List Char} : lines cs = [] ↔ cs = [] := by
  fun_cases lines cs <;> simp_all

theorem length_lines (cs : List Char) :
    (lines cs).length = cs.count '\n' + if cs.getLast?.all (· == '\n') then 0 else 1 := by
  fun_induction lines cs with
  | case1 => rfl
  | case2 cs ih =>
      rw [List.length_cons, ih, List.count_cons_self]
      cases cs with
      | nil => rfl
      | cons d ds =>
          rw [List.getLast?_cons_cons]
          omega
  | case3 cs ih =>
      rw [List.length_cons, ih, List.count_cons_of_ne (by decide), List.count_cons_self,
        List.getLast?_cons_cons]
      cases cs with
      | nil => rfl
      | cons d ds =>
          rw [List.getLast?_cons_cons]
          omega
  | case4 c cs hnewline hreturn hlines ih =>
      have hcs : cs = [] := lines_eq_nil_iff.1 hlines
      subst hcs
      have hc : c ≠ '\n' := fun h => hnewline h
      simp [hc]
  | case5 c cs hnewline hreturn l ls hlines ih =>
      have hc : c ≠ '\n' := fun h => hnewline h
      rw [hlines] at ih
      cases cs with
      | nil => simp [lines] at hlines
      | cons d ds =>
          rw [List.count_cons_of_ne hc, List.getLast?_cons_cons]
          exact ih

/-- What ends in a newline has a line for each of its newlines, whatever follows. -/
theorem count_le_length_lines (cs more : List Char) :
    cs.count '\n' ≤ (lines (cs ++ more)).length := by
  rw [length_lines, List.count_append]
  omega

/-- What ends in another character is in the middle of a line. -/
theorem count_lt_length_lines {cs : List Char} {c : Char} (hlast : cs.getLast? = some c)
    (hc : c ≠ '\n') (more : List Char) : cs.count '\n' < (lines (cs ++ more)).length := by
  rw [length_lines, List.count_append]
  by_cases hmore : '\n' ∈ more
  · have hpos := List.count_pos_iff.2 hmore
    omega
  · have hend : (cs ++ more).getLast?.all (· == '\n') = false := by
      rw [List.getLast?_append, hlast]
      cases hlast' : more.getLast? with
      | none => simpa using hc
      | some d =>
          have hd : d ∈ more := List.mem_of_getLast? hlast'
          have hne : d ≠ '\n' := fun h => hmore (h ▸ hd)
          simpa using hne
    rw [hend, if_neg Bool.false_ne_true]
    omega

/-! ## Blank texts -/

theorem isBlank_newline : isBlank '\n' = true := by
  decide

theorem isBlank_return : isBlank '\r' = true := by
  decide

theorem allBlank_eq_all_lines (cs : List Char) : allBlank cs = (lines cs).all allBlank := by
  fun_induction lines cs with
  | case1 => rfl
  | case2 cs ih =>
      rw [List.all_cons, ← ih]
      simp [allBlank, isBlank_newline]
  | case3 cs ih =>
      rw [List.all_cons, ← ih]
      simp [allBlank, isBlank_newline, isBlank_return]
  | case4 c cs hnewline hreturn hlines ih =>
      rw [lines_eq_nil_iff.1 hlines]
      simp [allBlank]
  | case5 c cs hnewline hreturn l ls hlines ih =>
      rw [hlines, List.all_cons] at ih
      have hcons : ∀ ds, allBlank (c :: ds) = (isBlank c && allBlank ds) := fun ds => rfl
      rw [List.all_cons, hcons, hcons, ih, Bool.and_assoc]

theorem isBlankString_eq_all_lines (s : String) :
    isBlankString s = (linesOf s).all isBlankString := by
  have hline : isBlankString ∘ String.ofList = allBlank := by
    funext cs
    simp [isBlankString]
  rw [linesOf, List.all_map, hline]
  exact allBlank_eq_all_lines s.toList

theorem isBlankString_joinLines (ls : List String) :
    isBlankString (joinLines ls) = ls.all isBlankString := by
  induction ls with
  | nil => rfl
  | cons l ls ih =>
      cases ls with
      | nil => simp [joinLines]
      | cons m ms =>
          rw [List.all_cons, ← ih]
          unfold joinLines isBlankString allBlank
          rw [String.intercalate_cons_cons]
          simp [isBlank_newline]

/-! ## Rows of a text -/

theorem intercalate_append {α : Type} {x : α} {as bs : List (List α)} (has : as ≠ [])
    (hbs : bs ≠ []) :
    [x].intercalate (as ++ bs) = [x].intercalate as ++ x :: [x].intercalate bs := by
  induction as with
  | nil => exact absurd rfl has
  | cons a as ih =>
      rw [List.cons_append, List.intercalate_cons_of_ne_nil (by simp [hbs])]
      by_cases hrest : as = []
      · subst hrest
        simp
      · rw [ih hrest, List.intercalate_cons_of_ne_nil hrest]
        simp

theorem mem_or_mem_of_mem_intercalate {α : Type} {x : α} {separator : List α}
    {as : List (List α)} (hx : x ∈ separator.intercalate as) :
    x ∈ separator ∨ ∃ a ∈ as, x ∈ a := by
  induction as with
  | nil => cases hx
  | cons a as ih =>
      by_cases hrest : as = []
      · subst hrest
        rw [List.intercalate_singleton] at hx
        exact Or.inr ⟨a, List.mem_cons_self, hx⟩
      · rw [List.intercalate_cons_of_ne_nil hrest, List.mem_append, List.mem_append] at hx
        rcases hx with (ha | hseparator) | hrest
        · exact Or.inr ⟨a, List.mem_cons_self, ha⟩
        · exact Or.inl hseparator
        · exact (ih hrest).imp_right fun ⟨b, hb, hxb⟩ => ⟨b, List.mem_cons_of_mem a hb, hxb⟩

/-- The rows of one text are the first ones of another when that one goes on with a new row, if at
all. -/
theorem splitOn_isPrefix_iff {cs text : List Char} :
    cs.splitOn '\n' <+: text.splitOn '\n' ↔ text = cs ∨ ∃ more, text = cs ++ '\n' :: more := by
  constructor
  · rintro ⟨rows, hrows⟩
    have htext := congrArg ['\n'].intercalate hrows
    rw [List.intercalate_splitOn] at htext
    by_cases hnil : rows = []
    · rw [hnil, List.append_nil, List.intercalate_splitOn] at htext
      exact Or.inl htext.symm
    · rw [intercalate_append (List.splitOn_ne_nil _ _) hnil, List.intercalate_splitOn] at htext
      exact Or.inr ⟨_, htext.symm⟩
  · rintro (rfl | ⟨more, rfl⟩)
    · exact List.prefix_refl _
    · rw [List.splitOn_append_cons_self]
      exact List.prefix_append _ _

theorem not_mem_lines {cs l : List Char} (hl : l ∈ lines cs) : '\n' ∉ l := by
  fun_induction lines cs generalizing l with
  | case1 => cases hl
  | case2 cs ih =>
      rcases List.mem_cons.1 hl with rfl | hrest
      · exact List.not_mem_nil
      · exact ih hrest
  | case3 cs ih =>
      rcases List.mem_cons.1 hl with rfl | hrest
      · exact List.not_mem_nil
      · exact ih hrest
  | case4 c cs hnewline hreturn hlines ih =>
      obtain rfl := List.mem_singleton.1 hl
      simpa using fun h => hnewline h.symm
  | case5 c cs hnewline hreturn m ls hlines ih =>
      rcases List.mem_cons.1 hl with rfl | hrest
      · have hm := ih (hlines ▸ List.mem_cons_self)
        simpa [hm] using fun h => hnewline h.symm
      · exact ih (hlines ▸ List.mem_cons_of_mem m hrest)

theorem not_mem_of_mem_linesOf {text l : String} (hl : l ∈ linesOf text) : '\n' ∉ l.toList := by
  obtain ⟨cs, hcs, rfl⟩ := List.mem_map.1 hl
  rw [String.toList_ofList]
  exact not_mem_lines hcs

theorem toList_joinLines (ls : List String) :
    (joinLines ls).toList = ['\n'].intercalate (ls.map String.toList) := by
  rw [joinLines, String.toList_intercalate]
  rfl

theorem joinLines_append {ls ms : List String} (hls : ls ≠ []) (hms : ms ≠ []) :
    joinLines (ls ++ ms) = joinLines ls ++ "\n" ++ joinLines ms :=
  String.intercalate_append_of_ne_nil hls hms

theorem joinLines_cons (l : String) {ls : List String} (hls : ls ≠ []) :
    joinLines (l :: ls) = l ++ "\n" ++ joinLines ls :=
  String.intercalate_cons_of_ne_nil hls

/-- The rows of lines below some text are that text's and, one for one, the lines. -/
theorem splitOn_joinLines_cons (above : String) {ls : List String}
    (hls : ∀ l ∈ ls, '\n' ∉ l.toList) :
    (joinLines (above :: ls)).toList.splitOn '\n' =
      above.toList.splitOn '\n' ++ ls.map String.toList := by
  by_cases hnil : ls = []
  · subst hnil
    simp [toList_joinLines]
  · have hsplit : (joinLines (above :: ls)).toList =
        above.toList ++ '\n' :: (joinLines ls).toList := by
      rw [joinLines_cons above hnil, String.toList_append, String.toList_append, List.append_assoc]
      rfl
    have hrows : (joinLines ls).toList.splitOn '\n' = ls.map String.toList := by
      rw [toList_joinLines]
      refine List.splitOn_intercalate '\n' (fun l hl => ?_) (by simpa using hnil)
      obtain ⟨m, hm, rfl⟩ := List.mem_map.1 hl
      exact hls m hm
    rw [hsplit, List.splitOn_append_cons_self, hrows]

end CodeIndex.Text

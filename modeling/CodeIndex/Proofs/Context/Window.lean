import CodeIndex.Proofs.Context.Visible
/-!
# The window and the cursor

The window holds the line at which the cursor is seen, which is a line of the file even when the
cursor is not, and goes thirty lines beyond it on either side as far as there are lines. The names
around the cursor are those of the lines of the window that are near to where the cursor was said to
be. These need not be near to where it is seen, and there may be none.
-/

namespace CodeIndex

open Text

namespace CursorWindow

variable {w : CursorWindow} {text : String} {cursor l : Nat}

/-! ## Where the cursor is seen -/

/-- The line of a file of `count` lines at which a cursor is seen: its own, if the file has that
line, and otherwise the nearest one. An absent cursor is seen at the first line. -/
structure IsSeenAt (cursor : Option Nat) (count line : Nat) : Prop where
  pos : 1 ≤ line
  le : line ≤ count
  absent : cursor = none → line = 1
  inside : ∀ l, cursor = some l → 1 ≤ l → l ≤ count → line = l
  above : cursor = some 0 → line = 1
  below : ∀ l, cursor = some l → count ≤ l → line = count

theorem isSeenAt_clamp {count : Nat} (hcount : 0 < count) (cursor : Option Nat) :
    IsSeenAt cursor count (clamp cursor count) := by
  unfold clamp
  cases cursor with
  | none => constructor <;> simp <;> omega
  | some l => constructor <;> simp <;> omega

/-! ## What the window holds -/

/-- The window holds the lines of the text around one of them, thirty on either side unless the text
ends before. -/
structure IsAround (w : CursorWindow) (text : String) (line : Nat) : Prop extends IsOf w text where
  first_le : w.first ≤ line
  le_last : line ≤ w.last
  above : line ≤ w.first + 30
  top : w.first = 1 ∨ line = w.first + 30
  below : w.last ≤ line + 30
  bottom : w.last = (linesOf text).length ∨ w.last = line + 30

theorem exists_ofLines (path : String) {lines : List String} (hlines : lines ≠ [])
    (cursor : Option Nat) : ∃ w, ofLines path lines cursor = some w ∧
      w.first = max (clamp cursor lines.length - 30) 1 ∧
      w.last = min (clamp cursor lines.length + 30) lines.length :=
  ⟨_, if_neg (by simpa using hlines), rfl, rfl⟩

theorem isAround_ofLines {path : String} {cursor : Option Nat} (hlines : linesOf text ≠ [])
    (hw : ofLines path (linesOf text) cursor = some w) :
    w.IsAround text (clamp cursor (linesOf text).length) := by
  obtain ⟨v, hv, hfirst, hlast⟩ := exists_ofLines path hlines cursor
  obtain rfl : w = v := Option.some.inj (hw.symm.trans hv)
  have hseen := isSeenAt_clamp (List.length_pos_iff.2 hlines) cursor
  have hpos := hseen.pos
  have hle := hseen.le
  refine ⟨(isOf_ofLines hw).2, ?_, ?_, ?_, ?_, ?_, ?_⟩
  all_goals
    omega

theorem IsOf.length_lines (h : w.IsOf text) : w.lines.length = w.last + 1 - w.first := by
  have hfirst := h.first
  have hlast := h.last
  rw [h.lines, List.length_take, List.length_drop]
  omega

/-- The line of the window that is counted from its first one is the line of the file that is
counted from the first of the file. -/
theorem IsOf.getElem?_lines (h : w.IsOf text) (hfirst : w.first ≤ l) (hlast : l ≤ w.last) :
    w.lines[l - w.first]? = (linesOf text)[l - 1]? := by
  have hpos := h.first
  -- lines are counted from one, and places in a list from zero
  have hplace : w.first - 1 + (l - w.first) = l - 1 := by omega
  rw [h.lines, List.getElem?_take_of_lt (by omega), List.getElem?_drop, hplace]

/-! ## Lines near the cursor -/

/-- The numbers of the lines of the window within two lines of the cursor. -/
def linesNear (w : CursorWindow) (cursor : Nat) : List Nat :=
  let first := max (cursor - 2) w.first
  let last := min (cursor + 2) w.last
  List.range' first (last + 1 - first)

theorem mem_linesNear :
    l ∈ w.linesNear cursor ↔ w.first ≤ l ∧ l ≤ w.last ∧ cursor ≤ l + 2 ∧ l ≤ cursor + 2 := by
  unfold linesNear
  dsimp only
  rw [List.mem_range'_1]
  omega

theorem take_drop_eq_filterMap {α : Type} (as : List α) {base first : Nat} (hbase : base ≤ first)
    (n : Nat) :
    (as.drop (first - base)).take n =
      (List.range' first n).filterMap fun i => as[i - base]? := by
  induction n generalizing first with
  | zero => simp
  | succ n ih =>
      have hnext : first + 1 - base = first - base + 1 := by omega
      have hrest := ih (Nat.le_succ_of_le hbase)
      rw [hnext] at hrest
      rw [List.range'_succ]
      by_cases hlt : first - base < as.length
      · have hsome : as[first - base]? = some as[first - base] := List.getElem?_eq_getElem hlt
        rw [List.drop_eq_getElem_cons hlt, List.take_succ_cons, hrest, List.filterMap_cons, hsome]
      · have hnone : as[first - base]? = none := List.getElem?_eq_none (by omega)
        rw [List.drop_of_length_le (by omega), List.take_nil] at hrest ⊢
        rw [List.filterMap_cons, hnone, hrest]

/-- The lines near a cursor are looked up one by one, each counted from the first of the window. -/
theorem near_eq_filterMap (w : CursorWindow) (cursor : Nat) :
    w.near cursor = (w.linesNear cursor).filterMap fun l => w.lines[l - w.first]? :=
  take_drop_eq_filterMap w.lines (Nat.le_max_right _ _) _

/-- What is looked up for the lines near a cursor: those of the window and no others, each at a
place that the window has, and each the line of the file with its number. -/
structure IsNear (w : CursorWindow) (text : String) (cursor : Nat) (ls : List Nat) : Prop where
  ascending : ls.Pairwise (· < ·)
  mem_iff : ∀ l, l ∈ ls ↔ w.first ≤ l ∧ l ≤ w.last ∧ cursor ≤ l + 2 ∧ l ≤ cursor + 2
  place : ∀ l ∈ ls, 0 ≤ (l : Int) - w.first ∧ (l : Int) - w.first < w.lines.length
  found : w.near cursor = ls.filterMap fun l => w.lines[l - w.first]?
  ofFile : w.near cursor = ls.filterMap fun l => (linesOf text)[l - 1]?

theorem IsOf.isNear (h : w.IsOf text) (cursor : Nat) :
    w.IsNear text cursor (w.linesNear cursor) where
  ascending := List.pairwise_lt_range'
  mem_iff _ := mem_linesNear
  place l hl := by
    have hlength := h.length_lines
    have hmem := mem_linesNear.1 hl
    omega
  found := w.near_eq_filterMap cursor
  ofFile := by
    rw [near_eq_filterMap]
    apply List.filterMap_congr
    intro l hl
    have hmem := mem_linesNear.1 hl
    exact h.getElem?_lines hmem.1 hmem.2.1

/-- Both windows have the same lines near the cursor. -/
structure AgreeNear (w v : CursorWindow) (cursor : Nat) : Prop where
  first : v.first = w.first
  last : v.last = w.last
  lines : ∀ l, w.first ≤ l → l ≤ w.last → cursor ≤ l + 2 → l ≤ cursor + 2 →
    v.lines[l - w.first]? = w.lines[l - w.first]?

theorem AgreeNear.near_eq {v : CursorWindow} (h : w.AgreeNear v cursor) :
    v.near cursor = w.near cursor := by
  have hlines : v.linesNear cursor = w.linesNear cursor := by
    unfold linesNear
    rw [h.first, h.last]
  rw [near_eq_filterMap, near_eq_filterMap, hlines, h.first]
  apply List.filterMap_congr
  intro l hl
  have hmem := mem_linesNear.1 hl
  exact h.lines l hmem.1 hmem.2.1 hmem.2.2.1 hmem.2.2.2

end CursorWindow

namespace ContextSource

variable {src : ContextSource} {req : ContextRequest}

/-! ## Names in question -/

theorem nodup_names (src : ContextSource) (req : ContextRequest) (window : Option CursorWindow) :
    (src.names req window).Nodup :=
  nodup_firstDistinct _ _

theorem length_names_le (src : ContextSource) (req : ContextRequest)
    (window : Option CursorWindow) : (src.names req window).length ≤ maxNames :=
  length_firstDistinct_le _ _

theorem names_of_absent (hcursor : req.cursorLine = none) (window : Option CursorWindow) :
    src.names req window = src.names req none := by
  unfold names
  rw [hcursor]
  cases window <;> rfl

/-- The name is called by the chunk at the cursor, or it is a word of a line of the window that is
near the cursor, or of the question. -/
inductive IsNameNear (src : ContextSource) (req : ContextRequest) (w : CursorWindow)
    (name : String) : Prop
  | called (c : ChunkRecord) (callee : String) (hc : src.enclosing? req = some c)
      (hcallee : callee ∈ src.store.calleesOf c.id) (hname : lastPart callee = name)
  | around (cursor : Nat) (line : String) (hcursor : req.cursorLine = some cursor)
      (hline : line ∈ w.near cursor) (hname : name ∈ longNames line)
  | asked (hname : name ∈ longNames req.question)

theorem isNameNear_of_mem {w : CursorWindow} {name : String}
    (hname : name ∈ src.names req (some w)) : src.IsNameNear req w name := by
  have hmem := mem_of_mem_firstDistinct hname
  rw [List.mem_append, List.mem_append] at hmem
  rcases hmem with (hcalled | haround) | hasked
  · split at hcalled
    · next c hc =>
      obtain ⟨callee, hcallee, hname⟩ := List.mem_map.1 hcalled
      exact .called c callee hc hcallee hname
    · cases hcalled
  · split at haround
    · next v cursor hv hcursor =>
      cases hv
      obtain ⟨line, hline, hname⟩ := List.mem_flatMap.1 haround
      exact .around cursor line hcursor hline hname
    · cases haround
  · exact .asked hasked

/-- What is promised of the names in question beside a window of the text: how many there are, where
they come from, which lines of the window are looked up for them, and that nothing else of it
counts. -/
structure AreNamesNear (src : ContextSource) (req : ContextRequest) (w : CursorWindow)
    (text : String) : Prop where
  nodup : ∀ window, (src.names req window).Nodup
  length_le : ∀ window, (src.names req window).length ≤ 12
  origin : ∀ name ∈ src.names req (some w), src.IsNameNear req w name
  near : ∀ cursor, req.cursorLine = some cursor → ∃ ls, w.IsNear text cursor ls
  only : ∀ v, (∀ cursor, req.cursorLine = some cursor → w.AgreeNear v cursor) →
    src.names req (some v) = src.names req (some w)
  absent : req.cursorLine = none → src.names req (some w) = src.names req none

theorem areNamesNear {w : CursorWindow} {text : String} (h : w.IsOf text) :
    src.AreNamesNear req w text where
  nodup := src.nodup_names req
  length_le := src.length_names_le req
  origin _ := isNameNear_of_mem
  near cursor _ := ⟨_, h.isNear cursor⟩
  only v hagree := by
    cases hcursor : req.cursorLine with
    | none => rw [names_of_absent hcursor, names_of_absent hcursor (some w)]
    | some cursor =>
        unfold names
        simp only [hcursor, (hagree cursor hcursor).near_eq]
  absent hcursor := names_of_absent hcursor (some w)

/-- Of an edited file that can be read and has a line there is a window, which holds the line where
the cursor is seen. The names in question are few, and no line of the window counts for them that is
not within two lines of the cursor itself. -/
theorem window_holds_cursor {path text : String} (hpath : req.currentFile = some path)
    (hread : src.readText path = some text) (hlines : linesOf text ≠ []) :
    ∃ w line, src.window? req = some w ∧ w.path = path ∧
      CursorWindow.IsSeenAt req.cursorLine (linesOf text).length line ∧ w.IsAround text line ∧
      src.AreNamesNear req w text := by
  obtain ⟨w, hw, -, -⟩ := CursorWindow.exists_ofLines path hlines req.cursorLine
  have haround := CursorWindow.isAround_ofLines hlines hw
  have hseen := CursorWindow.isSeenAt_clamp (List.length_pos_iff.2 hlines) req.cursorLine
  have hwindow : src.window? req = some w := by
    unfold window?
    simp only [hpath, hread, Option.bind_eq_bind, Option.bind_some, hw]
  exact ⟨w, _, hwindow, (CursorWindow.isOf_ofLines hw).1, hseen, haround,
    areNamesNear haround.toIsOf⟩

/-! ## A long file -/

/-- Forty lines, each of them ended by a newline. -/
def logText : String :=
  joinLines (List.replicate 40 "an entry" ++ [""])

/-- A project with one file. -/
def log : ContextSource where
  store := {}
  readText := fun path => if path = "log.txt" then some logText else none
  weights := Signals.defaultWeights
  searchLimit := 10
  now := ⟨0, 0⟩

theorem length_linesOf_logText : (linesOf logText).length = 40 := by
  rw [linesOf, logText, toList_joinLines]
  decide +kernel

/-- The cursor is behind the newline that ends the last line. -/
theorem window_holds_cursor_behind :
    let req : ContextRequest :=
      { question := "why", currentFile := some "log.txt", cursorLine := some 41 }
    req.currentFile = some "log.txt" ∧ log.readText "log.txt" = some logText ∧
      linesOf logText ≠ [] ∧ ∃ w, log.window? req = some w ∧ w.first = 10 ∧ w.last = 40 ∧
        log.AreNamesNear req w logText := by
  intro req
  have hlength := length_linesOf_logText
  have hlines : linesOf logText ≠ [] := List.ne_nil_of_length_pos (by omega)
  have hpath : req.currentFile = some "log.txt" := rfl
  have hread : log.readText "log.txt" = some logText := rfl
  obtain ⟨w, line, hw, -, hseen, haround, hnames⟩ := window_holds_cursor hpath hread hlines
  have hline : line = (linesOf logText).length := hseen.below 41 rfl (by omega)
  have hfirst := haround.top
  have habove := haround.above
  have hlast := haround.last
  have hbottom := haround.le_last
  exact ⟨hpath, hread, hlines, w, hw, by omega, by omega, hnames⟩

end ContextSource

end CodeIndex

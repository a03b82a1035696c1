import CodeIndex.Proofs.Chunk.Fidelity
import CodeIndex.Proofs.Context.Shown
import CodeIndex.Proofs.Text.Lines
/-!
# What the window shows

A chunk within the window around the cursor is left out of the definitions and of the related code,
for the section of the current file is to show it. The window is chosen before that section is cut
to its share, though: the chunk is shown there exactly when the cut spares the end of its last line.
-/

namespace CodeIndex

open Text

/-! ## Rows that a cut spares -/

namespace Budget

theorem newline_not_mem_bareMark : '\n' ∉ bareMark := by
  decide

/-- Of a text that is cut and marked the first rows are left when what is kept has them, or when the
mark happens to be the last of them. -/
theorem splitOn_marked_isPrefix_iff {front cs more : List Char}
    (hfront : front <+: cs ++ '\n' :: more) :
    cs.splitOn '\n' <+: (front ++ truncationMark).splitOn '\n' ↔
      cs.length ≤ front.length ∨ cs = front ++ truncationMark := by
  rw [splitOn_isPrefix_iff]
  constructor
  · rintro (heq | ⟨after, heq⟩)
    · exact Or.inr heq.symm
    · left
      -- otherwise the rows would end within the mark, which has no second row
      by_contra hlong
      rw [truncationMark_eq, List.append_eq_append_iff] at heq
      rcases heq with ⟨back, hback, hmark⟩ | ⟨back, hback, -⟩
      · cases back with
        | nil => exact hlong (by simp [hback])
        | cons c back =>
            have hbare : bareMark = back ++ '\n' :: after := (List.cons.inj hmark).2
            exact newline_not_mem_bareMark (hbare ▸ by simp)
      · exact hlong (by simp [hback])
  · rintro (hle | heq)
    · right
      obtain ⟨rest, rfl⟩ :=
        List.prefix_of_prefix_length_le (List.prefix_append cs ('\n' :: more)) hfront hle
      cases rest with
      | nil => exact ⟨bareMark, by rw [List.append_nil, truncationMark_eq]⟩
      | cons c rest =>
          obtain ⟨tail, htail⟩ := hfront
          rw [List.append_assoc, List.append_cancel_left_eq, List.cons_append,
            List.cons.injEq] at htail
          exact ⟨rest ++ truncationMark, by rw [htail.1, List.append_assoc, List.cons_append]⟩
    · exact Or.inl heq.symm

/-- A text with at most one row has none but it. -/
theorem not_splitOn_isPrefix {cs text : List Char} (hrows : '\n' ∈ cs) (htext : '\n' ∉ text) :
    ¬ cs.splitOn '\n' <+: text.splitOn '\n' := by
  rw [splitOn_isPrefix_iff]
  rintro (rfl | ⟨more, rfl⟩)
  · exact htext hrows
  · exact htext (List.mem_append_left _ hrows)

/-- Fitting a text leaves its first rows, of which there are two or more, when it leaves everything
or what is kept has them. -/
theorem splitOn_fit_isPrefix_iff (max : Nat) {whole cs more : List Char}
    (hwhole : whole = cs ++ '\n' :: more) (hrows : '\n' ∈ cs) :
    cs.splitOn '\n' <+: (fit max whole).1.splitOn '\n' ↔
      tokens whole ≤ max ∨ 4 < max ∧
        (cs.length ≤ (kept max whole).length ∨ cs = kept max whole ++ truncationMark) := by
  by_cases hfits : tokens whole ≤ max
  · rw [fit_of_le hfits, splitOn_isPrefix_iff]
    exact ⟨fun _ => Or.inl hfits, fun _ => Or.inr ⟨more, hwhole⟩⟩
  rw [or_iff_right hfits]
  rcases Nat.lt_trichotomy max 4 with hmax | rfl | hmax
  · rw [fit_of_lt_four (by omega) hmax]
    exact iff_of_false (not_splitOn_isPrefix hrows List.not_mem_nil) (by omega)
  · rw [fit_four (by omega)]
    exact iff_of_false (not_splitOn_isPrefix hrows newline_not_mem_bareMark) (by omega)
  · have hfit : (fit max whole).1 = kept max whole ++ truncationMark := by
      rw [fit_of_four_lt (by omega) hmax, kept]
    have hkept : kept max whole <+: cs ++ '\n' :: more := by
      rw [← hwhole]
      exact kept_isPrefix max whole
    rw [hfit, splitOn_marked_isPrefix_iff hkept, and_iff_right hmax]

end Budget

/-! ## The section of the current file -/

namespace CursorWindow

/-- What stands in the section of the current file above its lines. -/
def opening (w : CursorWindow) : String :=
  "## " ++ SectionKind.currentFile.title ++ "\n\n### " ++ w.path ++ ":" ++ toString w.first
    ++ "-" ++ toString w.last ++ "\n\x60\x60\x60"

/-- The section of the current file through a line of the file. -/
def through (w : CursorWindow) (line : Nat) : List Char :=
  (joinLines (w.opening :: w.lines.take (line + 1 - w.first))).toList

/-- The window has lines of the text, as many as it says. -/
structure IsOf (w : CursorWindow) (text : String) : Prop where
  first : 1 ≤ w.first
  ordered : w.first ≤ w.last
  last : w.last ≤ (linesOf text).length
  lines : w.lines = ((linesOf text).drop (w.first - 1)).take (w.last + 1 - w.first)

theorem isOf_ofLines {path : String} {text : String} {cursor : Option Nat} {w : CursorWindow}
    (hw : ofLines path (linesOf text) cursor = some w) : w.path = path ∧ w.IsOf text := by
  unfold ofLines at hw
  split at hw
  · cases hw
  · next hsome =>
    cases hw
    have hpos : 0 < (linesOf text).length := List.length_pos_iff.2 (by simpa using hsome)
    refine ⟨rfl, ?_, ?_, ?_, rfl⟩
    all_goals
      dsimp only [clamp, reach]
      omega

theorem IsOf.lines_ne {w : CursorWindow} {text : String} (h : w.IsOf text) : w.lines ≠ [] := by
  have hlast := h.last
  have hfirst := h.first
  have hordered := h.ordered
  apply List.ne_nil_of_length_pos
  rw [h.lines, List.length_take, List.length_drop]
  omega

theorem fullText_render {w : CursorWindow} (hlines : w.lines ≠ []) :
    Section.fullText .currentFile [w.render] =
      joinLines ((w.opening :: w.lines) ++ ["\x60\x60\x60"]) := by
  have hfence : "\n\x60\x60\x60\n" = "\n\x60\x60\x60" ++ "\n" := by decide
  have hend : "\n\x60\x60\x60" = "\n" ++ "\x60\x60\x60" := by decide
  have htitle : "\n\n### " = "\n\n" ++ "### " := by decide
  have hlast : joinLines ["\x60\x60\x60"] = "\x60\x60\x60" := String.intercalate_singleton
  rw [joinLines_append (List.cons_ne_nil _ _) (List.cons_ne_nil _ _),
    joinLines_cons w.opening hlines, hlast]
  unfold Section.fullText render opening
  rw [String.intercalate_singleton, hfence, htitle, hend]
  simp only [String.append_assoc]

/-- The section goes on in a new row behind each line of the window. -/
theorem fullText_through {w : CursorWindow} (hlines : w.lines ≠ []) (line : Nat) :
    ∃ more, (Section.fullText .currentFile [w.render]).toList =
      w.through line ++ '\n' :: more := by
  have hsplit : (w.opening :: w.lines) ++ ["\x60\x60\x60"] =
      (w.opening :: w.lines.take (line + 1 - w.first)) ++
        (w.lines.drop (line + 1 - w.first) ++ ["\x60\x60\x60"]) := by
    rw [List.cons_append, List.cons_append, ← List.append_assoc, List.take_append_drop]
  rw [fullText_render hlines, hsplit, joinLines_append (List.cons_ne_nil _ _) (by simp),
    String.toList_append, String.toList_append, List.append_assoc]
  exact ⟨_, rfl⟩

theorem newline_mem_through (w : CursorWindow) (line : Nat) : '\n' ∈ w.through line := by
  have hopening : w.opening.toList <+: w.through line := by
    unfold through
    rw [toList_joinLines, List.map_cons]
    cases (w.lines.take (line + 1 - w.first)).map String.toList with
    | nil => simp
    | cons l ls =>
        rw [List.intercalate_cons_cons, List.append_assoc]
        exact List.prefix_append _ _
  refine hopening.subset ?_
  unfold opening
  rw [String.toList_append]
  exact List.mem_append_right _ (by decide)

end CursorWindow

/-! ## Chunks that are left to it -/

/-- The lines of a text that a chunk names. -/
def ChunkRecord.linesIn (c : ChunkRecord) (text : String) : List String :=
  ((linesOf text).take c.row.endLine).drop (c.row.startLine - 1)

/-- The first rows of the section are those of the window through a line. -/
def Section.ShowsThrough (s : Section) (w : CursorWindow) (line : Nat) : Prop :=
  (w.through line).splitOn '\n' <+: s.text.toList.splitOn '\n'

namespace ContextSource

/-- The chunks of every file that can be read are chunks of its text. -/
def MatchesFiles (limits : ChunkLimits) (src : ContextSource) : Prop :=
  ∀ c text, src.store.chunk? c.id = some c → src.readText c.path = some text →
    ∃ quoted : Chunk, quoted.Quotes limits (linesOf text) ∧
      c.row = ChunkRow.ofChunk c.row.fileId quoted

/-- The chunk is found for the definitions, or for the related code and is no definition, and is
left out of these for nothing else than lying within the window. -/
inductive LeftOutAsShown (src : ContextSource) (req : ContextRequest) (c : ChunkRecord) : Prop
  | definition (name : String) (hname : name ∈ src.names req (src.window? req))
      (hfound : c ∈ (src.store.named name).take maxPerName)
      (hcursor : (src.enclosing? req).any (·.id == c.id) = false)
      (hcovered : isCovered (src.window? req) c = true)
  | related (r : RankedChunk) (hranked : r ∈ Ranking.rank src.store req.question src.searchLimit
        req.currentFile src.weights src.now) (hchunk : r.chunk = c)
      (hnew : c.id ∉ (src.definitions req (src.window? req)).map (·.id))
      (hcovered : isCovered (src.window? req) c = true)

end ContextSource

/-- What the section of the current file shows of a chunk within its window: the lines of the chunk,
each as a row, unless the section is cut before the end of the last of them. -/
structure Section.ShowsUnlessCut (s : Section) (room : Nat) (w : CursorWindow) (text : String)
    (c : ChunkRecord) : Prop where
  shown_iff : s.ShowsThrough w c.row.endLine ↔
    let whole := (Section.fullText .currentFile [w.render]).toList
    Budget.tokens whole ≤ room ∨ 4 < room ∧
      ((w.through c.row.endLine).length ≤ (Budget.kept room whole).length ∨
        w.through c.row.endLine = Budget.kept room whole ++ truncationMark)
  verbatim : s.ShowsThrough w c.row.endLine →
    (c.linesIn text).map String.toList <:+: s.text.toList.splitOn '\n'
  of_room : ∀ ink, (w.through c.row.endLine).length + 16 < 4 * room →
    (w.through c.row.endLine).getLast? = some ink → isBlank ink = false →
    s.ShowsThrough w c.row.endLine
  room : s.ShowsThrough w c.row.endLine → (w.through c.row.endLine).length ≤ 4 * room

namespace CursorWindow

variable {w : CursorWindow} {text : String}

theorem IsOf.linesIn_eq (h : w.IsOf text) {c : ChunkRecord} (hfirst : w.first ≤ c.row.startLine)
    (hlast : c.row.endLine ≤ w.last) :
    c.linesIn text =
      (w.lines.take (c.row.endLine + 1 - w.first)).drop (c.row.startLine - w.first) := by
  have hpos := h.first
  rw [ChunkRecord.linesIn, h.lines, List.take_take, Nat.min_eq_left (by omega), List.drop_take,
    List.drop_take, List.drop_drop]
  congr 1
  · omega
  · congr 1
    omega

theorem IsOf.splitOn_through (h : w.IsOf text) (line : Nat) :
    (w.through line).splitOn '\n' = w.opening.toList.splitOn '\n' ++
      (w.lines.take (line + 1 - w.first)).map String.toList := by
  refine splitOn_joinLines_cons w.opening fun l hl => ?_
  have hmem := List.mem_of_mem_take hl
  rw [h.lines] at hmem
  exact not_mem_of_mem_linesOf (List.mem_of_mem_drop (List.mem_of_mem_take hmem))

theorem IsOf.showsUnlessCut (h : w.IsOf text) {c : ChunkRecord}
    (hfirst : w.first ≤ c.row.startLine) (hlast : c.row.endLine ≤ w.last) (shares : Shares)
    (budget : Nat) :
    (Section.ofItems shares budget .currentFile [w.render]).ShowsUnlessCut
      (Section.room shares budget .currentFile) w text c := by
  obtain ⟨more, hwhole⟩ := fullText_through h.lines_ne c.row.endLine
  have htext := congrArg String.toList
    (Section.ofItems_text shares budget .currentFile [w.render])
  have hiff := Budget.splitOn_fit_isPrefix_iff (Section.room shares budget .currentFile)
    hwhole (newline_mem_through w _)
  rw [String.toList_ofList] at htext
  rw [← htext] at hiff
  refine ⟨hiff, fun hshown => ?_, fun ink hroom hink hblank => hiff.2 ?_, fun hshown => ?_⟩
  · obtain ⟨rows, hrows⟩ := hshown
    rw [h.linesIn_eq hfirst hlast, ← hrows, h.splitOn_through, List.map_drop]
    exact ((List.drop_suffix _ _).isInfix.trans (List.suffix_append _ _).isInfix).trans
      (List.prefix_append _ _).isInfix
  · refine Or.inr ⟨by omega, Or.inl ?_⟩
    rw [hwhole]
    exact (Budget.isPrefix_kept hroom hink hblank).length_le
  · have htokens := (Section.ofItems_fits shares budget .currentFile [w.render]).tokens_le
    rw [Section.tokens, Budget.tokensOf, Budget.tokens_le_iff] at htokens
    refine Nat.le_trans ?_ htokens
    rcases splitOn_isPrefix_iff.1 hshown with heq | ⟨rest, heq⟩
    · rw [heq]
    · rw [heq, List.length_append]
      omega

end CursorWindow

namespace ContextSource

variable {src : ContextSource} {req : ContextRequest}

theorem isOf_window? {w : CursorWindow} (hw : src.window? req = some w) :
    ∃ text, src.readText w.path = some text ∧ w.IsOf text := by
  obtain ⟨path, -, htext⟩ := Option.bind_eq_some_iff.1 hw
  obtain ⟨text, hread, hlines⟩ := Option.bind_eq_some_iff.1 htext
  obtain ⟨rfl, hof⟩ := CursorWindow.isOf_ofLines hlines
  exact ⟨text, hread, hof⟩

theorem LeftOutAsShown.isCovered {c : ChunkRecord} (h : LeftOutAsShown src req c) :
    isCovered (src.window? req) c = true := by
  cases h with
  | definition _ _ _ _ hcovered => exact hcovered
  | related _ _ _ _ hcovered => exact hcovered

theorem LeftOutAsShown.chunk? {c : ChunkRecord} (h : LeftOutAsShown src req c)
    (hsound : src.store.Sound) : src.store.chunk? c.id = some c := by
  cases h with
  | definition name _ hfound => exact hsound.chunk?_of_mem_named (List.mem_of_mem_take hfound)
  | related r hranked hchunk => exact hchunk ▸ Ranking.chunk?_of_mem_rank hsound hranked

end ContextSource

namespace Context

open ContextSource

variable {src : ContextSource} {req : ContextRequest}

/-- The section of the current file comes first. -/
theorem head?_build (shares : Shares) {w : CursorWindow} (hw : src.window? req = some w) :
    (build src shares req).sections.head? =
      some (Section.ofItems shares req.budget .currentFile [w.render]) := by
  rw [build, ContextSource.items]
  dsimp only
  rw [hw, ofItems_cons]
  rfl

/-- What the first section shows stands at the beginning of the context. -/
theorem text_isPrefix_of_head? {c : Context} {s : Section} (hs : c.sections.head? = some s) :
    s.text.toList <+: c.text.toList := by
  obtain ⟨rest, hsections⟩ : ∃ rest, c.sections = s :: rest := by
    cases hc : c.sections with
    | nil => simp [hc] at hs
    | cons t rest => exact ⟨rest, by simpa [hc] using hs⟩
  by_cases hempty : s.text = ""
  · simp [hempty]
  · rw [text, hsections, List.map_cons, List.filter_cons_of_pos (by simpa using hempty)]
    cases (rest.map (·.text)).filter (· != "") with
    | nil => rw [String.intercalate_singleton]
    | cons t ts =>
        rw [String.intercalate_cons_cons, String.toList_append, String.toList_append,
          List.append_assoc]
        exact List.prefix_append _ _

/-- A chunk that is found and left out only for lying within the window is in neither the
definitions nor the related code. In a project whose files the store matches, what stands for it is
the section of the current file, at the beginning of the context, which shows its lines unless it is
cut before their end. -/
theorem left_out_shown_iff (ops : List Store.Operation) (hstore : src.store = Store.history ops)
    (shares : Shares) {limits : ChunkLimits} (hmatch : MatchesFiles limits src) {c : ChunkRecord}
    (hleft : LeftOutAsShown src req c) :
    c ∉ src.definitions req (src.window? req) ∧
    (∀ seen, c ∉ src.related req (src.window? req) seen) ∧
    ∃ w text s, src.window? req = some w ∧ src.readText c.path = some text ∧
      c.row.content = limits.truncate (joinLines (c.linesIn text)) ∧
      (build src shares req).sections.head? = some s ∧ s.kind = .currentFile ∧
      s.text.toList <+: (build src shares req).text.toList ∧
      s.ShowsUnlessCut (Section.room shares req.budget .currentFile) w text c := by
  have hcovered := hleft.isCovered
  refine ⟨fun hc => ?_, fun seen hc => ?_, ?_⟩
  · exact absurd hcovered (by simp [(mem_definitions hc).2])
  · exact absurd hcovered (by simp [(mem_related hc).2])
  cases hw : src.window? req with
  | none => simp [hw, isCovered] at hcovered
  | some w =>
      have hplace : c.path = w.path ∧ w.first ≤ c.row.startLine ∧ c.row.endLine ≤ w.last := by
        by_contra hno
        have hfree : isCovered (some w) c = false :=
          isCovered_eq_false_iff.2 fun v hv => Option.some.inj hv ▸ hno
        rw [hw, hfree] at hcovered
        cases hcovered
      obtain ⟨hpath, hfirst, hlast⟩ := hplace
      obtain ⟨text, hread, hof⟩ := isOf_window? hw
      rw [← hpath] at hread
      have hsound : src.store.Sound := hstore ▸ Store.sound_history ops
      obtain ⟨quoted, hquotes, hrow⟩ := hmatch c text (hleft.chunk? hsound) hread
      have hhead := head?_build shares hw
      refine ⟨w, text, _, rfl, hread, ?_, hhead, rfl, text_isPrefix_of_head? hhead,
        hof.showsUnlessCut hfirst hlast shares req.budget⟩
      rw [ChunkRecord.linesIn, hrow]
      exact hquotes.content

/-! ## A ledger -/

def ledgerLines : List String :=
  ["# Every entry that was posted is kept.", "", "def settle():", "    return 1", "",
    "# The past is elsewhere."]

def ledgerText : String :=
  joinLines (ledgerLines ++ [""])

def settle : Chunk where
  kind := .function
  name := some "settle"
  signature := "def settle()"
  docstring := none
  startLine := 3
  endLine := 4
  content := "def settle():\n    return 1"
  scopePath := "settle"
  calls := []
  typeRefs := []

def ledgerWrites : List Store.Operation :=
  [.writeIndex ⟨0, 0⟩ ⟨"ledger.py", "h", ⟨0, 0⟩, "python", 6⟩ [settle] []]

/-- A project of one indexed file. -/
def ledger : ContextSource where
  store := Store.history ledgerWrites
  readText := fun path => if path = "ledger.py" then some ledgerText else none
  weights := Signals.defaultWeights
  searchLimit := 10
  now := ⟨0, 0⟩

def settleRecord : ChunkRecord :=
  ⟨1, .ofChunk 1 settle, ⟨⟨"ledger.py", "h", ⟨0, 0⟩, "python", 6⟩, ⟨0, 0⟩, none⟩⟩

def askSettle (budget : Nat) : ContextRequest where
  question := "settle"
  currentFile := some "ledger.py"
  budget := budget

theorem linesOf_ledgerText : linesOf ledgerText = ledgerLines := by
  rw [linesOf, ledgerText, toList_joinLines]
  decide +kernel

/-- All lines of the ledger are in reach. -/
def ledgerWindow : CursorWindow :=
  ⟨"ledger.py", 1, 6, ledgerLines⟩

theorem window?_ledger (budget : Nat) :
    ledger.window? (askSettle budget) = some ledgerWindow := by
  have hread : ledger.readText "ledger.py" = some ledgerText := rfl
  unfold window? askSettle
  simp only [Option.bind_eq_bind, Option.bind_some, hread, linesOf_ledgerText]
  rfl

theorem matchesFiles_ledger : MatchesFiles {} ledger := by
  intro c text hc hread
  have hrows : ledger.store.chunkRecords (fun _ _ => true) = [settleRecord] := by
    decide +kernel
  have hmem : c ∈ ledger.store.chunkRecords fun _ _ => true := by
    obtain ⟨hrow, -, hfile⟩ := Store.mem_chunkRecords.1 (List.mem_of_head? hc)
    exact Store.mem_chunkRecords.2 ⟨hrow, rfl, hfile⟩
  rw [hrows, List.mem_singleton] at hmem
  subst hmem
  obtain rfl : ledgerText = text := Option.some.inj hread
  refine ⟨settle, ?_, rfl⟩
  rw [linesOf_ledgerText]
  exact ⟨by decide, by decide, by decide, by decide +kernel⟩

theorem leftOutAsShown_settle (budget : Nat) :
    LeftOutAsShown ledger (askSettle budget) settleRecord := by
  have hnames : ledger.names (askSettle budget) (ledger.window? (askSettle budget)) =
      ["settle"] := by
    rw [window?_ledger]
    unfold names enclosing? askSettle
    dsimp only
    decide +kernel
  have hnamed : (ledger.store.named "settle").take maxPerName = [settleRecord] := by
    decide +kernel
  have hcovered : isCovered (ledger.window? (askSettle budget)) settleRecord = true := by
    rw [window?_ledger]
    rfl
  exact .definition "settle" (hnames ▸ List.mem_singleton_self _)
    (hnamed ▸ List.mem_singleton_self _) rfl hcovered

/-- The section is cut behind the function, which is shown. -/
theorem left_out_shown_iff_ledger :
    ledger.store = Store.history ledgerWrites ∧ MatchesFiles {} ledger ∧
      LeftOutAsShown ledger (askSettle 110) settleRecord ∧
      ∃ s, (build ledger {} (askSettle 110)).sections.head? = some s ∧ s.truncated = true ∧
        (settleRecord.linesIn ledgerText).map String.toList <:+: s.text.toList.splitOn '\n' := by
  have hleft := leftOutAsShown_settle 110
  obtain ⟨-, -, w, text, s, hw, hread, -, hhead, -, -, hshows⟩ :=
    left_out_shown_iff ledgerWrites rfl {} matchesFiles_ledger hleft
  obtain rfl : ledgerText = text := Option.some.inj hread
  obtain rfl : ledgerWindow = w := Option.some.inj ((window?_ledger 110).symm.trans hw)
  obtain rfl : Section.ofItems {} 110 .currentFile [ledgerWindow.render] = s :=
    Option.some.inj ((head?_build {} hw).symm.trans hhead)
  have hcut :
      (Section.ofItems {} 110 .currentFile [ledgerWindow.render]).truncated = true := by
    rw [Section.ofItems_truncated, CursorWindow.fullText_render (List.cons_ne_nil _ _),
      toList_joinLines]
    decide +kernel
  have hlast : (ledgerWindow.through settleRecord.row.endLine).length = 105 ∧
      (ledgerWindow.through settleRecord.row.endLine).getLast? = some '1' := by
    rw [CursorWindow.through, toList_joinLines]
    decide +kernel
  have hroom : (ledgerWindow.through settleRecord.row.endLine).length + 16 <
      4 * Section.room {} (askSettle 110).budget .currentFile := by
    rw [hlast.1]
    decide
  exact ⟨rfl, matchesFiles_ledger, hleft, _, hhead, hcut,
    hshows.verbatim (hshows.of_room '1' hroom hlast.2 (by decide))⟩

/-- What is left of the section with less room. -/
def cutText : String :=
  joinLines ["## Current file", "", "### ledger.py:1-6", "\x60\x60\x60",
    "# Every entry that was posted is kept.", "... [truncated]"]

/-- With less room the section is cut before the function, which is then shown nowhere. -/
theorem left_out_unseen :
    MatchesFiles {} ledger ∧ LeftOutAsShown ledger (askSettle 92) settleRecord ∧
      ∃ s, (build ledger {} (askSettle 92)).sections.head? = some s ∧ s.kind = .currentFile ∧
        s.text = cutText ∧
        ∃ line ∈ settleRecord.linesIn ledgerText, ¬ line.toList <:+: s.text.toList := by
  have htext :
      (Section.ofItems {} 92 .currentFile [ledgerWindow.render]).text = cutText := by
    apply String.toList_inj.1
    rw [Section.ofItems_text, String.toList_ofList,
      CursorWindow.fullText_render (List.cons_ne_nil _ _), toList_joinLines, cutText,
      toList_joinLines]
    decide +kernel
  have hline : "def settle():" ∈ settleRecord.linesIn ledgerText := by
    rw [ChunkRecord.linesIn, linesOf_ledgerText]
    decide +kernel
  refine ⟨matchesFiles_ledger, leftOutAsShown_settle 92, _, head?_build {} (window?_ledger 92),
    Section.ofItems_kind .., htext, "def settle():", hline, ?_⟩
  change ¬ _ <:+: (Section.ofItems {} 92 .currentFile [ledgerWindow.render]).text.toList
  rw [htext, cutText, toList_joinLines]
  decide +kernel

end Context

end CodeIndex

import CodeIndex.Relation.UseTree
import CodeIndex.Proofs.Text.Search
import CodeIndex.Proofs.Text.Trimming
/-!
# Printed imports

An import argument is a tree: a path with a name, with a star or with a group of further arguments
behind it. However a tree is laid out in a text, expanding the text gives one pair for each leaf, in
order: its symbol and the path that leads to it.
-/

namespace CodeIndex

open Text

namespace UseTree

/-- A character that a group is parted by. -/
def isMark (c : Char) : Bool :=
  ['\x7b', '\x7d', ','].contains c

/-- A character that the notation has no use for: any one of an identifier. -/
def isPlain (c : Char) : Bool :=
  !(isBlank c || isMark c || [':', '/', '.', '*'].contains c)

structure Segment where
  text : List Char
  ne_nil : text ≠ []
  allPlain : text.all isPlain = true

end UseTree

/-- An import argument. What is named is not `self`, which stands for the path before it. -/
inductive UseTree where
  | name (path : List UseTree.Segment) (symbol : UseTree.Segment)
      (hself : symbol.text ≠ "self".toList) (renamed : Option UseTree.Segment)
  | star (path : List UseTree.Segment)
  | self (renamed : Option UseTree.Segment)
  | group (path : List UseTree.Segment) (members : List UseTree)

namespace UseTree

variable {c : Char} {cs : List Char} {path : List Segment}

/-! ## Leaves -/

/-- The segments of a path with separators between them. -/
def pathText (path : List Segment) : List Char :=
  separator.intercalate (path.map Segment.text)

/-- A symbol below a path; a symbol alone is its own source. -/
def leaf (path : List Segment) (symbol : List Char) : ImportPair :=
  if path.isEmpty then ⟨symbol, symbol⟩ else ⟨symbol, pathText path⟩

/-- The path itself, under the name of its last segment. -/
def itself (path : List Segment) : ImportPair :=
  match path.getLast? with
  | some last => ⟨last.text, pathText path⟩
  | none => ⟨"self".toList, "self".toList⟩

mutual

/-- The pairs of the leaves of a tree below a path, in order. -/
def leaves (base : List Segment) : UseTree → List ImportPair
  | name path symbol _ _ => [leaf (base ++ path) symbol.text]
  | star path => [leaf (base ++ path) ['*']]
  | self _ => [itself base]
  | group path members => leavesOf (base ++ path) members

def leavesOf (base : List Segment) : List UseTree → List ImportPair
  | [] => []
  | t :: ts => leaves base t ++ leavesOf base ts

end

/-! ## Layout -/

/-- A path with what follows it, each segment before a separator. -/
def leading (path : List Segment) : List Char :=
  path.flatMap fun s => s.text ++ separator

def aliasText : Option Segment → List Char
  | none => []
  | some s => " as ".toList ++ s.text

mutual

/-- The text is a way to write the tree. -/
inductive IsPrinted : UseTree → List Char → Prop where
  | name (path : List Segment) (symbol : Segment) (hself : symbol.text ≠ "self".toList)
      (renamed : Option Segment) :
      IsPrinted (.name path symbol hself renamed) (leading path ++ symbol.text ++ aliasText renamed)
  | star (path : List Segment) : IsPrinted (.star path) (leading path ++ ['*'])
  | self (renamed : Option Segment) : IsPrinted (.self renamed) ("self".toList ++ aliasText renamed)
  | group {members : List UseTree} {inside : List Char} (path : List Segment)
      (h : ArePrinted members inside) :
      IsPrinted (.group path members) (leading path ++ '\x7b' :: (inside ++ ['\x7d']))

/-- The text is a way to write the members of a group: with commas between them, perhaps one behind
the last member, and with blanks around members and commas. -/
inductive ArePrinted : List UseTree → List Char → Prop where
  | nil {blanks : List Char} (h : allBlank blanks = true) : ArePrinted [] blanks
  | last {t : UseTree} {before text after : List Char} (h : IsPrinted t text)
      (hbefore : allBlank before = true) (hafter : allBlank after = true) :
      ArePrinted [t] (before ++ text ++ after)
  | cons {t : UseTree} {ts : List UseTree} {before text after rest : List Char}
      (h : IsPrinted t text) (hbefore : allBlank before = true) (hafter : allBlank after = true)
      (hrest : ArePrinted ts rest) :
      ArePrinted (t :: ts) (before ++ text ++ after ++ ',' :: rest)

end

/-! ## Paths -/

theorem Segment.plain (s : Segment) : ∀ c ∈ s.text, isPlain c = true :=
  List.all_eq_true.1 s.allPlain

theorem Segment.not_mem (s : Segment) (hc : isPlain c = false) : c ∉ s.text := by
  intro hmem
  rw [s.plain c hmem] at hc
  cases hc

theorem isBlank_of_isPlain (hc : isPlain c = true) : isBlank c = false := by
  rw [isPlain, Bool.not_eq_true', Bool.or_eq_false_iff, Bool.or_eq_false_iff] at hc
  exact hc.1.1

theorem isMark_of_isPlain (hc : isPlain c = true) : isMark c = false := by
  rw [isPlain, Bool.not_eq_true', Bool.or_eq_false_iff, Bool.or_eq_false_iff] at hc
  exact hc.1.2

/-- A path has the characters of its segments, and colons. -/
theorem of_mem_leading {p : Char → Prop} (hcolon : p ':') (hplain : ∀ c, isPlain c = true → p c) :
    ∀ c ∈ leading path, p c := by
  intro c hc
  obtain ⟨s, -, hc⟩ := List.mem_flatMap.1 hc
  rcases List.mem_append.1 hc with hc | hc
  · exact hplain c (s.plain c hc)
  · have hc : c = ':' := by simpa [separator] using hc
    exact hc ▸ hcolon

theorem not_mem_leading (hcolon : c ≠ ':') (hc : isPlain c = false) : c ∉ leading path := by
  have hne : ∀ d ∈ leading path, d ≠ c := by
    refine of_mem_leading hcolon.symm fun d hd => ?_
    rintro rfl
    rw [hd] at hc
    cases hc
  exact fun hmem => hne c hmem rfl

theorem not_mem_aliasText (renamed : Option Segment) : '\x7d' ∉ aliasText renamed := by
  cases renamed with
  | none => exact List.not_mem_nil
  | some s =>
      rw [aliasText, List.mem_append, not_or]
      exact ⟨by decide, s.not_mem (by decide)⟩

theorem leading_append (a b : List Segment) : leading (a ++ b) = leading a ++ leading b :=
  List.flatMap_append

theorem leading_eq (hpath : path ≠ []) : leading path = pathText path ++ separator := by
  unfold leading pathText
  induction path with
  | nil => exact absurd rfl hpath
  | cons s path ih =>
      cases path with
      | nil => simp
      | cons t path =>
          rw [List.flatMap_cons, ih (List.cons_ne_nil t path), List.map_cons, List.map_cons,
            List.map_cons, List.intercalate_cons_cons]
          simp only [List.append_assoc]

/-- The last segment stands behind the other ones. -/
theorem pathText_concat (path : List Segment) (s : Segment) :
    pathText (path ++ [s]) = leading path ++ s.text := by
  have hleading : pathText (path ++ [s]) ++ separator = leading path ++ s.text ++ separator := by
    rw [← leading_eq (by simp), leading_append, List.append_assoc]
    simp [leading]
  exact List.append_cancel_right hleading

theorem pathText_ne_nil (hpath : path ≠ []) : pathText path ≠ [] := by
  obtain ⟨init, s, rfl⟩ := List.eq_nil_or_concat path |>.resolve_left hpath
  rw [List.concat_eq_append, pathText_concat]
  exact List.append_ne_nil_of_right_ne_nil _ s.ne_nil

theorem joinPaths_leading (base path : List Segment) (hcs : cs ≠ []) :
    joinPaths (pathText base) (leading path ++ cs) = leading (base ++ path) ++ cs := by
  have hright : (leading path ++ cs).isEmpty = false :=
    List.isEmpty_eq_false_iff.2 (List.append_ne_nil_of_right_ne_nil _ hcs)
  by_cases hbase : base = []
  · subst hbase
    rfl
  · have hleft : (pathText base).isEmpty = false :=
      List.isEmpty_eq_false_iff.2 (pathText_ne_nil hbase)
    rw [joinPaths, hleft, hright, if_neg Bool.false_ne_true, if_neg Bool.false_ne_true,
      ← leading_eq hbase, leading_append, List.append_assoc]

theorem joinPaths_pathText (base path : List Segment) :
    joinPaths (pathText base) (pathText path) = pathText (base ++ path) := by
  rcases List.eq_nil_or_concat path with rfl | ⟨init, s, rfl⟩
  · have hnil : (pathText []).isEmpty = true := rfl
    rw [joinPaths, hnil, if_pos rfl, List.append_nil]
    split
    · next hempty => rw [List.isEmpty_iff.1 hempty]; rfl
    · rfl
  · rw [List.concat_eq_append, pathText_concat, joinPaths_leading _ _ s.ne_nil, ← List.append_assoc,
      pathText_concat]

/-! ## Pairs -/

theorem leafPair_leading (hcolon : ':' ∉ cs) (hself : cs ≠ "self".toList) :
    leafPair (leading path ++ cs) = leaf path cs := by
  by_cases hpath : path = []
  · subst hpath
    have hsplit : splitLast separator cs = none := splitLast_eq_none hcolon [':']
    rw [leading, List.flatMap_nil, List.nil_append, leafPair, hsplit]
    rfl
  · have hsplit : splitLast separator (pathText path ++ separator ++ cs) =
        some (pathText path, cs) := splitLast_append hcolon (pathText path) [':']
    have hne : (cs == "self".toList) = false := beq_eq_false_iff_ne.2 hself
    rw [leading_eq hpath, leafPair, hsplit, leaf, List.isEmpty_eq_false_iff.2 hpath]
    simp only [hne, Bool.false_eq_true, if_false]

theorem lastSegment_pathText (path : List Segment) (s : Segment) :
    lastSegment (pathText (path ++ [s])) = s.text := by
  let isEnd : Char → Bool := fun c => c == '/' || c == '.' || c == ':'
  have hlast : pieces isEnd s.text = [s.text] := by
    have hne : ∀ d, isPlain d = false → ∀ c ∈ s.text, (c == d) = false :=
      fun d hd => beq_of_not_mem (s.not_mem hd)
    refine pieces_eq_singleton fun c hc => ?_
    simp only [isEnd, hne '/' (by decide) c hc, hne '.' (by decide) c hc,
      hne ':' (by decide) c hc, Bool.or_false]
  obtain ⟨front, hfront⟩ : ∃ front, pieces isEnd (pathText (path ++ [s])) = front ++ [s.text] := by
    rw [pathText_concat]
    by_cases hpath : path = []
    · exact ⟨[], by rw [hpath]; exact hlast⟩
    · -- the second colon of the last separator is the one that ends a piece
      refine ⟨pieces isEnd (pathText path ++ [':']), ?_⟩
      have hsplit := pieces_append_cons (p := isEnd) (c := ':') rfl (pathText path ++ [':']) s.text
      rw [hlast, List.append_assoc] at hsplit
      rw [leading_eq hpath, ← hsplit, List.append_assoc]
      rfl
  have hfind : (front ++ [s.text]).reverse.find? (!·.isEmpty) = some s.text := by
    simp [s.ne_nil]
  rw [lastSegment]
  change ((pieces isEnd _).reverse.find? _).getD _ = _
  rw [hfront, hfind, Option.getD_some]

theorem leafPair_self (path : List Segment) :
    leafPair (leading path ++ "self".toList) = itself path := by
  rcases List.eq_nil_or_concat path with rfl | ⟨init, s, rfl⟩
  · rfl
  · rw [List.concat_eq_append]
    have hsplit : splitLast separator (pathText (init ++ [s]) ++ separator ++ "self".toList) =
        some (pathText (init ++ [s]), "self".toList) :=
      splitLast_append (by decide) (pathText (init ++ [s])) [':']
    rw [leading_eq (by simp), leafPair, hsplit]
    simp only [beq_self_eq_true, if_true, lastSegment_pathText, itself, List.getLast?_concat]

/-! ## Parts of a group -/

/-- The braces of the text match, and at that depth or deeper no comma of it ends a part. -/
def IsWhole (least : Nat) (text : List Char) : Prop :=
  ∀ depth, least ≤ depth → ∀ rest p ps, topParts depth rest = p :: ps →
    topParts depth (text ++ rest) = (text ++ p) :: ps

/-- A character that ends no part, with the depth behind it. -/
theorem topParts_cons {depth behind : Nat} {p : List Char} {ps : List (List Char)}
    (hcomma : c ≠ ',' ∨ depth ≠ 0)
    (hbehind : behind = if c = '\x7b' then depth + 1 else if c = '\x7d' then depth - 1 else depth)
    (h : topParts behind cs = p :: ps) : topParts depth (c :: cs) = (c :: p) :: ps := by
  have hpart : (c == ',' && depth == 0) = false := by
    rw [Bool.and_eq_false_iff, beq_eq_false_iff_ne, beq_eq_false_iff_ne]
    exact hcomma
  subst hbehind
  rw [topParts, hpart, if_neg Bool.false_ne_true]
  simp only [beq_iff_eq, h]

theorem isWhole_nil (least : Nat) : IsWhole least [] :=
  fun _ _ _ _ _ h => h

theorem IsWhole.append {least : Nat} {a b : List Char} (ha : IsWhole least a)
    (hb : IsWhole least b) : IsWhole least (a ++ b) := by
  intro depth hdepth rest p ps h
  rw [List.append_assoc, List.append_assoc]
  exact ha depth hdepth _ _ _ (hb depth hdepth _ _ _ h)

theorem IsWhole.deeper {text : List Char} (h : IsWhole 0 text) : IsWhole 1 text :=
  fun depth _ => h depth (Nat.zero_le depth)

theorem isWhole_of_all {text : List Char} (htext : text.all (!isMark ·) = true) :
    IsWhole 0 text := by
  induction text with
  | nil => exact isWhole_nil 0
  | cons c text ih =>
      rw [List.all_cons, Bool.and_eq_true, Bool.not_eq_true'] at htext
      obtain ⟨hc, hrest⟩ := htext
      have hne : ∀ d, isMark d = true → c ≠ d := by
        rintro _ hd rfl
        rw [hc] at hd
        cases hd
      intro depth hdepth rest p ps h
      refine topParts_cons (Or.inl (hne ',' rfl)) ?_ (ih hrest depth hdepth rest p ps h)
      rw [if_neg (hne '\x7b' rfl), if_neg (hne '\x7d' rfl)]

theorem isWhole_of_forall {text : List Char} (htext : ∀ c ∈ text, isMark c = false) :
    IsWhole 0 text :=
  isWhole_of_all (List.all_eq_true.2 fun c hc => by rw [htext c hc, Bool.not_false])

theorem isWhole_comma : IsWhole 1 [','] := by
  intro depth hdepth rest p ps h
  refine topParts_cons (Or.inr (by omega)) ?_ h
  rw [if_neg (by decide), if_neg (by decide)]

/-- Inside of braces the depth is one more. -/
theorem IsWhole.braces {inside : List Char} (h : IsWhole 1 inside) :
    IsWhole 0 ('\x7b' :: (inside ++ ['\x7d'])) := by
  intro depth _ rest p ps hrest
  have hclose : topParts (depth + 1) ('\x7d' :: rest) = ('\x7d' :: p) :: ps := by
    refine topParts_cons (Or.inl (by decide)) ?_ hrest
    rw [if_neg (by decide), if_pos rfl, Nat.add_sub_cancel]
  have hinside := h (depth + 1) (Nat.le_add_left 1 depth) _ _ _ hclose
  rw [List.cons_append, List.append_assoc, List.singleton_append]
  refine topParts_cons (Or.inl (by decide)) ?_ (hinside.trans ?_)
  · rw [if_pos rfl]
  · rw [List.append_cons]
    rfl

theorem isMark_of_isBlank (hc : isBlank c = true) : isMark c = false := by
  by_contra hmark
  rw [Bool.not_eq_false, isMark, List.contains_iff_mem] at hmark
  simp only [List.mem_cons, List.not_mem_nil, or_false] at hmark
  rcases hmark with rfl | rfl | rfl <;> exact absurd hc (by decide)

theorem isWhole_blanks {blanks : List Char} (h : allBlank blanks = true) : IsWhole 0 blanks :=
  isWhole_of_forall fun c hc => isMark_of_isBlank (List.all_eq_true.1 h c hc)

theorem IsWhole.padded {before text after : List Char} (h : IsWhole 0 text)
    (hbefore : allBlank before = true) (hafter : allBlank after = true) :
    IsWhole 0 (before ++ text ++ after) :=
  ((isWhole_blanks hbefore).append h).append (isWhole_blanks hafter)

theorem isWhole_segment (s : Segment) : IsWhole 0 s.text :=
  isWhole_of_forall fun c hc => isMark_of_isPlain (s.plain c hc)

theorem isWhole_leading (path : List Segment) : IsWhole 0 (leading path) :=
  isWhole_of_forall (of_mem_leading rfl fun _ => isMark_of_isPlain)

theorem isWhole_aliasText (renamed : Option Segment) : IsWhole 0 (aliasText renamed) := by
  cases renamed with
  | none => exact isWhole_nil 0
  | some s => exact (isWhole_of_all (by decide)).append (isWhole_segment s)

mutual

theorem IsPrinted.isWhole : ∀ {t : UseTree} {text : List Char}, IsPrinted t text → IsWhole 0 text
  | _, _, .name path symbol _ renamed =>
      ((isWhole_leading path).append (isWhole_segment symbol)).append
        (isWhole_aliasText renamed)
  | _, _, .star path =>
      (isWhole_leading path).append (isWhole_of_all (by decide))
  | _, _, .self renamed =>
      (isWhole_of_all (by decide)).append (isWhole_aliasText renamed)
  | _, _, .group path h => (isWhole_leading path).append h.isWhole.braces

theorem ArePrinted.isWhole : ∀ {ts : List UseTree} {inside : List Char},
    ArePrinted ts inside → IsWhole 1 inside
  | _, _, .nil h => (isWhole_blanks h).deeper
  | _, _, .last h hbefore hafter => (h.isWhole.padded hbefore hafter).deeper
  | _, _, .cons h hbefore hafter hrest => by
      have hmember := (h.isWhole.padded hbefore hafter).deeper
      rw [List.append_cons]
      exact (hmember.append isWhole_comma).append hrest.isWhole

end

/-! ## One step of the expansion -/

/-- A text that neither starts nor ends in a blank. -/
structure IsBare (text : List Char) : Prop where
  ne_nil : text ≠ []
  head : ∀ c, text.head? = some c → isBlank c = false
  last : ∀ c, text.getLast? = some c → isBlank c = false

theorem isBare_of_forall (hne : cs ≠ []) (hcs : ∀ c ∈ cs, isBlank c = false) : IsBare cs :=
  ⟨hne, fun c hc => hcs c (List.mem_of_mem_head? hc), fun c hc => hcs c (List.mem_of_getLast? hc)⟩

theorem IsBare.append {a b : List Char} (ha : IsBare a) (hb : IsBare b) (between : List Char) :
    IsBare (a ++ between ++ b) := by
  refine ⟨List.append_ne_nil_of_right_ne_nil _ hb.ne_nil, fun c hc => ?_, fun c hc => ?_⟩
  · rw [List.append_assoc, List.head?_append_of_ne_nil _ ha.ne_nil] at hc
    exact ha.head c hc
  · rw [List.getLast?_append_of_ne_nil _ hb.ne_nil] at hc
    exact hb.last c hc

theorem IsBare.trim_eq {text before after : List Char} (h : IsBare text)
    (hbefore : allBlank before = true) (hafter : allBlank after = true) :
    trim (before ++ text ++ after) = text :=
  dropAround_append (List.all_eq_true.1 hbefore) h.head h.last (List.all_eq_true.1 hafter)

theorem IsBare.trim_eq_self {text : List Char} (h : IsBare text) : trim text = text := by
  have htrim : trim ([] ++ text ++ []) = text := h.trim_eq rfl rfl
  rwa [List.nil_append, List.append_nil] at htrim

theorem isBare_segment (s : Segment) : IsBare s.text :=
  isBare_of_forall s.ne_nil fun c hc => isBlank_of_isPlain (s.plain c hc)

theorem isBlank_of_mem_leading : ∀ c ∈ leading path, isBlank c = false :=
  of_mem_leading (by decide) fun _ => isBlank_of_isPlain

theorem IsBare.withAlias {full : List Char} (h : IsBare full) (renamed : Option Segment) :
    IsBare (full ++ aliasText renamed) := by
  cases renamed with
  | none => rwa [aliasText, List.append_nil]
  | some s =>
      rw [aliasText, ← List.append_assoc]
      exact h.append (isBare_segment s) " as ".toList

/-- A symbol: it is joined to the path, and its alias is left out. -/
theorem expandFrom_symbol {symbol before after : List Char} (hne : symbol ≠ [])
    (hinked : symbol.all (!isBlank ·) = true) (hclose : '\x7d' ∉ symbol)
    (hbefore : allBlank before = true) (hafter : allBlank after = true) (fuel : Nat)
    (base path : List Segment) (renamed : Option Segment) :
    expandFrom (fuel + 1) (pathText base)
        (before ++ (leading path ++ symbol ++ aliasText renamed) ++ after) =
      [leafPair (leading (base ++ path) ++ symbol)] := by
  have hblank : ∀ c ∈ symbol, isBlank c = false := by simpa using hinked
  have hfull : ∀ c ∈ leading path ++ symbol, isBlank c = false :=
    List.forall_mem_append.2 ⟨isBlank_of_mem_leading, hblank⟩
  -- the first blank of the text, if it has one, is that of the alias
  have hspace : ' ' ∉ leading path ++ symbol := fun hmem => absurd (hfull _ hmem) (by decide)
  have hbare := isBare_of_forall (List.append_ne_nil_of_right_ne_nil (leading path) hne) hfull
  have hempty := List.isEmpty_eq_false_iff.2 (hbare.withAlias renamed).ne_nil
  have hnot : '\x7d' ∉ leading path ++ symbol ++ aliasText renamed := by
    rw [List.mem_append, List.mem_append, not_or, not_or]
    exact ⟨⟨not_mem_leading (by decide) (by decide), hclose⟩, not_mem_aliasText renamed⟩
  have hgroup : group? (leading path ++ symbol ++ aliasText renamed) = none := by
    refine if_neg fun hlast => hnot (List.mem_of_getLast? (beq_iff_eq.1 hlast))
  rw [expandFrom, (hbare.withAlias renamed).trim_eq hbefore hafter, hempty, hgroup,
    ← joinPaths_leading base path hne]
  cases renamed with
  | none =>
      have hsplit : splitFirst " as ".toList (leading path ++ symbol ++ aliasText none) = none := by
        rw [aliasText, List.append_nil]
        exact splitFirst_eq_none hspace _
      simp only [Bool.false_eq_true, if_false, hsplit]
      rw [aliasText, List.append_nil, hbare.trim_eq_self]
  | some s =>
      have hsplit : splitFirst " as ".toList (leading path ++ symbol ++ aliasText (some s)) =
          some (leading path ++ symbol, s.text) := splitFirst_append hspace _ s.text
      simp only [Bool.false_eq_true, if_false, hsplit]
      rw [hbare.trim_eq_self]

theorem dropSeparators_pathText (path : List Segment) (fuel : Nat) :
    dropSeparators fuel (pathText path) = pathText path := by
  have hlast : ':' ∉ (pathText path).getLast? := by
    rcases List.eq_nil_or_concat path with rfl | ⟨init, s, rfl⟩
    · exact Option.not_mem_none _
    · rw [List.concat_eq_append, pathText_concat, List.getLast?_append_of_ne_nil _ s.ne_nil]
      exact fun hmem => s.not_mem (by decide) (List.mem_of_getLast? hmem)
  have hstrip : stripEnd separator (pathText path) = none := stripEnd_eq_none hlast [':']
  cases fuel with
  | zero => rfl
  | succ fuel => rw [dropSeparators, hstrip]

theorem dropSeparators_leading (path : List Segment) (fuel : Nat) :
    dropSeparators (fuel + 1) (leading path) = pathText path := by
  by_cases hpath : path = []
  · subst hpath
    rfl
  · rw [leading_eq hpath, dropSeparators, stripEnd_append]
    exact dropSeparators_pathText path fuel

theorem trim_leading (path : List Segment) : trim (leading path) = leading path := by
  by_cases hpath : leading path = []
  · rw [hpath]
    rfl
  · exact (isBare_of_forall hpath isBlank_of_mem_leading).trim_eq_self

theorem group?_group (path : List Segment) (inside : List Char) :
    group? (leading path ++ '\x7b' :: (inside ++ ['\x7d'])) = some (leading path, inside) := by
  have hsplit : splitFirst ['\x7b'] (leading path ++ '\x7b' :: (inside ++ ['\x7d'])) =
      some (leading path, inside ++ ['\x7d']) :=
    splitFirst_append (not_mem_leading (by decide) (by decide)) [] (inside ++ ['\x7d'])
  have hlast : (leading path ++ '\x7b' :: (inside ++ ['\x7d'])).getLast? = some '\x7d' := by
    rw [← List.cons_append, ← List.append_assoc, List.getLast?_concat]
  rw [group?, hlast, beq_self_eq_true, if_pos rfl, hsplit]
  simp only [Option.map_some, List.dropLast_concat]

/-- A group: its parts are expanded below the longer path. -/
theorem expandFrom_group {inside before after : List Char} (hbefore : allBlank before = true)
    (hafter : allBlank after = true) (fuel : Nat) (base path : List Segment) :
    expandFrom (fuel + 1) (pathText base)
        (before ++ (leading path ++ '\x7b' :: (inside ++ ['\x7d'])) ++ after) =
      (topParts 0 inside).flatMap (expandFrom fuel (pathText (base ++ path))) := by
  have hbare : IsBare (leading path ++ '\x7b' :: (inside ++ ['\x7d'])) := by
    have hopen : IsBare (leading path ++ ['\x7b']) := by
      refine isBare_of_forall (by simp) (List.forall_mem_append.2 ⟨isBlank_of_mem_leading, ?_⟩)
      exact List.forall_mem_singleton.2 rfl
    have hclose : IsBare ['\x7d'] :=
      isBare_of_forall (List.cons_ne_nil _ _) (List.forall_mem_singleton.2 rfl)
    have h := hopen.append hclose inside
    rwa [List.append_assoc, List.append_assoc, List.singleton_append] at h
  obtain ⟨n, hlength⟩ := Nat.exists_eq_succ_of_ne_zero
    (List.length_pos_iff.2 hbare.ne_nil).ne'
  rw [expandFrom, hbare.trim_eq hbefore hafter, List.isEmpty_eq_false_iff.2 hbare.ne_nil,
    if_neg Bool.false_ne_true, group?_group]
  simp only [hlength, trim_leading, dropSeparators_leading, joinPaths_pathText]

/-! ## The whole expansion -/

theorem expandFrom_blanks {blanks : List Char} (h : allBlank blanks = true) (fuel : Nat)
    (base : List Char) : expandFrom fuel base blanks = [] := by
  have htrim : trim blanks = [] := by
    have h : trim (blanks ++ [] ++ []) = [] :=
      dropAround_append (List.all_eq_true.1 h) (by simp) (by simp) (List.forall_mem_nil _)
    rwa [List.append_nil, List.append_nil] at h
  cases fuel with
  | zero => rfl
  | succ fuel =>
      rw [expandFrom, htrim]
      rfl

/-- The parts of a group before and after a comma. -/
theorem topParts_comma {member : List Char} (h : IsWhole 0 member) (rest : List Char) :
    topParts 0 (member ++ ',' :: rest) = member :: topParts 0 rest := by
  have hparts := h 0 (Nat.le_refl 0) (',' :: rest) [] (topParts 0 rest) rfl
  rwa [List.append_nil] at hparts

theorem topParts_whole {member : List Char} (h : IsWhole 0 member) :
    topParts 0 member = [member] := by
  have hparts := h 0 (Nat.le_refl 0) [] [] [] rfl
  rwa [List.append_nil] at hparts

mutual

theorem expandFrom_of_isPrinted : ∀ {t : UseTree} {text : List Char}, IsPrinted t text →
    ∀ {before after : List Char}, allBlank before = true → allBlank after = true →
      ∀ (fuel : Nat) (base : List Segment), text.length < fuel →
        expandFrom fuel (pathText base) (before ++ text ++ after) = leaves base t
  | _, _, .name path symbol hself renamed, _, _, hbefore, hafter, fuel + 1, base, _ => by
      have hinked : symbol.text.all (!isBlank ·) = true :=
        List.all_eq_true.2 fun c hc => by
          rw [isBlank_of_isPlain (symbol.plain c hc), Bool.not_false]
      rw [expandFrom_symbol symbol.ne_nil hinked (symbol.not_mem (by decide)) hbefore hafter,
        leafPair_leading (symbol.not_mem (by decide)) hself, leaves]
  | _, _, .star path, before, after, hbefore, hafter, fuel + 1, base, _ => by
      have h := expandFrom_symbol (List.cons_ne_nil '*' []) (by decide) (by decide) hbefore hafter
        fuel base path none
      rw [aliasText, List.append_nil] at h
      rw [h, leafPair_leading (by decide) (by decide), leaves]
  | _, _, .self renamed, before, after, hbefore, hafter, fuel + 1, base, _ => by
      have hself : "self".toList ≠ [] := by decide
      have h := expandFrom_symbol hself (by decide) (by decide) hbefore hafter fuel base [] renamed
      rw [List.append_nil] at h
      exact h.trans (congrArg (fun pair => [pair]) (leafPair_self base))
  | _, _, .group path h, _, _, hbefore, hafter, fuel + 1, base, hfuel => by
      rw [List.length_append, List.length_cons, List.length_append] at hfuel
      rw [expandFrom_group hbefore hafter, leaves]
      exact expandFrom_of_arePrinted h fuel (base ++ path) (by omega)

theorem expandFrom_of_arePrinted : ∀ {ts : List UseTree} {inside : List Char},
    ArePrinted ts inside → ∀ (fuel : Nat) (base : List Segment), inside.length < fuel →
      (topParts 0 inside).flatMap (expandFrom fuel (pathText base)) = leavesOf base ts
  | _, _, .nil h, fuel, base, _ => by
      rw [topParts_whole (isWhole_blanks h), List.flatMap_singleton, expandFrom_blanks h, leavesOf]
  | _, _, .last h hbefore hafter, fuel, base, hfuel => by
      rw [List.length_append, List.length_append] at hfuel
      rw [topParts_whole (h.isWhole.padded hbefore hafter), List.flatMap_singleton,
        expandFrom_of_isPrinted h hbefore hafter fuel base (by omega), leavesOf, leavesOf,
        List.append_nil]
  | _, _, .cons h hbefore hafter hrest, fuel, base, hfuel => by
      rw [List.length_append, List.length_append, List.length_append, List.length_cons] at hfuel
      rw [topParts_comma (h.isWhole.padded hbefore hafter), List.flatMap_cons,
        expandFrom_of_isPrinted h hbefore hafter fuel base (by omega),
        expandFrom_of_arePrinted hrest fuel base (by omega), leavesOf]

end

/-- However an argument is laid out, it is expanded to one pair for each leaf, in order. -/
theorem expand_of_isPrinted {t : UseTree} {text : List Char} (h : IsPrinted t text) :
    expand text = t.leaves [] := by
  have hexpand : expandFrom (text.length + 1) (pathText []) ([] ++ text ++ []) = leaves [] t :=
    expandFrom_of_isPrinted h rfl rfl _ [] (Nat.lt_succ_self _)
  rwa [List.nil_append, List.append_nil] at hexpand

/-- A group in a group, over three rows and with a comma at its end. -/
theorem expand_of_isPrinted_nested :
    let db : Segment := ⟨"db".toList, by decide, by decide⟩
    let m : Segment := ⟨"m".toList, by decide, by decide⟩
    let row : Segment := ⟨"Row".toList, by decide, by decide⟩
    let inner : List UseTree := [.star [], .self none]
    let outer : List UseTree := [.self (some m), .group [m] inner, .name [m] row (by decide) db]
    let text := "db::\x7bself as m,\n  m::\x7b *,self \x7d , m::Row as db,\n\x7d".toList
    IsPrinted (.group [db] outer) text ∧
      expand text = [⟨"db".toList, "db".toList⟩, ⟨['*'], "db::m".toList⟩,
        ⟨"m".toList, "db::m".toList⟩, ⟨"Row".toList, "db::m".toList⟩] := by
  intro db m row inner outer text
  have hinner : ArePrinted inner ([' '] ++ ['*'] ++ [] ++ ',' :: ([] ++ "self".toList ++ [' '])) :=
    .cons (.star []) rfl rfl (.last (.self none) rfl rfl)
  have houter : ArePrinted outer ([] ++ "self as m".toList ++ [] ++ ',' ::
      ("\n  ".toList ++ "m::\x7b *,self \x7d".toList ++ [' '] ++ ',' ::
        ([' '] ++ "m::Row as db".toList ++ [] ++ ',' :: ['\n']))) :=
    .cons (.self (some m)) rfl rfl
      (.cons (.group [m] hinner) rfl rfl
        (.cons (.name [m] row (by decide) (some db)) rfl rfl (.nil rfl)))
  have hprinted : IsPrinted (.group [db] outer) text := .group [db] houter
  exact ⟨hprinted, expand_of_isPrinted hprinted⟩

end UseTree

end CodeIndex

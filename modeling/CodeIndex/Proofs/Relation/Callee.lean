import CodeIndex.Relation.CallName
import CodeIndex.Proofs.Text.Lines
import CodeIndex.Proofs.Text.Search
import CodeIndex.Proofs.Text.Trimming
/-!
# Callees

The text of a callee is a chain of segments, perhaps with a receiver in front of it, with generic
arguments behind it and with blanks anywhere. The receiver, the arguments and the blanks are left
out, and what stands between two segments becomes a dot.
-/

namespace CodeIndex

/-! ## Blanks are no part of a name -/

namespace Text

variable {c : Char}

theorem isAlphanum_of_isBlank (hc : isBlank c = true) : c.isAlphanum = false := by
  have hrange : c.toNat = 32 ∨ (9 ≤ c.toNat ∧ c.toNat ≤ 13) ∨ 128 ≤ c.toNat := by
    unfold isBlank at hc
    split at hc
    · simp only [Bool.or_eq_true, beq_iff_eq, Bool.and_eq_true, decide_eq_true_eq] at hc
      rcases hc with rfl | hc
      · exact Or.inl rfl
      · exact Or.inr (Or.inl hc)
    · omega
  have hval : c.val.toNat = c.toNat := rfl
  unfold Char.isAlphanum Char.isAlpha Char.isUpper Char.isLower Char.isDigit
  simp [UInt32.le_iff_toNat_le]
  omega

/-- No interval of one table meets one of the other. -/
def Ranges.areApart (s t : Ranges) : Bool :=
  s.all fun (first, last) => t.all fun (lo, hi) => last < lo || hi < first

theorem Ranges.has_eq_false {s t : Ranges} (hapart : s.areApart t = true)
    (hs : s.has c = true) : t.has c = false := by
  obtain ⟨⟨first, last⟩, hmem, hc⟩ := List.any_eq_true.1 hs
  have hpair := List.all_eq_true.1 (List.all_eq_true.1 hapart _ hmem)
  refine List.any_eq_false.2 fun ⟨lo, hi⟩ hrange => ?_
  have hdisjoint := hpair _ hrange
  simp only [Bool.or_eq_true, Bool.and_eq_true, decide_eq_true_eq] at hdisjoint hc ⊢
  omega

theorem areApart_alphabeticRanges : blankRanges.areApart alphabeticRanges = true := by
  decide +kernel

theorem areApart_numericRanges : blankRanges.areApart numericRanges = true := by
  decide +kernel

theorem isAlphanumeric_of_isBlank (hc : isBlank c = true) : isAlphanumeric c = false := by
  unfold isAlphanumeric isAlphabetic isNumeric
  by_cases hascii : c.toNat < 128
  · rw [if_pos hascii, if_pos hascii]
    exact isAlphanum_of_isBlank hc
  · rw [isBlank, if_neg hascii] at hc
    rw [if_neg hascii, if_neg hascii, Ranges.has_eq_false areApart_alphabeticRanges hc,
      Ranges.has_eq_false areApart_numericRanges hc, Bool.or_false]

end Text

namespace CallName

open Text

variable {c : Char} {cs a more : List Char}

/-! ## Segments -/

/-- What a segment is made of: letters and numbers of every script, `_` and `$`. -/
def isSegmentChar (c : Char) : Bool :=
  isAlphanumeric c || c == '_' || c == '$'

theorem isNameChar_eq (c : Char) : isNameChar c = (isSegmentChar c || c == '.') := by
  unfold isNameChar isSegmentChar
  cases isAlphanumeric c <;> cases c == '_' <;> cases c == '.' <;> cases c == '$' <;> rfl

theorem isBlank_of_isSegmentChar (hc : isSegmentChar c = true) : isBlank c = false := by
  by_contra hblank
  rw [Bool.not_eq_false] at hblank
  unfold isSegmentChar at hc
  rw [isAlphanumeric_of_isBlank hblank] at hc
  simp only [Bool.false_or, Bool.or_eq_true, beq_iff_eq] at hc
  rcases hc with rfl | rfl <;> exact absurd hblank (by decide)

/-- A character that the notation of callees uses is in no segment. -/
theorem ne_of_isSegmentChar (hc : isSegmentChar c = true) {d : Char}
    (hd : isSegmentChar d = false) : c ≠ d := by
  rintro rfl
  rw [hc] at hd
  cases hd

structure Segment where
  text : List Char
  ne_nil : text ≠ []
  allChars : text.all isSegmentChar = true

theorem Segment.chars (s : Segment) : ∀ c ∈ s.text, isSegmentChar c = true :=
  List.all_eq_true.1 s.allChars

theorem Segment.not_mem (s : Segment) {d : Char} (hd : isSegmentChar d = false) : d ∉ s.text :=
  fun hmem => ne_of_isSegmentChar (s.chars d hmem) hd rfl

/-- Segments with dots between them. -/
def dots (segments : List Segment) : List Char :=
  ['.'].intercalate (segments.map Segment.text)

theorem dots_cons (s : Segment) (segments : List Segment) :
    dots (s :: segments) = s.text ++ segments.flatMap fun t => '.' :: t.text := by
  unfold dots
  induction segments generalizing s with
  | nil => simp
  | cons t segments ih =>
      rw [List.map_cons, List.map_cons, List.intercalate_cons_cons, ← List.map_cons, ih t,
        List.flatMap_cons]
      simp

/-! ## Callees -/

/-- What may stand between two segments, or behind a receiver. -/
inductive Separator where
  | dot
  | colons
  | arrow
  | optional
  deriving DecidableEq

def Separator.text : Separator → List Char
  | dot => ['.']
  | colons => [':', ':']
  | arrow => ['-', '>']
  | optional => ['?', '.']

/-- An expression that ends in a closing bracket, and the separator behind it. -/
structure Receiver where
  before : List Char
  bracket : Char
  closes : isClosing bracket = true
  separator : Separator

def Receiver.text (r : Receiver) : List Char :=
  r.before ++ r.bracket :: r.separator.text

/-- Arguments in angle brackets, perhaps behind two colons. -/
structure Generics where
  qualified : Bool
  inside : List Char
  plain : inside.all (!isClosing ·) = true

def Generics.text (g : Generics) : List Char :=
  (if g.qualified then Separator.colons.text else []) ++ '<' :: (g.inside ++ ['>'])

/-- A callee that has a name, unless it is built in. -/
structure Callee where
  receiver : Option Receiver
  first : Segment
  rest : List (Separator × Segment)
  generics : Option Generics
  starts : first.text.head?.any Char.isDigit = false

namespace Callee

def segments (e : Callee) : List Segment :=
  e.first :: e.rest.map Prod.snd

/-- The segments and what stands between them. -/
def chain (e : Callee) : List Char :=
  e.first.text ++ e.rest.flatMap fun (separator, s) => separator.text ++ s.text

def text (e : Callee) : List Char :=
  (e.receiver.elim [] Receiver.text) ++ e.chain ++ (e.generics.elim [] Generics.text)

/-- The segments with dots between them. -/
def name (e : Callee) : String :=
  String.ofList (dots e.segments)

end Callee

/-- The other text is the first one with blanks put anywhere into it. -/
inductive IsSpaced : List Char → List Char → Prop where
  | nil : IsSpaced [] []
  | blank {c : Char} {cs spaced : List Char} (hc : isBlank c = true) (h : IsSpaced cs spaced) :
      IsSpaced cs (c :: spaced)
  | char {cs spaced : List Char} (c : Char) (h : IsSpaced cs spaced) :
      IsSpaced (c :: cs) (c :: spaced)

def isSpaced (cs : List Char) : List Char → Bool
  | [] => cs.isEmpty
  | c :: spaced =>
    (isBlank c && isSpaced cs spaced) || (cs.head? == some c && isSpaced cs.tail spaced)

theorem isSpaced_eq_true_iff {spaced : List Char} :
    isSpaced cs spaced = true ↔ IsSpaced cs spaced := by
  constructor
  · intro h
    induction spaced generalizing cs with
    | nil =>
        rw [isSpaced, List.isEmpty_iff] at h
        exact h ▸ IsSpaced.nil
    | cons c spaced ih =>
        rw [isSpaced, Bool.or_eq_true, Bool.and_eq_true, Bool.and_eq_true, beq_iff_eq] at h
        rcases h with ⟨hc, h⟩ | ⟨hhead, h⟩
        · exact .blank hc (ih h)
        · rw [← List.cons_head?_tail hhead]
          exact .char c (ih h)
  · intro h
    induction h with
    | nil => rfl
    | blank hc h ih => rw [isSpaced, hc, ih, Bool.true_and, Bool.true_or]
    | char c h ih => simp [isSpaced, ih]

instance (cs spaced : List Char) : Decidable (IsSpaced cs spaced) :=
  decidable_of_iff _ isSpaced_eq_true_iff

/-- What is left of a text without its blanks. -/
def inked (cs : List Char) : List Char :=
  cs.filter (!isBlank ·)

theorem IsSpaced.inked_eq {spaced : List Char} (h : IsSpaced cs spaced) :
    inked spaced = inked cs := by
  induction h with
  | nil => rfl
  | blank hc h ih => rw [← ih, inked, List.filter_cons_of_neg (by simp [hc]), inked]
  | char c h ih =>
      unfold inked at ih ⊢
      rw [List.filter_cons, List.filter_cons, ih]

theorem inked_append (a b : List Char) : inked (a ++ b) = inked a ++ inked b :=
  List.filter_append a b

theorem inked_eq_self (hcs : ∀ c ∈ cs, isBlank c = false) : inked cs = cs :=
  List.filter_eq_self.2 fun c hc => by rw [hcs c hc]; rfl

/-! ## From the text to the name -/

theorem afterReceiver_append (hc : isClosing c = true) (hmore : ∀ d ∈ more, isClosing d = false)
    (before : List Char) : afterReceiver (before ++ c :: more) = more := by
  have hreverse : (before ++ c :: more).reverse = more.reverse ++ c :: before.reverse := by simp
  have hall : ∀ d ∈ more.reverse, (!isClosing d) = true := by
    intro d hd
    rw [hmore d (List.mem_reverse.1 hd), Bool.not_false]
  rw [afterReceiver, hreverse, List.takeWhile_append_of_pos hall,
    List.takeWhile_cons_of_neg (by simp [hc]), List.append_nil, List.reverse_reverse]

theorem afterReceiver_eq_self (hcs : ∀ c ∈ cs, isClosing c = false) : afterReceiver cs = cs := by
  have hall : cs.reverse.takeWhile (fun c => !isClosing c) = cs.reverse :=
    List.takeWhile_eq_self_iff.2 fun c hc => by rw [hcs c (List.mem_reverse.1 hc)]; rfl
  rw [afterReceiver, hall, List.reverse_reverse]

/-- A text is kept if it holds no character with which a separator of two characters starts. -/
theorem dotted_append (hcolon : ':' ∉ a) (hdash : '-' ∉ a) (hquestion : '?' ∉ a)
    (more : List Char) : dotted (a ++ more) = a ++ dotted more := by
  unfold dotted
  rw [replaceAll_append hcolon, replaceAll_append hdash, replaceAll_append hquestion]

theorem dotted_separator (s : Separator) (more : List Char) :
    dotted (s.text ++ more) = '.' :: dotted more := by
  have hdot : ∀ {x : Char} (w cs : List Char), x ∉ ['.'] →
      replaceAll (x :: w) ['.'] ('.' :: cs) = '.' :: replaceAll (x :: w) ['.'] cs :=
    fun w cs hx => replaceAll_append hx w ['.'] cs
  unfold dotted
  cases s with
  | dot => rw [Separator.text, List.singleton_append, hdot _ _ (by decide), hdot _ _ (by decide),
      hdot _ _ (by decide)]
  | colons => rw [Separator.text, replaceAll_occurrence, List.singleton_append,
      hdot _ _ (by decide), hdot _ _ (by decide)]
  | arrow => rw [Separator.text, replaceAll_append (by decide), replaceAll_occurrence,
      List.singleton_append, hdot _ _ (by decide)]
  | optional => rw [Separator.text, replaceAll_append (by decide), replaceAll_append (by decide),
      replaceAll_occurrence, List.singleton_append]

theorem dotted_segment (s : Segment) (more : List Char) :
    dotted (s.text ++ more) = s.text ++ dotted more :=
  dotted_append (s.not_mem (by decide)) (s.not_mem (by decide)) (s.not_mem (by decide)) more

theorem dotted_chain (e : Callee) (more : List Char) :
    dotted (e.chain ++ more) = dots e.segments ++ dotted more := by
  have hrest : ∀ rest : List (Separator × Segment),
      dotted ((rest.flatMap fun (separator, s) => separator.text ++ s.text) ++ more) =
        ((rest.map Prod.snd).flatMap fun t => '.' :: t.text) ++ dotted more := by
    intro rest
    induction rest with
    | nil => rfl
    | cons p rest ih =>
        rw [List.flatMap_cons, List.append_assoc, List.append_assoc, dotted_separator,
          dotted_segment, ih]
        simp
  rw [Callee.chain, Callee.segments, dots_cons, List.append_assoc, dotted_segment, hrest,
    List.append_assoc]

theorem beforeGenerics_append (ha : '<' ∉ a) (more : List Char) :
    beforeGenerics (a ++ '<' :: more) = a := by
  have hall : ∀ c ∈ a, (c != '<') = true := by
    intro c hc
    rw [bne_iff_ne]
    rintro rfl
    exact ha hc
  rw [beforeGenerics, List.takeWhile_append_of_pos hall, List.takeWhile_cons_of_neg (by simp),
    List.append_nil]

theorem beforeGenerics_eq_self (hcs : '<' ∉ cs) : beforeGenerics cs = cs := by
  refine List.takeWhile_eq_self_iff.2 fun c hc => ?_
  rw [bne_iff_ne]
  rintro rfl
  exact hcs hc

theorem isBlank_of_isClosing (hc : isClosing c = true) : isBlank c = false := by
  unfold isClosing at hc
  rw [Bool.or_eq_true, beq_iff_eq, beq_iff_eq] at hc
  rcases hc with rfl | rfl <;> decide

theorem Separator.isBlank_of_mem {s : Separator} (hc : c ∈ s.text) : isBlank c = false := by
  have hall : s.text.all (!isBlank ·) = true := by cases s <;> decide
  simpa using List.all_eq_true.1 hall c hc

theorem Separator.isClosing_of_mem {s : Separator} (hc : c ∈ s.text) : isClosing c = false := by
  have hall : s.text.all (!isClosing ·) = true := by cases s <;> decide
  simpa using List.all_eq_true.1 hall c hc

theorem isClosing_of_isSegmentChar (hc : isSegmentChar c = true) : isClosing c = false := by
  unfold isClosing
  rw [beq_eq_false_iff_ne.2 (ne_of_isSegmentChar hc (by decide)),
    beq_eq_false_iff_ne.2 (ne_of_isSegmentChar hc (by decide)), Bool.or_false]

theorem Generics.isClosing_of_mem {g : Option Generics} (hc : c ∈ g.elim [] Generics.text) :
    isClosing c = false := by
  cases g with
  | none => cases hc
  | some g =>
      rw [Option.elim_some, text, List.mem_append, List.mem_cons, List.mem_append] at hc
      rcases hc with hc | rfl | hc | hc
      · split at hc
        · exact Separator.isClosing_of_mem hc
        · cases hc
      · decide
      · simpa using List.all_eq_true.1 g.plain c hc
      · rw [List.mem_singleton.1 hc]
        decide

/-- The characters of a chain are those of its segments and its separators. -/
theorem Callee.of_mem_chain {p : Char → Prop} (e : Callee)
    (hsegment : ∀ c, isSegmentChar c = true → p c)
    (hseparator : ∀ (s : Separator), ∀ c ∈ s.text, p c) : ∀ c ∈ e.chain, p c := by
  intro c hc
  rw [chain, List.mem_append, List.mem_flatMap] at hc
  rcases hc with hc | ⟨⟨separator, s⟩, -, hc⟩
  · exact hsegment c (e.first.chars c hc)
  · rcases List.mem_append.1 hc with hc | hc
    · exact hseparator separator c hc
    · exact hsegment c (s.chars c hc)

theorem inked_chain (e : Callee) : inked e.chain = e.chain :=
  inked_eq_self <| e.of_mem_chain (fun _ => isBlank_of_isSegmentChar)
    fun _ _ => Separator.isBlank_of_mem

/-- A receiver leaves a dot. -/
theorem dotted_receiver (r : Option Receiver) (hmore : ∀ c ∈ more, isClosing c = false) :
    ∃ lead, (∀ c ∈ lead, (c == '.') = true) ∧
      dotted (afterReceiver (inked (r.elim [] Receiver.text) ++ more)) = lead ++ dotted more := by
  cases r with
  | none =>
      refine ⟨[], by simp, ?_⟩
      rw [Option.elim_none, inked, List.filter_nil, List.nil_append, List.nil_append,
        afterReceiver_eq_self hmore]
  | some r =>
      refine ⟨['.'], by simp, ?_⟩
      have hinked : inked (r.bracket :: r.separator.text) = r.bracket :: r.separator.text := by
        refine inked_eq_self (List.forall_mem_cons.2 ⟨isBlank_of_isClosing r.closes, ?_⟩)
        exact fun c => Separator.isBlank_of_mem
      have hrest : ∀ c ∈ r.separator.text ++ more, isClosing c = false :=
        List.forall_mem_append.2 ⟨fun c => Separator.isClosing_of_mem, hmore⟩
      rw [Option.elim_some, Receiver.text, inked_append, hinked, List.append_assoc,
        List.cons_append, afterReceiver_append r.closes hrest, dotted_separator,
        List.singleton_append]

/-- Of generic arguments a dot is left, or nothing. -/
theorem beforeGenerics_generics (g : Option Generics) {front : List Char} (hfront : '<' ∉ front) :
    ∃ trail, (∀ c ∈ trail, (c == '.') = true) ∧
      beforeGenerics (front ++ dotted (inked (g.elim [] Generics.text))) = front ++ trail := by
  have hangle : ∀ inside : List Char,
      dotted (inked ('<' :: inside)) = '<' :: dotted (inked inside) := by
    intro inside
    have hinked : inked ('<' :: inside) = ['<'] ++ inked inside := inked_append ['<'] inside
    rw [hinked, dotted_append (by decide) (by decide) (by decide), List.singleton_append]
  cases g with
  | none =>
      refine ⟨[], by simp, ?_⟩
      have hnone : dotted (inked []) = [] := rfl
      rw [Option.elim_none, hnone, List.append_nil, beforeGenerics_eq_self hfront]
  | some g =>
      rw [Option.elim_some, Generics.text]
      cases g.qualified with
      | false =>
          refine ⟨[], by simp, ?_⟩
          rw [if_neg Bool.false_ne_true, List.nil_append, hangle, beforeGenerics_append hfront,
            List.append_nil]
      | true =>
          refine ⟨['.'], by simp, ?_⟩
          have hcolons : inked Separator.colons.text = Separator.colons.text := by decide
          have hdot : '<' ∉ front ++ ['.'] := by simp [hfront]
          rw [if_pos rfl, inked_append, hcolons, dotted_separator, hangle,
            List.append_cons, beforeGenerics_append hdot]

/-! ## Names -/

theorem of_mem_dots {p : Char → Prop} {segments : List Segment} (hdot : p '.')
    (hsegment : ∀ c, isSegmentChar c = true → p c) : ∀ c ∈ dots segments, p c := by
  intro c hc
  rcases mem_or_mem_of_mem_intercalate hc with hseparator | ⟨text, htext, hc⟩
  · exact List.mem_singleton.1 hseparator ▸ hdot
  · obtain ⟨s, -, rfl⟩ := List.mem_map.1 htext
    exact hsegment c (s.chars c hc)

theorem not_mem_dots {d : Char} (segments : List Segment) (hdot : d ≠ '.')
    (hd : isSegmentChar d = false) : d ∉ dots segments :=
  fun hmem => of_mem_dots (p := fun c => c ≠ d) hdot.symm (fun _ hc => ne_of_isSegmentChar hc hd)
    d hmem rfl

theorem dots_ne_nil (s : Segment) (segments : List Segment) : dots (s :: segments) ≠ [] := by
  rw [dots_cons]
  exact List.append_ne_nil_of_left_ne_nil s.ne_nil _

theorem dots_cons_cons (s t : Segment) (segments : List Segment) :
    dots (s :: t :: segments) = s.text ++ '.' :: dots (t :: segments) := by
  rw [dots_cons, dots_cons, List.flatMap_cons, List.cons_append]

theorem head?_dots (s : Segment) (segments : List Segment) :
    (dots (s :: segments)).head? = s.text.head? := by
  rw [dots_cons, List.head?_append_of_ne_nil _ s.ne_nil]

theorem getLast?_dots (segments : List Segment) (hc : (dots segments).getLast? = some c) :
    isSegmentChar c = true := by
  induction segments with
  | nil => cases hc
  | cons s segments ih =>
      cases segments with
      | nil =>
          rw [dots_cons, List.flatMap_nil, List.append_nil] at hc
          exact s.chars c (List.mem_of_getLast? hc)
      | cons t segments =>
          rw [dots_cons_cons, List.getLast?_append_of_ne_nil _ (List.cons_ne_nil _ _),
            List.getLast?_cons_of_ne_nil (dots_ne_nil t segments)] at hc
          exact ih hc

theorem infix_of_append (ha : '.' ∉ a) (h : ['.', '.'] <:+: a ++ cs) : ['.', '.'] <:+: cs := by
  induction a with
  | nil => exact h
  | cons c a ih =>
      rw [List.mem_cons, not_or] at ha
      rw [List.cons_append, List.infix_cons_iff, List.cons_prefix_cons] at h
      rcases h with ⟨hc, -⟩ | h
      · exact absurd hc ha.1
      · exact ih ha.2 h

/-- Between segments there are single dots. -/
theorem not_infix_dots (segments : List Segment) : ¬['.', '.'] <:+: dots segments := by
  induction segments with
  | nil => decide
  | cons s segments ih =>
      intro h
      have hs : '.' ∉ s.text := s.not_mem (by decide)
      cases segments with
      | nil =>
          rw [dots_cons, List.flatMap_nil] at h
          exact absurd (infix_of_append hs h) (by decide)
      | cons t segments =>
          rw [dots_cons_cons] at h
          rcases List.infix_cons_iff.1 (infix_of_append hs h) with hprefix | hrest
          · obtain ⟨-, rest, hrest⟩ := List.cons_prefix_cons.1 hprefix
            have hhead := head?_dots t segments
            rw [← hrest] at hhead
            exact t.not_mem (by decide) (List.mem_of_mem_head? hhead.symm)
          · exact ih hrest

theorem isDottedName_dots {s : Segment} {segments : List Segment}
    (hstarts : s.text.head?.any Char.isDigit = false) :
    isDottedName (dots (s :: segments)) = true := by
  have hnames : ∀ c ∈ dots (s :: segments), isNameChar c = true :=
    of_mem_dots (by decide) fun c hc => by rw [isNameChar_eq, hc, Bool.true_or]
  have hpart : hasPart ['.', '.'] (dots (s :: segments)) = false := by
    rw [← Bool.not_eq_true, hasPart_eq_true_iff]
    exact not_infix_dots _
  have hdigit : (dots (s :: segments)).head?.any Char.isDigit = false := by
    rw [head?_dots, hstarts]
  unfold isDottedName
  rw [hpart, hdigit, List.all_eq_true.2 hnames,
    List.isEmpty_eq_false_iff.2 (dots_ne_nil s segments)]
  rfl

/-- What is left of a callee's text is its segments with dots between them. -/
theorem candidate_of_isSpaced (e : Callee) {spaced : List Char} (h : IsSpaced e.text spaced) :
    candidate spaced = dots e.segments := by
  have hplain : ∀ c ∈ inked (e.generics.elim [] Generics.text), isClosing c = false :=
    fun c hc => Generics.isClosing_of_mem (List.mem_of_mem_filter hc)
  have hchain : ∀ c ∈ e.chain, isClosing c = false :=
    e.of_mem_chain (fun _ => isClosing_of_isSegmentChar) fun _ _ => Separator.isClosing_of_mem
  obtain ⟨lead, hlead, hreceiver⟩ :=
    dotted_receiver e.receiver (List.forall_mem_append.2 ⟨hchain, hplain⟩)
  have hangle : '<' ∉ lead ++ dots e.segments := by
    rw [List.mem_append, not_or]
    exact ⟨fun hmem => absurd (hlead _ hmem) (by decide), not_mem_dots _ (by decide) (by decide)⟩
  obtain ⟨trail, htrail, hgenerics⟩ := beforeGenerics_generics e.generics hangle
  have hbefore : beforeGenerics (dotted (afterReceiver (inked spaced))) =
      lead ++ dots e.segments ++ trail := by
    rw [h.inked_eq, Callee.text, inked_append, inked_append, inked_chain, List.append_assoc,
      hreceiver, dotted_chain, ← List.append_assoc, hgenerics]
  -- a dot that a receiver or the colons of the arguments leave stands at an end, and is dropped
  change dropAround (· == '.') (beforeGenerics (dotted (afterReceiver (inked spaced)))) = _
  rw [hbefore]
  refine dropAround_append hlead (fun c hc => ?_) (fun c hc => ?_) htrail
  · rw [Callee.segments, head?_dots] at hc
    exact beq_eq_false_iff_ne.2
      (ne_of_isSegmentChar (e.first.chars c (List.mem_of_mem_head? hc)) (by decide))
  · exact beq_eq_false_iff_ne.2 (ne_of_isSegmentChar (getLast?_dots _ hc) (by decide))

theorem ofText?_eq_ite (cs : List Char) :
    ofText? cs =
      if isDottedName (candidate cs) = true ∧ String.ofList (candidate cs) ∉ receivers ++ builtins
      then some (candidate cs) else none := by
  simp only [ofText?, Bool.or_eq_true, Bool.not_eq_true', List.contains_iff_mem, List.mem_append]
  cases isDottedName (candidate cs) <;> grind

/-- The name of a callee, wherever blanks are put into its text. -/
theorem ofText?_of_isSpaced (e : Callee) {spaced : List Char} (h : IsSpaced e.text spaced) :
    ofText? spaced =
      if e.name ∈ receivers ++ builtins then none else some (dots e.segments) := by
  have hname : isDottedName (dots e.segments) = true := isDottedName_dots e.starts
  rw [ofText?_eq_ite, candidate_of_isSpaced e h, ← Callee.name]
  by_cases hword : e.name ∈ receivers ++ builtins
  · rw [if_neg (fun hvalid => hvalid.2 hword), if_pos hword]
  · rw [if_pos ⟨hname, hword⟩, if_neg hword]

end CallName

open CallName

/-- A callee is named by its segments with dots between them, unless that is a word of its own. -/
theorem callName?_callee (e : Callee) {s : String} (h : IsSpaced e.text s.toList) :
    callName? s = if e.name ∈ receivers ++ builtins then none else some e.name := by
  rw [callName?, ofText?_of_isSpaced e h]
  split <;> rfl

/-- A receiver, three kinds of separators, generic arguments, and blanks inside of all of them. -/
theorem callName?_callee_spaced :
    let e : Callee :=
      { receiver := some ⟨"all(x)[0".toList, ']', by decide, .optional⟩
        first := ⟨"Repo".toList, by decide, by decide⟩
        rest := [(.colons, ⟨"find_1".toList, by decide, by decide⟩),
          (.arrow, ⟨"$9".toList, by decide, by decide⟩)]
        generics := some ⟨true, "Vec<u8>, ->".toList, by decide⟩
        starts := by decide }
    let s := "all(x)[ 0 ]\n  ? . Re po: :find_1 ->$9::<Vec<u8>, - >>"
    IsSpaced e.text s.toList ∧ e.name ∉ receivers ++ builtins ∧
      callName? s = some "Repo.find_1.$9" := by
  intro e s
  have hspaced : IsSpaced e.text s.toList := by decide
  have hword : e.name ∉ receivers ++ builtins := by decide
  have hname := callName?_callee e hspaced
  rw [if_neg hword] at hname
  exact ⟨hspaced, hword, hname⟩

end CodeIndex

import CodeIndex.Proofs.Relation.Chains
/-!
# The pattern of calls

Calls in plain text are described by a regular expression: a chain of identifiers, blanks, and an
opening parenthesis, with the chain as its group. The search for it tries every place of the text,
prefers the longer repetitions, and goes on behind what it has found. It finds the chains before the
parentheses, and so do the scanner and the search agree, although the scanner passes over a chain at
once where the search tries each of its characters.
-/

namespace CodeIndex.CallName

open Text

variable {c : Char} {cs : List Char} {x : Option (List Char)}

/-! ## Regular expressions -/

/-- Regular expressions, as far as the one for calls needs them. -/
inductive Pattern where
  /-- One character that lies in one of the ranges or is one of the others. -/
  | chars (ranges : List (Char × Char)) (others : List Char)
  | blank
  | text (cs : List Char)
  | seq (p q : Pattern)
  | alt (p q : Pattern)
  /-- Any number of times, and more rather than fewer. -/
  | many (p : Pattern)
  | group (p : Pattern)

/-- What a pattern matches at the beginning of a text, what its group stands for, and what is left
of the text. -/
structure Match where
  matched : List Char
  captured : Option (List Char)
  rest : List Char

def Match.followedBy (m n : Match) : Match where
  matched := m.matched ++ n.matched
  captured := n.captured.or m.captured
  rest := n.rest

namespace Pattern

def inClass (ranges : List (Char × Char)) (others : List Char) (c : Char) : Bool :=
  ranges.any (fun r => r.1 ≤ c && c ≤ r.2) || others.contains c

def oneChar (holds : Char → Bool) : List Char → List Match
  | [] => []
  | c :: cs => if holds c then [⟨[c], none, cs⟩] else []

/-- Up to `n` matches one behind the other, each of them of at least one character. -/
def repeated (ways : List Char → List Match) : Nat → List Char → List Match
  | 0, cs => [⟨[], none, cs⟩]
  | n + 1, cs =>
    ((ways cs).filter (!·.matched.isEmpty)).flatMap
      (fun m => (repeated ways n m.rest).map m.followedBy) ++ [⟨[], none, cs⟩]

/-- All matches at the beginning of a text, the preferred one first. -/
def ways : Pattern → List Char → List Match
  | chars ranges others, cs => oneChar (inClass ranges others) cs
  | blank, cs => oneChar isBlank cs
  | text t, cs => if t.isPrefixOf cs then [⟨t, none, cs.drop t.length⟩] else []
  | seq p q, cs => (p.ways cs).flatMap fun m => (q.ways m.rest).map m.followedBy
  | alt p q, cs => p.ways cs ++ q.ways cs
  | many p, cs => repeated p.ways cs.length cs
  | group p, cs => (p.ways cs).map fun m => { m with captured := some m.matched }

/-- The matches in a text from left to right: at each place the preferred one, and behind it the
search goes on. -/
def search (p : Pattern) : List Char → List Match
  | [] => []
  | c :: cs =>
    match p.ways (c :: cs) with
    | [] => search p cs
    | m :: _ => m :: search p (cs.drop (m.matched.length - 1))
termination_by cs => cs.length
decreasing_by
  all_goals simp only [List.length_drop, List.length_cons]; omega

/-- What the group stands for in each of the matches. -/
def captures (p : Pattern) (cs : List Char) : List (List Char) :=
  (p.search cs).filterMap (·.captured)

/-! ## What a pattern matches -/

def OneOf (holds : Char → Bool) (cs : List Char) (x : Option (List Char)) : Prop :=
  (∃ c, cs = [c] ∧ holds c = true) ∧ x = none

/-- One text behind another: the later group counts. -/
def Joined (first second : List Char → Option (List Char) → Prop) (cs : List Char)
    (x : Option (List Char)) : Prop :=
  ∃ a b y z, cs = a ++ b ∧ x = z.or y ∧ first a y ∧ second b z

inductive Repeats (holds : List Char → Option (List Char) → Prop) :
    List Char → Option (List Char) → Prop where
  | nil : Repeats holds [] none
  | more {a b : List Char} {x y : Option (List Char)} (ha : a ≠ []) (h : holds a x)
      (hb : Repeats holds b y) : Repeats holds (a ++ b) (y.or x)

/-- A pattern matches a text as a whole, with what its group stands for. -/
def Matches : Pattern → List Char → Option (List Char) → Prop
  | chars ranges others, cs, x => OneOf (inClass ranges others) cs x
  | blank, cs, x => OneOf isBlank cs x
  | text t, cs, x => cs = t ∧ x = none
  | seq p q, cs, x => Joined p.Matches q.Matches cs x
  | alt p q, cs, x => p.Matches cs x ∨ q.Matches cs x
  | many p, cs, x => Repeats p.Matches cs x
  | group p, cs, x => (∃ y, p.Matches cs y) ∧ x = some cs

variable {holds other : List Char → Option (List Char) → Prop}

theorem repeats_iff : Repeats holds cs x ↔
    Joined (fun a y => holds a y ∧ a ≠ []) (Repeats holds) cs x ∨ cs = [] ∧ x = none := by
  constructor
  · intro h
    cases h with
    | nil => exact .inr ⟨rfl, rfl⟩
    | more ha h hb => exact .inl ⟨_, _, _, _, rfl, rfl, ⟨h, ha⟩, hb⟩
  · rintro (⟨a, b, y, z, rfl, rfl, ⟨h, ha⟩, hb⟩ | ⟨rfl, rfl⟩)
    · exact .more ha h hb
    · exact .nil

theorem repeats_nil_iff : Repeats holds [] x ↔ x = none := by
  rw [repeats_iff]
  constructor
  · rintro (⟨a, b, y, z, hnil, -, ⟨-, ha⟩, -⟩ | ⟨-, rfl⟩)
    · exact absurd (List.append_eq_nil_iff.1 hnil.symm).1 ha
    · rfl
  · rintro rfl
    exact .inr ⟨rfl, rfl⟩

theorem repeats_oneOf_iff {holds : Char → Bool} :
    Repeats (OneOf holds) cs x ↔ (∀ c ∈ cs, holds c = true) ∧ x = none := by
  constructor
  · intro h
    induction h with
    | nil => exact ⟨List.forall_mem_nil _, rfl⟩
    | more ha h hb ih =>
        obtain ⟨⟨c, rfl, hc⟩, rfl⟩ := h
        exact ⟨List.forall_mem_cons.2 ⟨hc, ih.1⟩, by rw [ih.2]; rfl⟩
  · rintro ⟨h, rfl⟩
    induction cs with
    | nil => exact .nil
    | cons c cs ih =>
        rw [List.forall_mem_cons] at h
        exact .more (List.cons_ne_nil c []) ⟨⟨c, rfl, h.1⟩, rfl⟩ (ih h.2)

/-! ## All ways to match -/

/-- A list has everything of a kind that the beginning of a text matches. -/
def AreWays (holds : List Char → Option (List Char) → Prop) (cs : List Char) (ways : List Match) :
    Prop :=
  ∀ m, m ∈ ways ↔ holds m.matched m.captured ∧ cs = m.matched ++ m.rest

theorem areWays_oneChar (holds : Char → Bool) (cs : List Char) :
    AreWays (OneOf holds) cs (oneChar holds cs) := by
  rintro ⟨matched, captured, rest⟩
  constructor
  · intro hm
    cases cs with
    | nil => cases hm
    | cons c cs =>
        simp only [oneChar, List.mem_ite_nil_right, List.mem_singleton, Match.mk.injEq] at hm
        obtain ⟨hc, rfl, rfl, rfl⟩ := hm
        exact ⟨⟨⟨c, rfl, hc⟩, rfl⟩, rfl⟩
  · rintro ⟨⟨⟨c, rfl, hc⟩, rfl⟩, rfl⟩
    simp [oneChar, hc]

theorem areWays_text (t cs : List Char) :
    AreWays (fun a x => a = t ∧ x = none) cs
      (if t.isPrefixOf cs then [⟨t, none, cs.drop t.length⟩] else []) := by
  rintro ⟨matched, captured, rest⟩
  rw [List.mem_ite_nil_right, List.mem_singleton, List.isPrefixOf_iff_prefix, Match.mk.injEq]
  constructor
  · rintro ⟨⟨rest, rfl⟩, rfl, rfl, rfl⟩
    exact ⟨⟨rfl, rfl⟩, by rw [List.drop_left]⟩
  · rintro ⟨⟨rfl, rfl⟩, rfl⟩
    exact ⟨List.prefix_append _ _, rfl, rfl, by rw [List.drop_left]⟩

namespace AreWays

variable {ways others : List Match}

theorem joined {seconds : List Char → List Match} (h : AreWays holds cs ways)
    (ho : ∀ m ∈ ways, AreWays other m.rest (seconds m.rest)) :
    AreWays (Joined holds other) cs (ways.flatMap fun m => (seconds m.rest).map m.followedBy) := by
  rintro ⟨matched, captured, rest⟩
  simp only [List.mem_flatMap, List.mem_map]
  constructor
  · rintro ⟨m, hm, n, hn, heq⟩
    obtain ⟨hfirst, rfl⟩ := (h m).1 hm
    obtain ⟨hsecond, hrest⟩ := (ho m hm n).1 hn
    cases heq
    exact ⟨⟨_, _, _, _, rfl, rfl, hfirst, hsecond⟩, by rw [hrest, List.append_assoc]⟩
  · rintro ⟨⟨a, b, y, z, rfl, rfl, hfirst, hsecond⟩, rfl⟩
    have hm := (h ⟨a, y, b ++ rest⟩).2 ⟨hfirst, List.append_assoc a b rest⟩
    exact ⟨_, hm, ⟨b, z, rest⟩, (ho _ hm _).2 ⟨hsecond, rfl⟩, rfl⟩

theorem append (h : AreWays holds cs ways) (ho : AreWays other cs others) :
    AreWays (fun a x => holds a x ∨ other a x) cs (ways ++ others) := by
  intro m
  rw [List.mem_append, h m, ho m, or_and_right]

theorem nonempty (h : AreWays holds cs ways) :
    AreWays (fun a x => holds a x ∧ a ≠ []) cs (ways.filter (!·.matched.isEmpty)) := by
  intro m
  rw [List.mem_filter, h m, Bool.not_eq_true', List.isEmpty_eq_false_iff, and_right_comm]

theorem group (h : AreWays holds cs ways) :
    AreWays (fun a x => (∃ y, holds a y) ∧ x = some a) cs
      (ways.map fun m => { m with captured := some m.matched }) := by
  intro m
  rw [List.mem_map]
  constructor
  · rintro ⟨m, hm, rfl⟩
    obtain ⟨hmatches, hcs⟩ := (h m).1 hm
    exact ⟨⟨⟨_, hmatches⟩, rfl⟩, hcs⟩
  · rintro ⟨⟨⟨y, hmatches⟩, hcaptured⟩, hcs⟩
    exact ⟨{ m with captured := y }, (h _).2 ⟨hmatches, hcs⟩, by simp only [← hcaptured]⟩

end AreWays

theorem areWays_repeated {ways : List Char → List Match} (h : ∀ cs, AreWays holds cs (ways cs))
    {n : Nat} (hn : cs.length ≤ n) : AreWays (Repeats holds) cs (repeated ways n cs) := by
  have hnone : ∀ cs, AreWays (fun a x => a = [] ∧ x = none) cs [⟨[], none, cs⟩] :=
    fun cs => areWays_text [] cs
  have hrepeats : Repeats holds =
      fun a x => Joined (fun a y => holds a y ∧ a ≠ []) (Repeats holds) a x ∨ a = [] ∧ x = none :=
    funext₂ fun _ _ => propext repeats_iff
  induction n generalizing cs with
  | zero =>
      obtain rfl := List.length_eq_zero_iff.1 (Nat.le_zero.1 hn)
      intro m
      refine (hnone [] m).trans (and_congr_left fun hm => ?_)
      rw [(List.append_eq_nil_iff.1 hm.symm).1, repeats_nil_iff]
      exact and_iff_right rfl
  | succ n ih =>
      rw [hrepeats]
      refine ((h cs).nonempty.joined fun m hm => ih ?_).append (hnone cs)
      -- a repetition takes at least one character away
      obtain ⟨⟨-, hne⟩, rfl⟩ := ((h cs).nonempty m).1 hm
      have hpos := List.length_pos_iff.2 hne
      rw [List.length_append] at hn
      omega

theorem areWays_ways (p : Pattern) (cs : List Char) : AreWays p.Matches cs (p.ways cs) := by
  induction p generalizing cs with
  | chars ranges others => exact areWays_oneChar (inClass ranges others) cs
  | blank => exact areWays_oneChar isBlank cs
  | text t => exact areWays_text t cs
  | seq p q hp hq => exact (hp cs).joined fun m _ => hq m.rest
  | alt p q hp hq => exact (hp cs).append (hq cs)
  | many p hp => exact areWays_repeated hp (Nat.le_refl _)
  | group p hp => exact (hp cs).group

theorem search_of_ways {p : Pattern} {m : Match} {more : List Match} (hm : m.matched ≠ [])
    (h : p.ways (m.matched ++ m.rest) = m :: more) :
    p.search (m.matched ++ m.rest) = m :: p.search m.rest := by
  obtain ⟨matched, captured, rest⟩ := m
  obtain ⟨c, cs, rfl⟩ := List.exists_cons_of_ne_nil hm
  rw [List.cons_append] at h ⊢
  rw [search, h]
  simp

end Pattern

/-! ## The pattern of a call -/

open Pattern

def identifierPattern : Pattern :=
  seq (chars [('A', 'Z'), ('a', 'z')] ['_', '$'])
    (many (chars [('A', 'Z'), ('a', 'z'), ('0', '9')] ['_', '$']))

def linkPattern : Pattern :=
  seq (alt (text ['.']) (alt (text [':', ':']) (text ['-', '>']))) identifierPattern

/-- A chain of identifiers as the group, blanks, and an opening parenthesis. -/
def callPattern : Pattern :=
  seq (group (seq identifierPattern (many linkPattern))) (seq (many blank) (text ['(']))

theorem inClass_start (c : Char) :
    inClass [('A', 'Z'), ('a', 'z')] ['_', '$'] c = startsIdentifier c := by
  unfold startsIdentifier Char.isAlpha Char.isUpper Char.isLower
  simp [inClass, Char.le_def, Bool.or_assoc, beq_eq_decide]

theorem inClass_char (c : Char) :
    inClass [('A', 'Z'), ('a', 'z'), ('0', '9')] ['_', '$'] c = isIdentifierChar c := by
  unfold isIdentifierChar Char.isAlphanum Char.isAlpha Char.isUpper Char.isLower Char.isDigit
  simp [inClass, Char.le_def, Bool.or_assoc, beq_eq_decide]

theorem matches_identifier_iff : identifierPattern.Matches cs x ↔ IsIdentifier cs ∧ x = none := by
  constructor
  · rintro ⟨_, b, _, z, rfl, rfl, ⟨⟨c, rfl, hc⟩, rfl⟩, hb⟩
    obtain ⟨hmore, rfl⟩ := repeats_oneOf_iff.1 hb
    rw [inClass_start] at hc
    simp only [inClass_char] at hmore
    exact ⟨.intro hc hmore, rfl⟩
  · rintro ⟨⟨hc, hmore⟩, rfl⟩
    rw [← inClass_start] at hc
    simp only [← inClass_char] at hmore
    exact ⟨[_], _, none, none, rfl, rfl, ⟨⟨_, rfl, hc⟩, rfl⟩, repeats_oneOf_iff.2 ⟨hmore, rfl⟩⟩

theorem matches_link_iff : linkPattern.Matches cs x ↔
    (∃ s name, s ≠ Separator.optional ∧ IsIdentifier name ∧ cs = s.text ++ name) ∧ x = none := by
  constructor
  · rintro ⟨_, name, _, _, rfl, rfl, hs, hname⟩
    obtain ⟨hidentifier, rfl⟩ := matches_identifier_iff.1 hname
    rcases hs with ⟨rfl, rfl⟩ | ⟨rfl, rfl⟩ | ⟨rfl, rfl⟩
    · exact ⟨⟨.dot, name, by decide, hidentifier, rfl⟩, rfl⟩
    · exact ⟨⟨.colons, name, by decide, hidentifier, rfl⟩, rfl⟩
    · exact ⟨⟨.arrow, name, by decide, hidentifier, rfl⟩, rfl⟩
  · rintro ⟨⟨s, name, hs, hname, rfl⟩, rfl⟩
    refine ⟨s.text, name, none, none, rfl, rfl, ?_, matches_identifier_iff.2 ⟨hname, rfl⟩⟩
    cases s with
    | dot => exact .inl ⟨rfl, rfl⟩
    | colons => exact .inr (.inl ⟨rfl, rfl⟩)
    | arrow => exact .inr (.inr ⟨rfl, rfl⟩)
    | optional => exact absurd rfl hs

theorem isChain_of_links {name : List Char} (hname : IsIdentifier name)
    (h : Repeats linkPattern.Matches cs x) : IsChain (name ++ cs) ∧ x = none := by
  induction h generalizing name with
  | nil =>
      rw [List.append_nil]
      exact ⟨.identifier hname, rfl⟩
  | @more _ b _ _ _ hlink _ ih =>
      obtain ⟨⟨s, next, hs, hnext, rfl⟩, rfl⟩ := matches_link_iff.1 hlink
      obtain ⟨hchain, rfl⟩ := ih hnext
      have hjoined := IsChain.join hname hs hchain
      rw [List.append_assoc, ← List.append_assoc s.text] at hjoined
      exact ⟨hjoined, rfl⟩

theorem matches_chain_iff : (seq identifierPattern (many linkPattern)).Matches cs x ↔
    IsChain cs ∧ x = none := by
  constructor
  · rintro ⟨name, links, _, _, rfl, rfl, hname, hlinks⟩
    obtain ⟨hidentifier, rfl⟩ := matches_identifier_iff.1 hname
    obtain ⟨hchain, rfl⟩ := isChain_of_links hidentifier hlinks
    exact ⟨hchain, rfl⟩
  · rintro ⟨h, rfl⟩
    induction h with
    | @identifier name h =>
        exact ⟨name, [], none, none, (List.append_nil name).symm, rfl,
          matches_identifier_iff.2 ⟨h, rfl⟩, .nil⟩
    | @join name _ s h hs hcs ih =>
        obtain ⟨next, links, _, _, rfl, hnone, hnext, hlinks⟩ := ih
        obtain ⟨hidentifier, rfl⟩ := matches_identifier_iff.1 hnext
        obtain ⟨-, rfl⟩ := isChain_of_links hidentifier hlinks
        have hlink := matches_link_iff.2 ⟨⟨s, next, hs, hidentifier, rfl⟩, rfl⟩
        have hne : s.text ++ next ≠ [] := by
          cases hidentifier
          exact List.append_ne_nil_of_right_ne_nil _ (List.cons_ne_nil _ _)
        refine ⟨name, s.text ++ next ++ links, none, none, ?_, rfl,
          matches_identifier_iff.2 ⟨h, rfl⟩, .more hne hlink hlinks⟩
        simp only [List.append_assoc]

/-- What the pattern of a call matches. -/
theorem matches_call_iff : callPattern.Matches cs x ↔ ∃ chain blanks, IsChain chain ∧
    allBlank blanks = true ∧ cs = chain ++ (blanks ++ ['(']) ∧ x = some chain := by
  constructor
  · rintro ⟨chain, _, _, _, rfl, rfl, ⟨⟨_, hchain⟩, rfl⟩, blanks, _, _, _, rfl, rfl, hb, rfl, rfl⟩
    obtain ⟨hblanks, rfl⟩ := repeats_oneOf_iff.1 hb
    exact ⟨chain, blanks, (matches_chain_iff.1 hchain).1, List.all_eq_true.2 hblanks, rfl, rfl⟩
  · rintro ⟨chain, blanks, hchain, hblanks, rfl, rfl⟩
    exact ⟨chain, _, some chain, none, rfl, rfl, ⟨⟨none, matches_chain_iff.2 ⟨hchain, rfl⟩⟩, rfl⟩,
      blanks, _, none, none, rfl, rfl, repeats_oneOf_iff.2 ⟨List.all_eq_true.1 hblanks, rfl⟩,
      rfl, rfl⟩

/-! ## The search for calls -/

theorem mem_ways_call {m : Match} : m ∈ callPattern.ways cs ↔ ∃ chain blanks, IsChain chain ∧
    allBlank blanks = true ∧ cs = chain ++ (blanks ++ '(' :: m.rest) ∧
    m.matched = chain ++ (blanks ++ ['(']) ∧ m.captured = some chain := by
  rw [areWays_ways callPattern cs m, matches_call_iff]
  constructor
  · rintro ⟨⟨chain, blanks, hchain, hblanks, hmatched, hcaptured⟩, rfl⟩
    exact ⟨chain, blanks, hchain, hblanks, by simp [hmatched], hmatched, hcaptured⟩
  · rintro ⟨chain, blanks, hchain, hblanks, rfl, hmatched, hcaptured⟩
    exact ⟨⟨chain, blanks, hchain, hblanks, hmatched, hcaptured⟩, by simp [hmatched]⟩

/-- Where the pattern does not match, no chain starts that a parenthesis follows. -/
theorem chainsBefore_of_ways_eq_nil (h : callPattern.ways (c :: cs) = []) :
    chainsBefore (c :: cs) = chainsBefore cs := by
  cases hc : startsIdentifier c with
  | false => exact chainsBefore_cons hc cs
  | true =>
      have hopen : '(' ∉ [c] := by
        intro hmem
        rw [← List.mem_singleton.1 hmem] at hc
        exact absurd hc (by decide)
      refine chainsBefore_append hopen fun b after hafter => ?_
      refine chainBefore?_append fun x chain blanks hne hx hchain hblanks heq => ?_
      obtain rfl : x = [c] := hx.sublist.eq_of_length_le (List.length_pos_iff.2 hne)
      have hcs : c :: cs = chain ++ (blanks ++ '(' :: after) := by
        rw [hafter, ← List.append_assoc, heq]
        rfl
      have hmem : ⟨chain ++ (blanks ++ ['(']), some chain, after⟩ ∈ callPattern.ways (c :: cs) :=
        mem_ways_call.2 ⟨chain, blanks, hchain, hblanks, hcs, rfl, rfl⟩
      rw [h] at hmem
      cases hmem

/-- The search finds the chains before the parentheses. -/
theorem captures_eq_chainsBefore (cs : List Char) :
    callPattern.captures cs = chainsBefore cs := by
  induction hlength : cs.length using Nat.strong_induction_on generalizing cs with
  | _ length ih =>
      subst hlength
      cases cs with
      | nil => simp [captures, search, chainsBefore, beforeParentheses]
      | cons c cs =>
          cases hways : callPattern.ways (c :: cs) with
          | nil =>
              rw [captures, search, hways, chainsBefore_of_ways_eq_nil hways]
              exact ih _ (Nat.lt_succ_self _) cs rfl
          | cons m more =>
              have hm : m ∈ callPattern.ways (c :: cs) := hways ▸ List.mem_cons_self
              obtain ⟨-, hsplit⟩ := (areWays_ways callPattern _ m).1 hm
              obtain ⟨chain, blanks, hchain, hblanks, hcs, hmatched, hcaptured⟩ :=
                mem_ways_call.1 hm
              have hpos : 0 < m.matched.length := by
                rw [hmatched, List.length_append, List.length_append, List.length_singleton]
                omega
              have hshorter : m.rest.length < (c :: cs).length := by
                rw [hsplit, List.length_append]
                omega
              have hsearch : callPattern.search (c :: cs) = m :: callPattern.search m.rest := by
                rw [hsplit] at hways ⊢
                exact search_of_ways (List.length_pos_iff.1 hpos) hways
              rw [captures, hsearch, List.filterMap_cons_some hcaptured, hcs,
                chainsBefore_call hchain hblanks, ← ih _ hshorter m.rest rfl]
              rfl

/-- The scanner and the search for the pattern find the same chains. -/
theorem chainsFrom_eq_captures (cs : List Char) :
    chainsFrom [] 0 cs = callPattern.captures cs := by
  rw [chainsFrom_eq, captures_eq_chainsBefore]
  rfl

theorem inText_eq_captures (text : String) :
    inText text = (((callPattern.captures text.toList).filter fun chain =>
      String.ofList chain ∉ keywords).filterMap fun chain =>
        callName? (String.ofList chain)).eraseDups := by
  rw [inText_eq, namesBefore, captures_eq_chainsBefore]

end CodeIndex.CallName

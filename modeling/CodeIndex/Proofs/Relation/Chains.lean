import CodeIndex.Proofs.Relation.Callee
import CodeIndex.Proofs.Store.Order
/-!
# Calls in plain text

A text without a tree is searched from the left for chains of identifiers that an opening
parenthesis follows. What is found are the chains seen from the parentheses: for each of them the
longest chain that ends before it, blanks aside. A chain in which the search is broken off is as
long as it can be, so that no chain that ends later starts inside of it.
-/

namespace CodeIndex.CallName

open Text

variable {c d : Char} {cs a b front back rest : List Char} {s : Separator}

/-! ## Chains of identifiers -/

inductive IsIdentifier : List Char → Prop where
  | intro {c : Char} {cs : List Char} (hc : startsIdentifier c = true)
      (hcs : ∀ d ∈ cs, isIdentifierChar d = true) : IsIdentifier (c :: cs)

/-- Identifiers with `.`, `::` or `->` between them. -/
inductive IsChain : List Char → Prop where
  | identifier {name : List Char} (h : IsIdentifier name) : IsChain name
  | join {name cs : List Char} {s : Separator} (h : IsIdentifier name) (hs : s ≠ .optional)
      (hcs : IsChain cs) : IsChain (name ++ s.text ++ cs)

/-- What may follow a character of a chain that belongs to an identifier. -/
inductive Continues : List Char → Prop where
  | nil : Continues []
  | char {c : Char} {cs : List Char} (hc : isIdentifierChar c = true) (h : Continues cs) :
      Continues (c :: cs)
  | link {s : Separator} {c : Char} {cs : List Char} (hs : s ≠ .optional)
      (hc : startsIdentifier c = true) (h : Continues cs) : Continues (s.text ++ c :: cs)

theorem isIdentifierChar_of_starts (hc : startsIdentifier c = true) :
    isIdentifierChar c = true := by
  unfold startsIdentifier at hc
  unfold isIdentifierChar Char.isAlphanum
  simp only [Bool.or_eq_true] at hc ⊢
  tauto

theorem isIdentifierChar_of_mem_separator (hd : d ∈ s.text) : isIdentifierChar d = false := by
  have hall : s.text.all (!isIdentifierChar ·) = true := by cases s <;> decide
  simpa using List.all_eq_true.1 hall d hd

theorem Continues.append (ha : ∀ d ∈ a, isIdentifierChar d = true) (h : Continues cs) :
    Continues (a ++ cs) := by
  induction a with
  | nil => exact h
  | cons c a ih =>
      rw [List.forall_mem_cons] at ha
      exact char ha.1 (ih ha.2)

theorem IsChain.ne_nil (h : IsChain cs) : cs ≠ [] := by
  cases h with
  | identifier h =>
      cases h
      exact List.cons_ne_nil _ _
  | join h hs hcs =>
      cases h
      exact List.cons_ne_nil _ _

theorem IsChain.insert (hd : isIdentifierChar d = true) (h : IsChain (c :: cs)) :
    IsChain (c :: d :: cs) := by
  generalize htext : c :: cs = text at h
  cases h with
  | identifier h =>
      cases h with
      | intro hc hcs =>
          cases htext
          exact identifier (.intro hc (List.forall_mem_cons.2 ⟨hd, hcs⟩))
  | join h hs hrest =>
      cases h with
      | intro hc hcs =>
          cases htext
          exact join (.intro hc (List.forall_mem_cons.2 ⟨hd, hcs⟩)) hs hrest

/-- A chain from its first character on. -/
theorem isChain_cons_iff : IsChain (c :: cs) ↔ startsIdentifier c = true ∧ Continues cs := by
  constructor
  · intro h
    generalize htext : c :: cs = text at h
    induction h generalizing c cs with
    | identifier h =>
        obtain ⟨hc, hcs⟩ := h
        cases htext
        have hrest := Continues.nil.append hcs
        rw [List.append_nil] at hrest
        exact ⟨hc, hrest⟩
    | join h hs hrest ih =>
        obtain ⟨hc, hcs⟩ := h
        obtain ⟨d, more, rfl⟩ := List.exists_cons_of_ne_nil hrest.ne_nil
        obtain ⟨hd, hmore⟩ := ih rfl
        rw [List.append_assoc, List.cons_append] at htext
        cases htext
        exact ⟨hc, (Continues.link hs hd hmore).append hcs⟩
  · rintro ⟨hc, h⟩
    induction h generalizing c with
    | nil => exact .identifier (.intro hc (List.forall_mem_nil _))
    | char hd h ih => exact (ih hc).insert hd
    | link hs hd h ih =>
        exact .join (.intro hc (List.forall_mem_nil _)) hs (ih hd)

/-- A chain that goes on inside of another one makes that one longer. -/
theorem Continues.glue (h : Continues (a ++ d :: cs)) (hd : startsIdentifier d = true)
    (hb : Continues b) : Continues (a ++ d :: b) := by
  have hidentifier := isIdentifierChar_of_starts hd
  generalize htext : a ++ d :: cs = text at h
  induction h generalizing a with
  | nil => simp at htext
  | @char c more hc h ih =>
      cases a with
      | nil => exact char hidentifier hb
      | cons e a =>
          cases htext
          exact char hc (ih rfl)
  | @link s c more hs hc h ih =>
      -- `d` stands behind the separator: no character of a separator starts an identifier
      rcases List.append_eq_append_iff.1 htext with ⟨x, hx, hrest⟩ | ⟨x, rfl, hrest⟩
      · cases x with
        | nil =>
            cases hrest
            rw [List.append_nil] at hx
            rw [← hx]
            exact link hs hd hb
        | cons e x =>
            cases hrest
            have hmem : d ∈ s.text := by simp [hx]
            rw [isIdentifierChar_of_mem_separator hmem] at hidentifier
            cases hidentifier
      · cases x with
        | nil =>
            cases hrest
            rw [List.append_nil]
            exact link hs hd hb
        | cons e x =>
            cases hrest
            rw [List.append_assoc, List.cons_append]
            exact link hs hc (ih rfl)

/-- Two chains that overlap make one chain. -/
theorem IsChain.glue (hfront : IsChain (a ++ front)) (hne : front ≠ [])
    (hback : IsChain (front ++ back)) : IsChain (a ++ front ++ back) := by
  cases a with
  | nil => exact hback
  | cons c a =>
      obtain ⟨d, front, rfl⟩ := List.exists_cons_of_ne_nil hne
      obtain ⟨hc, hrest⟩ := isChain_cons_iff.1 hfront
      obtain ⟨hd, hmore⟩ := isChain_cons_iff.1 hback
      rw [List.append_assoc]
      exact isChain_cons_iff.2 ⟨hc, hrest.glue hd hmore⟩

theorem IsChain.of_mem {p : Char → Prop} (h : IsChain cs)
    (hidentifier : ∀ c, isIdentifierChar c = true → p c)
    (hseparator : ∀ (s : Separator), ∀ c ∈ s.text, p c) : ∀ c ∈ cs, p c := by
  have hname : ∀ {name}, IsIdentifier name → ∀ c ∈ name, p c := by
    rintro _ ⟨hc, hcs⟩
    exact List.forall_mem_cons.2
      ⟨hidentifier _ (isIdentifierChar_of_starts hc), fun d hd => hidentifier d (hcs d hd)⟩
  induction h with
  | identifier h => exact hname h
  | join h hs hcs ih =>
      exact List.forall_mem_append.2 ⟨List.forall_mem_append.2 ⟨hname h, hseparator _⟩, ih⟩

theorem isBlank_of_isIdentifierChar (hc : isIdentifierChar c = true) : isBlank c = false := by
  by_contra hblank
  rw [Bool.not_eq_false] at hblank
  unfold isIdentifierChar at hc
  rw [isAlphanum_of_isBlank hblank] at hc
  simp only [Bool.false_or, Bool.or_eq_true, beq_iff_eq] at hc
  rcases hc with rfl | rfl <;> exact absurd hblank (by decide)

theorem IsChain.isBlank_of_mem (h : IsChain cs) : ∀ c ∈ cs, isBlank c = false :=
  h.of_mem (fun _ => isBlank_of_isIdentifierChar) fun _ _ => Separator.isBlank_of_mem

theorem IsChain.not_mem (h : IsChain cs) : '(' ∉ cs := by
  have hne : ∀ c ∈ cs, c ≠ '(' := by
    refine h.of_mem (fun c hc => ?_) (fun s c hc => ?_)
    · rintro rfl
      exact absurd hc (by decide)
    · rintro rfl
      revert hc
      cases s <;> decide
  exact fun hmem => hne _ hmem rfl

/-! ## The chain at the start of a text -/

theorem chainLength_cons (hc : isIdentifierChar c = true) (inside : Bool) (n : Nat)
    (cs : List Char) :
    chainLength inside n (c :: cs) =
      if (if inside then isIdentifierChar c else startsIdentifier c)
      then chainLength true (n + 1) cs else n := by
  rw [chainLength]
  all_goals
    rintro _ _ rfl
    exact absurd hc (by decide)

theorem chainLength_start (hc : startsIdentifier c = true) (n : Nat) (cs : List Char) :
    chainLength false n (c :: cs) = chainLength true (n + 1) cs := by
  rw [chainLength_cons (isIdentifierChar_of_starts hc), if_neg Bool.false_ne_true, if_pos hc]

theorem chainLength_not_start (hc : startsIdentifier c = false) (n : Nat) (cs : List Char) :
    chainLength false n (c :: cs) = n := by
  unfold chainLength
  split <;> simp_all

theorem chainLength_char (hc : isIdentifierChar c = true) (n : Nat) (cs : List Char) :
    chainLength true n (c :: cs) = chainLength true (n + 1) cs := by
  rw [chainLength_cons hc, if_pos rfl, if_pos hc]

theorem chainLength_link (hs : s ≠ .optional) (hc : startsIdentifier c = true) (n : Nat)
    (cs : List Char) :
    chainLength true n (s.text ++ c :: cs) = chainLength true (n + s.text.length + 1) cs := by
  have hchar := chainLength_char (isIdentifierChar_of_starts hc) (n + s.text.length) cs
  rw [← hchar]
  cases s with
  | dot => exact if_pos (by rw [hc]; rfl)
  | colons => exact if_pos (by rw [hc]; rfl)
  | arrow => exact if_pos (by rw [hc]; rfl)
  | optional => exact absurd rfl hs

/-- Inside of an identifier a text goes on in one of the two ways, or the chain is over. -/
theorem chainLength_cases (cs : List Char) :
    (∃ c rest, cs = c :: rest ∧ isIdentifierChar c = true) ∨
      (∃ s c rest, s ≠ Separator.optional ∧ startsIdentifier c = true ∧
        cs = s.text ++ c :: rest) ∨
      ∀ n, chainLength true n cs = n := by
  by_cases hchar : ∃ c rest, cs = c :: rest ∧ isIdentifierChar c = true
  · exact Or.inl hchar
  by_cases hlink : ∃ s c rest, s ≠ Separator.optional ∧ startsIdentifier c = true ∧
      cs = s.text ++ c :: rest
  · exact Or.inr (Or.inl hlink)
  refine Or.inr (Or.inr fun n => ?_)
  unfold chainLength
  split
  · rfl
  · exact if_neg fun hc => hlink ⟨.dot, _, _, by decide, hc, rfl⟩
  · exact if_neg fun hc => hlink ⟨.colons, _, _, by decide, hc, rfl⟩
  · exact if_neg fun hc => hlink ⟨.arrow, _, _, by decide, hc, rfl⟩
  · rw [if_pos rfl]
    exact if_neg fun hc => hchar ⟨_, _, rfl, hc⟩

theorem exists_continues (n : Nat) (cs : List Char) :
    ∃ front back, cs = front ++ back ∧ Continues front ∧
      chainLength true n cs = n + front.length := by
  induction hlength : cs.length using Nat.strong_induction_on generalizing n cs with
  | _ length ih =>
      subst hlength
      rcases chainLength_cases cs with ⟨c, rest, rfl, hc⟩ | ⟨s, c, rest, hs, hc, rfl⟩ | hstop
      · obtain ⟨front, back, rfl, hfront, heq⟩ := ih rest.length (by simp) (n + 1) rest rfl
        refine ⟨c :: front, back, rfl, hfront.char hc, ?_⟩
        rw [chainLength_char hc, heq, List.length_cons]
        omega
      · obtain ⟨front, back, rfl, hfront, heq⟩ :=
          ih rest.length (by simp; omega) (n + s.text.length + 1) rest rfl
        refine ⟨s.text ++ c :: front, back, by simp, .link hs hc hfront, ?_⟩
        rw [chainLength_link hs hc, heq, List.length_append, List.length_cons]
        omega
      · exact ⟨[], cs, rfl, .nil, hstop n⟩

theorem le_chainLength (h : Continues front) (n : Nat) (back : List Char) :
    n + front.length ≤ chainLength true n (front ++ back) := by
  induction h generalizing n with
  | nil =>
      obtain ⟨front, rest, -, -, heq⟩ := exists_continues n back
      rw [List.nil_append, heq]
      exact Nat.le_add_right n front.length
  | char hc h ih =>
      rw [List.cons_append, chainLength_char hc, List.length_cons]
      exact Nat.le_trans (by omega) (ih (n + 1))
  | @link s _ _ hs hc h ih =>
      rw [List.append_assoc, List.cons_append, chainLength_link hs hc, List.length_append,
        List.length_cons]
      exact Nat.le_trans (by omega) (ih (n + s.text.length + 1))

/-- The chain at the start of a text is as long as it can be. -/
theorem exists_chain (hc : startsIdentifier c = true) (cs : List Char) :
    ∃ chain rest, c :: cs = chain ++ rest ∧ IsChain chain ∧
      chainLength false 0 (c :: cs) = chain.length ∧
      ∀ more, more <+: rest → IsChain (chain ++ more) → more = [] := by
  obtain ⟨front, rest, rfl, hfront, heq⟩ := exists_continues 1 cs
  refine ⟨c :: front, rest, rfl, isChain_cons_iff.2 ⟨hc, hfront⟩, ?_, ?_⟩
  · rw [chainLength_start hc, Nat.zero_add, heq, List.length_cons, Nat.add_comm]
  · rintro more ⟨back, rfl⟩ hmore
    rw [List.cons_append, isChain_cons_iff] at hmore
    have hle := le_chainLength hmore.2 1 back
    rw [List.append_assoc, heq, List.length_append] at hle
    exact List.length_eq_zero_iff.1 (by omega)

theorem isChain_iff_chainLength :
    IsChain cs ↔ cs ≠ [] ∧ chainLength false 0 cs = cs.length := by
  cases cs with
  | nil => simpa using fun h : IsChain [] => h.ne_nil rfl
  | cons c cs =>
      cases hc : startsIdentifier c with
      | false => simp [isChain_cons_iff, hc, chainLength_not_start hc]
      | true =>
          obtain ⟨chain, rest, hcs, hchain, hlength, hlongest⟩ := exists_chain hc cs
          rw [hlength, hcs, List.length_append]
          constructor
          · intro h
            rw [hlongest rest (List.prefix_refl rest) h]
            exact ⟨by simpa using hchain.ne_nil, rfl⟩
          · rintro ⟨-, h⟩
            have hnil : rest = [] := List.length_eq_zero_iff.1 (by omega)
            rwa [hnil, List.append_nil]

instance (cs : List Char) : Decidable (IsChain cs) :=
  decidable_of_iff _ isChain_iff_chainLength.symm

/-! ## The chain before a parenthesis -/

/-- The longest chain at the end of a text. -/
def lastChain? : List Char → Option (List Char)
  | [] => none
  | c :: cs => if IsChain (c :: cs) then some (c :: cs) else lastChain? cs

/-- The chain that a parenthesis behind the text belongs to. -/
def chainBefore? (before : List Char) : Option (List Char) :=
  lastChain? (trimEnd before)

/-- The chain is the longest one that ends where the text does, blanks at its end aside. -/
structure IsChainBefore (before chain : List Char) : Prop where
  isSuffix : chain <:+ trimEnd before
  isChain : IsChain chain
  longest : ∀ other, other <:+ trimEnd before → IsChain other → other.length ≤ chain.length

theorem lastChain?_eq_some_iff {chain : List Char} :
    lastChain? cs = some chain ↔ chain <:+ cs ∧ IsChain chain ∧
      ∀ other, other <:+ cs → IsChain other → other.length ≤ chain.length := by
  induction cs with
  | nil =>
      rw [lastChain?]
      constructor
      · intro h
        cases h
      · rintro ⟨hsuffix, hchain, -⟩
        exact absurd (List.suffix_nil.1 hsuffix) hchain.ne_nil
  | cons c cs ih =>
      rw [lastChain?]
      split
      · next hwhole =>
          rw [Option.some.injEq]
          constructor
          · rintro rfl
            exact ⟨List.suffix_refl _, hwhole, fun other hother _ => hother.length_le⟩
          · rintro ⟨hsuffix, -, hlongest⟩
            have hle := hlongest _ (List.suffix_refl _) hwhole
            exact (hsuffix.sublist.eq_of_length_le hle).symm
      · next hwhole =>
          have hshorter : ∀ other, IsChain other → (other <:+ c :: cs ↔ other <:+ cs) := by
            intro other hother
            rw [List.suffix_cons_iff, or_iff_right]
            rintro rfl
            exact hwhole hother
          rw [ih]
          constructor
          · rintro ⟨hsuffix, hchain, hlongest⟩
            exact ⟨(hshorter _ hchain).2 hsuffix, hchain,
              fun other hother h => hlongest other ((hshorter other h).1 hother) h⟩
          · rintro ⟨hsuffix, hchain, hlongest⟩
            exact ⟨(hshorter _ hchain).1 hsuffix, hchain,
              fun other hother h => hlongest other ((hshorter other h).2 hother) h⟩

theorem chainBefore?_eq_some_iff {before chain : List Char} :
    chainBefore? before = some chain ↔ IsChainBefore before chain := by
  rw [chainBefore?, lastChain?_eq_some_iff]
  exact ⟨fun ⟨h, h', h''⟩ => ⟨h, h', h''⟩, fun h => ⟨h.isSuffix, h.isChain, h.longest⟩⟩

/-- A chain ends where the blanks at the end of a text begin. -/
theorem IsChain.suffix_trimEnd_iff {chain : List Char} (h : IsChain chain) :
    chain <:+ trimEnd cs ↔ ∃ blanks, allBlank blanks = true ∧ chain ++ blanks <:+ cs := by
  constructor
  · rintro ⟨front, hfront⟩
    obtain ⟨blanks, hcs, hblanks⟩ := (isTrimmed_trimEnd cs).blanks
    refine ⟨blanks, hblanks, front, ?_⟩
    rw [← List.append_assoc, hfront, ← hcs]
  · rintro ⟨blanks, hblanks, front, rfl⟩
    have htrimmed : IsTrimmed (front ++ (chain ++ blanks)) (front ++ chain) := by
      refine ⟨⟨blanks, by rw [List.append_assoc], hblanks⟩, fun c hc => ?_⟩
      rw [List.getLast?_append_of_ne_nil _ h.ne_nil] at hc
      exact h.isBlank_of_mem c (List.mem_of_getLast? hc)
    rw [htrimmed.trimEnd_eq]
    exact List.suffix_append front chain

/-- The chain does not depend on a beginning of the text in which no chain that reaches the end
starts. -/
theorem chainBefore?_append
    (h : ∀ x chain blanks, x ≠ [] → x <:+ a → IsChain chain → allBlank blanks = true →
      chain ++ blanks ≠ x ++ b) :
    chainBefore? (a ++ b) = chainBefore? b := by
  have hsuffix : ∀ chain, IsChain chain → (chain <:+ trimEnd (a ++ b) ↔ chain <:+ trimEnd b) := by
    intro chain hchain
    rw [hchain.suffix_trimEnd_iff, hchain.suffix_trimEnd_iff]
    refine exists_congr fun blanks => and_congr_right fun hblanks => ?_
    constructor
    · rintro ⟨front, hfront⟩
      rcases List.append_eq_append_iff.1 hfront with ⟨x, rfl, hx⟩ | ⟨y, -, rfl⟩
      · cases x with
        | nil => exact hx ▸ List.suffix_refl _
        | cons d x =>
            exact absurd hx (h _ _ _ (List.cons_ne_nil d x) (List.suffix_append _ _) hchain hblanks)
      · exact List.suffix_append _ _
    · exact fun hb => hb.trans (List.suffix_append a b)
  ext chain
  rw [chainBefore?_eq_some_iff, chainBefore?_eq_some_iff]
  constructor
  · intro hc
    exact ⟨(hsuffix _ hc.isChain).1 hc.isSuffix, hc.isChain,
      fun other hother ho => hc.longest other ((hsuffix other ho).2 hother) ho⟩
  · intro hc
    exact ⟨(hsuffix _ hc.isChain).2 hc.isSuffix, hc.isChain,
      fun other hother ho => hc.longest other ((hsuffix other ho).1 hother) ho⟩

/-! ## All parentheses of a text -/

/-- What stands before each opening parenthesis of a text, from left to right. -/
def beforeParentheses : List Char → List (List Char)
  | [] => []
  | c :: cs => (if c = '(' then [[]] else []) ++ (beforeParentheses cs).map (c :: ·)

theorem mem_beforeParentheses {before : List Char} :
    before ∈ beforeParentheses cs ↔ ∃ after, cs = before ++ '(' :: after := by
  induction cs generalizing before with
  | nil => simp [beforeParentheses]
  | cons c cs ih =>
      rw [beforeParentheses, List.mem_append, List.mem_map]
      cases before with
      | nil => by_cases hc : c = '(' <;> simp [hc]
      | cons d before => by_cases hc : c = '(' <;> simp [hc, ih, and_comm, eq_comm]

theorem beforeParentheses_append (ha : '(' ∉ a) (cs : List Char) :
    beforeParentheses (a ++ cs) = (beforeParentheses cs).map (a ++ ·) := by
  induction a with
  | nil => simp
  | cons c a ih =>
      rw [List.mem_cons, not_or] at ha
      rw [List.cons_append, beforeParentheses, if_neg (Ne.symm ha.1), List.nil_append, ih ha.2,
        List.map_map]
      rfl

/-- The chains that the parentheses of a text belong to, from left to right. -/
def chainsBefore (cs : List Char) : List (List Char) :=
  (beforeParentheses cs).filterMap chainBefore?

/-- A beginning of the text in which there is no parenthesis, and no chain to a later one starts. -/
theorem chainsBefore_append (ha : '(' ∉ a)
    (h : ∀ b after, cs = b ++ '(' :: after → chainBefore? (a ++ b) = chainBefore? b) :
    chainsBefore (a ++ cs) = chainsBefore cs := by
  rw [chainsBefore, chainsBefore, beforeParentheses_append ha, List.filterMap_map]
  refine List.filterMap_congr fun b hb => ?_
  obtain ⟨after, hafter⟩ := mem_beforeParentheses.1 hb
  exact h b after hafter

theorem starts_of_isChain_append {chain blanks : List Char} (h : IsChain chain)
    (heq : chain ++ blanks = c :: cs) : startsIdentifier c = true := by
  obtain ⟨d, chain, rfl⟩ := List.exists_cons_of_ne_nil h.ne_nil
  cases heq
  exact (isChain_cons_iff.1 h).1

/-- No chain starts at the character. -/
theorem chainsBefore_cons (hc : startsIdentifier c = false) (cs : List Char) :
    chainsBefore (c :: cs) = chainsBefore cs := by
  have hrest : ∀ b, chainBefore? (c :: b) = chainBefore? b := by
    intro b
    rw [← List.singleton_append]
    refine chainBefore?_append fun x chain blanks hne hx hchain hblanks heq => ?_
    obtain ⟨d, x, rfl⟩ := List.exists_cons_of_ne_nil hne
    rw [List.suffix_cons_iff, List.suffix_nil, List.cons.injEq] at hx
    obtain ⟨rfl, -⟩ := hx.resolve_right (List.cons_ne_nil _ _)
    rw [starts_of_isChain_append hchain heq] at hc
    cases hc
  have hnil : (if c = '(' then [[]] else []).filterMap chainBefore? = [] := by
    split <;> rfl
  rw [chainsBefore, beforeParentheses, List.filterMap_append, hnil, List.nil_append,
    List.filterMap_map]
  exact List.filterMap_congr fun b _ => hrest b

/-- Behind a parenthesis the chains start anew. -/
theorem chainsBefore_parenthesis (ha : '(' ∉ a) (cs : List Char) :
    chainsBefore (a ++ '(' :: cs) = (chainBefore? a).toList ++ chainsBefore cs := by
  have hrest : ∀ b, chainBefore? (a ++ '(' :: b) = chainBefore? b := by
    intro b
    rw [List.append_cons]
    refine chainBefore?_append fun x chain blanks hne hx hchain hblanks heq => ?_
    have hmem : '(' ∈ chain ++ blanks := by
      have hlast : x.getLast? = some '(' := by
        obtain ⟨front, hfront⟩ := hx
        rw [← List.getLast?_append_of_ne_nil front hne, hfront, List.getLast?_concat]
      rw [heq]
      exact List.mem_append_left b (List.mem_of_getLast? hlast)
    rcases List.mem_append.1 hmem with hmem | hmem
    · exact hchain.not_mem hmem
    · exact absurd (List.all_eq_true.1 hblanks _ hmem) (by decide)
  have hthis : (beforeParentheses ('(' :: cs)).map (a ++ ·) =
      a :: (beforeParentheses cs).map fun b => a ++ '(' :: b := by
    rw [beforeParentheses, if_pos rfl, List.singleton_append, List.map_cons, List.map_map,
      List.append_nil]
    rfl
  have hmore : ((beforeParentheses cs).map fun b => a ++ '(' :: b).filterMap chainBefore? =
      chainsBefore cs := by
    rw [List.filterMap_map]
    exact List.filterMap_congr fun b _ => hrest b
  rw [chainsBefore, beforeParentheses_append ha, hthis, List.filterMap_cons, hmore]
  cases chainBefore? a <;> rfl

theorem chainBefore?_chain {chain blanks : List Char} (hchain : IsChain chain)
    (hblanks : allBlank blanks = true) : chainBefore? (chain ++ blanks) = some chain := by
  have htrimmed : trimEnd (chain ++ blanks) = chain := by
    refine IsTrimmed.trimEnd_eq ⟨⟨blanks, rfl, hblanks⟩, fun c hc => ?_⟩
    exact hchain.isBlank_of_mem c (List.mem_of_getLast? hc)
  rw [chainBefore?_eq_some_iff]
  refine ⟨?_, hchain, fun other hother _ => ?_⟩
  · rw [htrimmed]
  · rw [htrimmed] at hother
    exact hother.length_le

theorem chainsBefore_call {chain blanks : List Char} (hchain : IsChain chain)
    (hblanks : allBlank blanks = true) (after : List Char) :
    chainsBefore (chain ++ (blanks ++ '(' :: after)) = chain :: chainsBefore after := by
  have hnot : '(' ∉ chain ++ blanks := by
    rw [List.mem_append, not_or]
    refine ⟨hchain.not_mem, fun hmem => ?_⟩
    exact absurd (List.all_eq_true.1 hblanks _ hmem) (by decide)
  rw [← List.append_assoc, chainsBefore_parenthesis hnot, chainBefore?_chain hchain hblanks]
  rfl

/-- A chain that no parenthesis follows. -/
theorem chainsBefore_chain {chain rest : List Char} (hchain : IsChain chain)
    (hlongest : ∀ more, more <+: rest → IsChain (chain ++ more) → more = [])
    (hrest : ∀ blanks after, allBlank blanks = true → rest ≠ blanks ++ '(' :: after) :
    chainsBefore (chain ++ rest) = chainsBefore rest := by
  refine chainsBefore_append hchain.not_mem fun b after hafter => ?_
  refine chainBefore?_append fun x other blanks hne hx hother hblanks heq => ?_
  -- the other chain goes on behind `x`, as blanks alone do not stand before the parenthesis
  rcases List.append_eq_append_iff.1 heq with ⟨y, hy, hb⟩ | ⟨y, rfl, rfl⟩
  · have hall : allBlank b = true := by
      rw [hb, allBlank, List.all_append, Bool.and_eq_true] at hblanks
      exact hblanks.2
    exact hrest b after hall hafter
  · obtain ⟨front, rfl⟩ := hx
    have hglued := hchain.glue hne hother
    have hnil := hlongest y ⟨blanks ++ '(' :: after, by rw [hafter, List.append_assoc]⟩ hglued
    exact hrest blanks after hblanks (by rw [hafter, hnil, List.nil_append])

/-! ## The search -/

theorem chainsFrom_skip (found : List (List Char)) (skip : Nat) (cs : List Char) :
    chainsFrom found skip cs = chainsFrom found 0 (cs.drop skip) := by
  induction skip generalizing cs with
  | zero => rfl
  | succ skip ih =>
      cases cs with
      | nil => rfl
      | cons c cs => exact ih cs

theorem chainsFrom_cons (found : List (List Char)) (c : Char) (cs : List Char) :
    chainsFrom found 0 (c :: cs) =
      chainsFrom ((callAt (c :: cs)).1.toList ++ found) 0 (cs.drop ((callAt (c :: cs)).2 - 1)) := by
  rw [chainsFrom]
  exact chainsFrom_skip _ _ cs

theorem callAt_of_not_starts (hc : startsIdentifier c = false) (cs : List Char) :
    callAt (c :: cs) = (none, 0) := by
  unfold callAt
  rw [chainLength_not_start hc]
  rfl

theorem callAt_append {chain : List Char} (hne : chain ≠ [])
    (hlength : chainLength false 0 (chain ++ rest) = chain.length) :
    callAt (chain ++ rest) =
      if (rest.dropWhile isBlank).head? = some '(' then
        (some chain, chain.length + ((rest.takeWhile isBlank).length + 1))
      else (none, chain.length) := by
  have hgap : rest.drop (rest.takeWhile isBlank).length = rest.dropWhile isBlank := by
    calc rest.drop (rest.takeWhile isBlank).length
        = (rest.takeWhile isBlank ++ rest.dropWhile isBlank).drop
            (rest.takeWhile isBlank).length := by rw [List.takeWhile_append_dropWhile]
      _ = rest.dropWhile isBlank := List.drop_left
  have hzero : (chain.length == 0) = false :=
    beq_eq_false_iff_ne.2 fun h => hne (List.length_eq_zero_iff.1 h)
  unfold callAt
  simp only [hlength, hzero, Bool.false_eq_true, if_false, List.drop_left, List.take_left, hgap,
    beq_iff_eq, Nat.add_assoc]

theorem callAt_call {chain blanks : List Char} (hne : chain ≠ []) (hblanks : allBlank blanks = true)
    (after : List Char)
    (hlength : chainLength false 0 (chain ++ (blanks ++ '(' :: after)) = chain.length) :
    callAt (chain ++ (blanks ++ '(' :: after)) =
      (some chain, chain.length + (blanks.length + 1)) := by
  have hall := List.all_eq_true.1 hblanks
  have hopen : isBlank '(' ≠ true := by decide
  rw [callAt_append hne hlength, List.dropWhile_append_of_pos hall,
    List.dropWhile_cons_of_neg hopen, List.head?_cons, if_pos rfl,
    List.takeWhile_append_of_pos hall, List.takeWhile_cons_of_neg hopen, List.append_nil]

theorem callAt_other {chain : List Char} (hne : chain ≠ [])
    (hlength : chainLength false 0 (chain ++ rest) = chain.length)
    (hrest : ∀ blanks after, allBlank blanks = true → rest ≠ blanks ++ '(' :: after) :
    callAt (chain ++ rest) = (none, chain.length) := by
  rw [callAt_append hne hlength]
  refine if_neg fun hopen => ?_
  refine hrest (rest.takeWhile isBlank) (rest.dropWhile isBlank).tail List.all_takeWhile ?_
  rw [List.cons_head?_tail hopen, List.takeWhile_append_dropWhile]

/-- What one step of the search finds, and what it leaves to be searched. -/
theorem chainsBefore_eq_callAt (c : Char) (cs : List Char) :
    chainsBefore (c :: cs) =
      (callAt (c :: cs)).1.toList ++ chainsBefore (cs.drop ((callAt (c :: cs)).2 - 1)) := by
  cases hc : startsIdentifier c with
  | false =>
      rw [callAt_of_not_starts hc, chainsBefore_cons hc]
      rfl
  | true =>
      obtain ⟨chain, rest, hcs, hchain, hlength, hlongest⟩ := exists_chain hc cs
      rw [hcs] at hlength
      have hdrop : ∀ n, cs.drop (chain.length + n - 1) = rest.drop n := by
        intro n
        have hpos := List.length_pos_iff.2 hchain.ne_nil
        have hsucc : chain.length + n - 1 + 1 = chain.length + n := by omega
        rw [← List.drop_succ_cons, hcs, hsucc, List.drop_length_add_append]
      by_cases hcall : ∃ blanks after, allBlank blanks = true ∧ rest = blanks ++ '(' :: after
      · obtain ⟨blanks, after, hblanks, rfl⟩ := hcall
        rw [hcs, callAt_call hchain.ne_nil hblanks after hlength,
          chainsBefore_call hchain hblanks after, hdrop, List.drop_length_add_append]
        rfl
      · have hrest : ∀ blanks after, allBlank blanks = true → rest ≠ blanks ++ '(' :: after :=
          fun blanks after hblanks heq => hcall ⟨blanks, after, hblanks, heq⟩
        have hleft := hdrop 0
        rw [Nat.add_zero, List.drop_zero] at hleft
        rw [hcs, callAt_other hchain.ne_nil hlength hrest, hleft,
          chainsBefore_chain hchain hlongest hrest]
        rfl

theorem chainsFrom_eq (found : List (List Char)) (cs : List Char) :
    chainsFrom found 0 cs = found.reverse ++ chainsBefore cs := by
  induction hlength : cs.length using Nat.strong_induction_on generalizing found cs with
  | _ length ih =>
      subst hlength
      cases cs with
      | nil => simp [chainsFrom, chainsBefore, beforeParentheses]
      | cons c cs =>
          have hshorter : (cs.drop ((callAt (c :: cs)).2 - 1)).length < (c :: cs).length := by
            rw [List.length_drop, List.length_cons]
            omega
          rw [chainsFrom_cons, ih _ hshorter _ _ rfl, chainsBefore_eq_callAt]
          cases (callAt (c :: cs)).1 <;> simp

/-! ## The names that are called -/

/-- The names of the chains before the parentheses of a text, from left to right. -/
def namesBefore (text : String) : List String :=
  ((chainsBefore text.toList).filter fun chain => String.ofList chain ∉ keywords).filterMap
    fun chain => callName? (String.ofList chain)

theorem mem_namesBefore {text name : String} :
    name ∈ namesBefore text ↔ ∃ before after chain, text.toList = before ++ '(' :: after ∧
      IsChainBefore before chain ∧ String.ofList chain ∉ keywords ∧
      callName? (String.ofList chain) = some name := by
  simp only [namesBefore, chainsBefore, List.mem_filterMap, List.mem_filter, mem_beforeParentheses,
    chainBefore?_eq_some_iff, decide_eq_true_eq]
  constructor
  · rintro ⟨chain, ⟨⟨before, ⟨after, htext⟩, hchain⟩, hkeyword⟩, hname⟩
    exact ⟨before, after, chain, htext, hchain, hkeyword, hname⟩
  · rintro ⟨before, after, chain, htext, hchain, hkeyword, hname⟩
    exact ⟨chain, ⟨⟨before, ⟨after, htext⟩, hchain⟩, hkeyword⟩, hname⟩

theorem inText_eq (text : String) : inText text = (namesBefore text).eraseDups := by
  have hchains : chainsFrom [] 0 text.toList = chainsBefore text.toList := chainsFrom_eq [] _
  have hname : ∀ chain, (ofText? chain).map String.ofList = callName? (String.ofList chain) :=
    fun chain => by rw [callName?, String.toList_ofList]
  unfold inText namesBefore
  simp only [hchains, distinct_eq_eraseDups, List.map_filterMap, hname, List.contains_eq_mem,
    decide_not]

/-- What is promised of the names called in a text. -/
structure AreCalls (text : String) (names : List String) : Prop where
  nodup : names.Nodup
  mem_iff : ∀ name, name ∈ names ↔ ∃ before after chain, text.toList = before ++ '(' :: after ∧
    IsChainBefore before chain ∧ String.ofList chain ∉ keywords ∧
    callName? (String.ofList chain) = some name
  inOrder : names = (namesBefore text).eraseDups

/-- The search from the left finds what each parenthesis is preceded by. -/
theorem areCalls_inText (text : String) : AreCalls text (inText text) := by
  refine ⟨?_, fun name => ?_, inText_eq text⟩
  · exact nodup_distinct _
  · rw [inText_eq, List.mem_eraseDups, mem_namesBefore]

/-- A call in a call, chains that are broken by a digit or a colon, and a keyword. -/
example : inText "a->b(c::d (x)); 9f.g(); e.:h(e); if (a.b(1))" = ["a.b", "c.d", "f.g", "h"] := by
  decide +kernel

end CodeIndex.CallName

import CodeIndex.Json.Printer
import CodeIndex.Proofs.Json.Tokens
import Mathlib.Data.List.TakeWhile
/-!
# Written values read back

What is read inside brackets is what would be read of the text alone. So a value that was written
with one member a line is read back part by part: its texts whatever characters they have, its
whole numbers as far as 64 bits go, and its floats if each of them reads back alone.
-/

namespace CodeIndex.Json

/-! ## Reading inside brackets -/

namespace Progress

/-- The same progress with more open below. -/
def onto (base : List Frame) (p : Progress) : Progress :=
  match p.await with
  | .done j => .give base j
  | a => ⟨p.stack ++ base, a⟩

theorem onto_give (base stack : List Frame) (j : Json) :
    (give stack j).onto base = give (stack ++ base) j := by
  cases stack with
  | nil => rfl
  | cons f stack => cases f <;> rfl

theorem start_onto {stack : List Frame} {t : Token} {q : Progress} (h : start stack t = some q)
    (base : List Frame) : start (stack ++ base) t = some (q.onto base) := by
  unfold start at h ⊢
  split at h
  case h_6 => cases h
  case h_1 | h_2 =>
    cases h
    rfl
  all_goals
    cases h
    rw [onto_give]

theorem named_onto {stack : List Frame} {t : Token} {q : Progress} (h : named stack t = some q)
    (base : List Frame) : named (stack ++ base) t = some (q.onto base) := by
  unfold named at h
  split at h
  · split at h
    · cases h
      rfl
    · cases h
  · cases h

theorem step_value (stack : List Frame) (t : Token) : step ⟨stack, .value⟩ t = start stack t :=
  rfl

theorem step_name (stack : List Frame) (t : Token) : step ⟨stack, .name⟩ t = named stack t :=
  rfl

/-- Where an array may end at once, a value is read as anywhere else. -/
theorem step_firstItem {t : Token} (ht : t ≠ .closeArray) (stack : List Frame) :
    step ⟨stack, .firstItem⟩ t = start stack t := by
  cases t <;> first | rfl | exact absurd rfl ht

theorem step_firstName {t : Token} (ht : t ≠ .closeRecord) (stack : List Frame) :
    step ⟨stack, .firstName⟩ t = named stack t := by
  cases t <;> first | rfl | exact absurd rfl ht

/-- What is open below plays no part before it comes to an end above. -/
theorem step_onto {p q : Progress} {t : Token} (h : p.step t = some q) (base : List Frame) :
    (p.onto base).step t = some (q.onto base) := by
  obtain ⟨stack, await⟩ := p
  cases await with
  | firstItem =>
      by_cases ht : t = .closeArray
      · subst ht
        rcases stack with _ | ⟨_ | _, rest⟩ <;> cases h
        rw [onto_give]
        rfl
      · rw [step_firstItem ht] at h
        exact (step_firstItem ht _).trans (start_onto h base)
  | firstName =>
      by_cases ht : t = .closeRecord
      · subst ht
        rcases stack with _ | ⟨_ | _, rest⟩ <;> cases h
        rw [onto_give]
        rfl
      · rw [step_firstName ht] at h
        exact (step_firstName ht _).trans (named_onto h base)
  | value => exact start_onto h base
  | name => exact named_onto h base
  | colon =>
      cases t <;> cases h
      rfl
  | next =>
      rcases stack with _ | ⟨_ | _, rest⟩ <;> cases t <;> cases h
      · rw [onto_give]
        rfl
      · rfl
      · rw [onto_give]
        rfl
      · rfl
  | done j => cases t <;> cases h

theorem foldlM_onto {ts : List Token} {p q : Progress} (h : ts.foldlM step p = some q)
    (base : List Frame) : ts.foldlM step (p.onto base) = some (q.onto base) := by
  induction ts generalizing p with
  | nil =>
      cases h
      rfl
  | cons t ts ih =>
      rw [List.foldlM_cons] at h ⊢
      obtain ⟨r, hstep, hrest⟩ := Option.bind_eq_some_iff.1 h
      rw [step_onto hstep base]
      exact ih hrest

end Progress

/-- The text holds the value, wherever a value may stand. -/
def Holds (cs : List Char) (j : Json) : Prop :=
  ∃ ts, Tokenizes cs ts ∧
    ∀ stack, ts.foldlM Progress.step ⟨stack, .value⟩ = some (.give stack j)

theorem ofTokens?_eq_some {ts : List Token} {j : Json} :
    ofTokens? ts = some j ↔
      ∃ stack, ts.foldlM Progress.step ⟨[], .value⟩ = some ⟨stack, .done j⟩ := by
  unfold ofTokens?
  rw [Option.bind_eq_bind, Option.bind_eq_some_iff]
  constructor
  · rintro ⟨⟨stack, await⟩, hfold, hdone⟩
    cases await <;> cases hdone
    exact ⟨stack, hfold⟩
  · rintro ⟨stack, hfold⟩
    exact ⟨_, hfold, rfl⟩

/-- What is read of a text alone is read of it wherever it stands. -/
theorem read?_eq_some {s : String} {j : Json} : read? s = some j ↔ Holds s.toList j := by
  unfold read?
  rw [Option.bind_eq_some_iff]
  constructor
  · rintro ⟨ts, hts, hread⟩
    obtain ⟨stack, hfold⟩ := ofTokens?_eq_some.1 hread
    exact ⟨ts, tokens?_eq_some.1 hts, fun base => Progress.foldlM_onto hfold base⟩
  · rintro ⟨ts, hts, hfold⟩
    exact ⟨ts, tokens?_eq_some.2 hts, ofTokens?_eq_some.2 ⟨[], hfold []⟩⟩

/-! ## Texts -/

theorem hexUnit_hexDigit {n : Nat} (hn : n < 32) :
    hexUnit '0' '0' (hexDigit (n / 16)) (hexDigit (n % 16)) = some n := by
  have hall : ∀ n < 32, hexUnit '0' '0' (hexDigit (n / 16)) (hexDigit (n % 16)) = some n := by
    decide +kernel
  exact hall n hn

/-- However a character is written, it is read as one unit. -/
theorem readUnits_escapeChar (c : Char) (cs : List Char) :
    readUnits (escapeChar c ++ cs) =
      (readUnits cs).map fun (units, rest) => (c.toNat :: units, rest) := by
  unfold escapeChar
  split
  case h_8 hquote hslash _ _ _ _ _ =>
    split
    · rename_i hcontrol
      simp only [List.cons_append, List.nil_append]
      rw [readUnits, hexUnit_hexDigit hcontrol]
      cases readUnits cs with
      | none => rfl
      | some read => rfl
    · rename_i hcontrol
      exact readUnits_plain hquote hslash (Nat.le_of_not_lt hcontrol) cs
  all_goals exact readUnits_escape rfl cs

theorem readUnits_quoted (cs rest : List Char) :
    readUnits (cs.flatMap escapeChar ++ '"' :: rest) = some (cs.map Char.toNat, rest) := by
  induction cs with
  | nil => rw [List.flatMap_nil, List.nil_append, readUnits, List.map_nil]
  | cons c cs ih =>
      rw [List.flatMap_cons, List.append_assoc, readUnits_escapeChar, ih]
      rfl

/-- No character is a surrogate. -/
theorem toNat_not_surrogate (c : Char) : ¬ (0xd800 ≤ c.toNat ∧ c.toNat ≤ 0xdfff) := by
  have hvalid : c.toNat < 0xd800 ∨ 0xdfff < c.toNat ∧ c.toNat < 0x110000 := c.valid
  omega

theorem charsOfUnits_map_toNat (cs : List Char) : charsOfUnits (cs.map Char.toNat) = some cs := by
  induction cs with
  | nil => rfl
  | cons c cs ih =>
      have hc := toNat_not_surrogate c
      cases cs with
      | nil =>
          rw [List.map_singleton, charsOfUnits, if_neg (by simpa using hc), Char.ofNat_toNat]
      | cons d cs =>
          rw [List.map_cons] at ih
          rw [List.map_cons, List.map_cons, charsOfUnits, if_neg, if_neg, ih, Char.ofNat_toNat]
          · rfl
          · simp
            omega
          · simp
            omega

theorem tokenizes_single {cs : List Char} {t : Token}
    (h : nextToken (cs.dropWhile isGap) = some (t, [])) : Tokenizes cs [t] :=
  .cons h (.nil rfl)

theorem tokenizes_quote (s : String) : Tokenizes (quote s).toList [.text (some s)] := by
  have hchars : (quote s).toList = '"' :: (s.toList.flatMap escapeChar ++ ['"']) := by
    unfold quote
    rw [String.toList_ofList]
    rfl
  refine tokenizes_single ?_
  rw [hchars, List.dropWhile_cons_of_neg (by decide), nextToken, readUnits_quoted, Option.map_some]
  dsimp only
  rw [charsOfUnits_map_toNat, Option.map_some, String.ofList_toList]

/-! ## Single values -/

theorem holds_of_token {cs : List Char} {t : Token} {j : Json} (h : Tokenizes cs [t])
    (ht : ∀ stack, Progress.start stack t = some (.give stack j)) : Holds cs j :=
  ⟨[t], h, fun stack => by rw [List.foldlM_cons, Progress.step_value, ht]; rfl⟩

theorem holds_quote (s : String) : Holds (quote s).toList (.text s) :=
  holds_of_token (tokenizes_quote s) fun _ => rfl

theorem holds_scalar {cs : List Char} {j : Json}
    (h : nextToken (cs.dropWhile isGap) = some (.scalar j, [])) : Holds cs j :=
  holds_of_token (tokenizes_single h) fun _ => rfl

theorem head?_toDigits {n : Nat} (hn : n ≠ 0) : (Nat.toDigits 10 n).head? ≠ some '0' := by
  induction n using Nat.base_induction 10 (by decide) with
  | single m hm =>
      have hall : ∀ m < 10, m ≠ 0 → m.digitChar ≠ '0' := by decide
      rw [Nat.toDigits_of_lt_base hm]
      simpa using hall m hm hn
  | digit m k hk hm ih =>
      rw [← Nat.toDigits_append_toDigits (by decide) hm hk,
        List.head?_append_of_ne_nil _ Nat.toDigits_ne_nil]
      exact ih (Nat.ne_of_gt hm)

theorem digitsValue_toDigits (n : Nat) :
    digitsValue ((Nat.toDigits 10 n).map fun c => c.toNat - 48) = n := by
  have hvalue := Nat.ofDigitChars_ten_toDigits (n := n)
  unfold Nat.ofDigitChars at hvalue
  unfold digitsValue
  rw [List.foldl_map]
  simpa [Nat.mul_comm] using hvalue

/-- A whole number is read as its digits, without a zero in front. -/
theorem readNumeral_toDigits (negative : Bool) (n : Nat) :
    readNumeral negative (Nat.toDigits 10 n) =
      some (⟨negative, (Nat.toDigits 10 n).map fun c => c.toNat - 48, [], none, false⟩, []) := by
  have hdigits : ∀ c ∈ Nat.toDigits 10 n, c.isDigit = true := fun c hc =>
    Nat.isDigit_of_mem_toDigits (by decide) (by decide) hc
  have hwhole : leadingDigits (Nat.toDigits 10 n) =
      (Nat.toDigits 10 n).map fun c => c.toNat - 48 := by
    unfold leadingDigits
    rw [List.takeWhile_eq_self_iff.2 hdigits]
  have hafter : afterDigits (Nat.toDigits 10 n) = [] := List.dropWhile_eq_nil_iff.2 hdigits
  refine readNumeral_eq_some.2 ⟨?_, none, [], none, by rw [hafter]; rfl, rfl, by rw [hwhole]; rfl⟩
  rw [hwhole, Bool.or_eq_false_iff, Bool.and_eq_false_iff]
  refine ⟨by simp, ?_⟩
  by_cases hn : n = 0
  · subst hn
    exact Or.inr (by decide)
  · left
    rw [beq_eq_false_iff_ne, List.head?_map]
    intro hzero
    obtain ⟨c, hc, hvalue⟩ := Option.map_eq_some_iff.1 hzero
    have hdigit : 48 ≤ c.toNat ∧ c.toNat ≤ 57 := by
      simpa [Char.isDigit, UInt32.le_iff_toNat_le] using hdigits c (List.mem_of_head? hc)
    have hchar : c = '0' := Char.toNat_inj.1 (by rw [show '0'.toNat = 48 from rfl]; omega)
    exact head?_toDigits hn (hchar ▸ hc)

theorem isGap_of_isDigit {c : Char} (hc : c.isDigit = true) : isGap c = false := by
  unfold isGap
  simp only [Bool.or_eq_false_iff, beq_eq_false_iff_ne]
  refine ⟨⟨⟨?_, ?_⟩, ?_⟩, ?_⟩ <;>
    · rintro rfl
      cases hc

theorem nextToken_toDigits (n : Nat) :
    nextToken ((Nat.toDigits 10 n).dropWhile isGap) =
      (readNumeral false (Nat.toDigits 10 n)).map fun (n, rest) => (.scalar n.value, rest) := by
  obtain ⟨d, ds, hds⟩ := List.exists_cons_of_ne_nil (Nat.toDigits_ne_nil (n := n) (b := 10))
  have hd := Nat.isDigit_of_mem_toDigits (b := 10) (n := n) (by decide) (by decide)
    (hds ▸ List.mem_cons_self)
  rw [hds, List.dropWhile_cons_of_neg (by simp [isGap_of_isDigit hd])]
  exact nextToken_digit hd ds

theorem holds_nat {n : Nat} (hn : n ≤ maxWord) : Holds (toString n).toList (.nat n) := by
  rw [Nat.toString_eq_repr, Nat.toList_repr]
  refine holds_scalar ?_
  rw [nextToken_toDigits, readNumeral_toDigits, Option.map_some]
  simp only [Numeral.value]
  rw [digitsValue_toDigits]
  simp [hn, nat]

/-- The number fits 64 bits, with or without a sign. -/
def IsWhole (n : Int) : Prop :=
  -(Nat.pow 2 63 : Nat) ≤ n ∧ n ≤ maxWord

theorem holds_int {n : Int} (hn : IsWhole n) : Holds (toString n).toList (.int n) := by
  obtain ⟨hlower, hupper⟩ := hn
  cases n with
  | ofNat n => exact holds_nat (by simpa using hupper)
  | negSucc n =>
      have hchars : (toString (Int.negSucc n)).toList = '-' :: Nat.toDigits 10 (n + 1) := by
        change ("-" ++ Nat.repr (n + 1)).toList = _
        rw [String.toList_append, Nat.toList_repr]
        rfl
      have hfits : ¬ Nat.pow 2 63 < n + 1 := by omega
      rw [hchars]
      refine holds_scalar ?_
      rw [List.dropWhile_cons_of_neg (by decide), nextToken, readNumeral_toDigits, Option.map_some]
      simp only [Numeral.value]
      rw [digitsValue_toDigits]
      simp [hfits, Int.negSucc_eq]

/-! ## Arrays and records -/

section Tokens

variable {cs more blanks : List Char} {ts us : List Token}

theorem Tokenizes.after_blanks (hblanks : ∀ c ∈ blanks, isGap c = true) (h : Tokenizes cs ts) :
    Tokenizes (blanks ++ cs) ts := by
  have hdrop : (blanks ++ cs).dropWhile isGap = cs.dropWhile isGap := by
    rw [List.dropWhile_append, List.dropWhile_eq_nil_iff.2 hblanks]
    rfl
  cases h with
  | nil hnil => exact .nil (hdrop.trans hnil)
  | cons hnext hrest => exact .cons (hdrop ▸ hnext) hrest

theorem Tokenizes.mark {c : Char} {t : Token} (hc : isGap c = false)
    (ht : nextToken (c :: cs) = some (t, cs)) (h : Tokenizes cs ts) :
    Tokenizes (c :: cs) (t :: ts) := by
  refine .cons ?_ h
  rw [List.dropWhile_cons_of_neg (by simp [hc])]
  exact ht

theorem Holds.after_blanks {j : Json} (hblanks : ∀ c ∈ blanks, isGap c = true) (h : Holds cs j) :
    Holds (blanks ++ cs) j := by
  obtain ⟨ts, hts, hfold⟩ := h
  exact ⟨ts, hts.after_blanks hblanks, hfold⟩

/-- The text holds these values with commas between them. -/
def HoldsItems (cs : List Char) (js : List Json) : Prop :=
  ∃ ts, Tokenizes cs ts ∧ ∀ items stack,
    ts.foldlM Progress.step ⟨.array items :: stack, .value⟩ =
      some ⟨.array (js.reverse ++ items) :: stack, .next⟩

theorem Holds.items {j : Json} (h : Holds cs j) : HoldsItems cs [j] := by
  obtain ⟨ts, hts, hfold⟩ := h
  exact ⟨ts, hts, fun items stack => hfold (.array items :: stack)⟩

theorem HoldsItems.append {js ks : List Json} (h : HoldsItems cs js) (hmore : HoldsItems more ks) :
    HoldsItems (cs ++ ',' :: more) (js ++ ks) := by
  obtain ⟨ts, hts, hfold⟩ := h
  obtain ⟨us, hus, hrest⟩ := hmore
  refine ⟨ts ++ .comma :: us, hts.append ?_ (hus.mark rfl rfl), fun items stack => ?_⟩
  · rw [ends_cons]
    decide
  · rw [List.foldlM_append, hfold, Option.bind_eq_bind, Option.bind_some, List.foldlM_cons]
    refine (hrest (js.reverse ++ items) stack).trans ?_
    simp

/-- The first item of an array is read as any other. -/
theorem foldlM_firstItem {stack stack' : List Frame}
    (h : ts.foldlM Progress.step ⟨stack, .value⟩ = some ⟨stack', .next⟩) :
    ts.foldlM Progress.step ⟨stack, .firstItem⟩ = some ⟨stack', .next⟩ := by
  cases ts with
  | nil => cases h
  | cons t ts =>
      have ht : t ≠ .closeArray := by
        rintro rfl
        cases h
      rwa [List.foldlM_cons, Progress.step_firstItem ht, ← Progress.step_value, ← List.foldlM_cons]

theorem HoldsItems.array {js : List Json} (h : HoldsItems cs js)
    (hblanks : ∀ c ∈ blanks, isGap c = true) (hends : Ends (blanks ++ [']'])) :
    Holds ('[' :: (cs ++ (blanks ++ [']']))) (.array js) := by
  obtain ⟨ts, hts, hfold⟩ := h
  have hclose : Tokenizes [']'] [.closeArray] := tokenizes_single rfl
  refine ⟨.openArray :: (ts ++ [.closeArray]),
    (hts.append hends (hclose.after_blanks hblanks)).mark rfl rfl, fun stack => ?_⟩
  have hopen : Progress.step ⟨stack, .value⟩ .openArray = some ⟨.array [] :: stack, .firstItem⟩ :=
    rfl
  rw [List.foldlM_cons, hopen, Option.bind_eq_bind, Option.bind_some, List.foldlM_append,
    foldlM_firstItem (hfold [] stack), Option.bind_eq_bind, Option.bind_some, List.append_nil]
  have hclosed : Progress.step ⟨.array js.reverse :: stack, .next⟩ .closeArray =
      some (.give stack (.array js.reverse.reverse)) := rfl
  rw [List.foldlM_cons, hclosed, List.reverse_reverse]
  rfl

/-- The text holds these fields with commas between them. -/
def HoldsFields (cs : List Char) (fs : List (String × Json)) : Prop :=
  ∃ ts, Tokenizes cs ts ∧ ∀ fields name stack, ∃ last,
    ts.foldlM Progress.step ⟨.record fields name :: stack, .name⟩ =
      some ⟨.record ((fs.map fun f => (some f.1, f.2)).reverse ++ fields) last :: stack, .next⟩

theorem HoldsFields.single {k : String} {j : Json} {named : List Char}
    (hnamed : Tokenizes named [.text (some k)]) (h : Holds cs j) :
    HoldsFields (named ++ ':' :: cs) [(k, j)] := by
  obtain ⟨ts, hts, hfold⟩ := h
  refine ⟨.text (some k) :: .colon :: ts, hnamed.append ?_ (hts.mark rfl rfl),
    fun fields name stack => ⟨some k, ?_⟩⟩
  · rw [ends_cons]
    decide
  · exact hfold (.record fields (some k) :: stack)

theorem HoldsFields.append {fs gs : List (String × Json)} (h : HoldsFields cs fs)
    (hmore : HoldsFields more gs) : HoldsFields (cs ++ ',' :: more) (fs ++ gs) := by
  obtain ⟨ts, hts, hfold⟩ := h
  obtain ⟨us, hus, hrest⟩ := hmore
  refine ⟨ts ++ .comma :: us, hts.append ?_ (hus.mark rfl rfl), fun fields name stack => ?_⟩
  · rw [ends_cons]
    decide
  · obtain ⟨last, hlast⟩ := hfold fields name stack
    obtain ⟨last', hlast'⟩ :=
      hrest ((fs.map fun f => (some f.1, f.2)).reverse ++ fields) last stack
    refine ⟨last', ?_⟩
    rw [List.foldlM_append, hlast, Option.bind_eq_bind, Option.bind_some, List.foldlM_cons]
    refine Eq.trans hlast' ?_
    simp

theorem foldlM_firstName {stack stack' : List Frame}
    (h : ts.foldlM Progress.step ⟨stack, .name⟩ = some ⟨stack', .next⟩) :
    ts.foldlM Progress.step ⟨stack, .firstName⟩ = some ⟨stack', .next⟩ := by
  cases ts with
  | nil => cases h
  | cons t ts =>
      have ht : t ≠ .closeRecord := by
        rintro rfl
        cases h
      rwa [List.foldlM_cons, Progress.step_firstName ht, ← Progress.step_name, ← List.foldlM_cons]

theorem closedRecord_reverse (fs : List (String × Json)) :
    closedRecord (fs.map fun f => (some f.1, f.2)).reverse = .record fs := by
  have hnames : (fs.map fun f => ((some f.1, f.2) : Option String × Json)).mapM
      (fun f => f.1.map (·, f.2)) = some fs := by
    induction fs with
    | nil => rfl
    | cons f fs ih =>
        rw [List.map_cons, List.mapM_cons, ih]
        rfl
  unfold closedRecord
  rw [List.reverse_reverse]
  split
  · rename_i fs' heq
    cases hnames.symm.trans heq
    rfl
  · rename_i heq
    cases hnames.symm.trans heq

theorem HoldsFields.record {fs : List (String × Json)} (h : HoldsFields cs fs)
    (hblanks : ∀ c ∈ blanks, isGap c = true) (hends : Ends (blanks ++ ['\x7d'])) :
    Holds ('\x7b' :: (cs ++ (blanks ++ ['\x7d']))) (.record fs) := by
  obtain ⟨ts, hts, hfold⟩ := h
  have hclose : Tokenizes ['\x7d'] [.closeRecord] := tokenizes_single rfl
  refine ⟨.openRecord :: (ts ++ [.closeRecord]),
    (hts.append hends (hclose.after_blanks hblanks)).mark rfl rfl, fun stack => ?_⟩
  obtain ⟨last, hlast⟩ := hfold [] none stack
  have hopen : Progress.step ⟨stack, .value⟩ .openRecord =
      some ⟨.record [] none :: stack, .firstName⟩ := rfl
  rw [List.foldlM_cons, hopen, Option.bind_eq_bind, Option.bind_some, List.foldlM_append,
    foldlM_firstName hlast, Option.bind_eq_bind, Option.bind_some, List.append_nil]
  have hclosed : ∀ fields, Progress.step ⟨.record fields last :: stack, .next⟩ .closeRecord =
      some (.give stack (closedRecord fields)) := fun _ => rfl
  rw [List.foldlM_cons, hclosed, closedRecord_reverse]
  rfl

end Tokens

/-! ## Any value -/

mutual

/-- The value can be read back: its whole numbers fit 64 bits, its floats are read back alone, and
all of it has a text. -/
def IsPrintable : Json → Prop
  | null => True
  | bool _ => True
  | int n => IsWhole n
  | float x => read? (floatText x) = some (.float x)
  | text _ => True
  | array items => ArePrintable items
  | record fields => ArePrintableFields fields
  | unreadable => False

def ArePrintable : List Json → Prop
  | [] => True
  | j :: js => IsPrintable j ∧ ArePrintable js

def ArePrintableFields : List (String × Json) → Prop
  | [] => True
  | (_, j) :: fs => IsPrintable j ∧ ArePrintableFields fs

end

theorem indent_blank (depth : Nat) : ∀ c ∈ (indent depth).toList, isGap c = true := by
  intro c hc
  rw [indent, String.toList_append, List.mem_append] at hc
  rcases hc with hc | hc
  · obtain rfl : c = '\n' := List.mem_singleton.1 hc
    rfl
  · rw [String.toList_ofList] at hc
    obtain rfl : c = ' ' := List.eq_of_mem_replicate hc
    rfl

theorem ends_indent (depth : Nat) (cs : List Char) : Ends ((indent depth).toList ++ cs) := by
  rw [indent, String.toList_append, List.append_assoc]
  exact ends_cons.2 (by decide)

mutual

theorem holds_prettyAt (depth : Nat) (j : Json) (h : j.IsPrintable) :
    Holds (prettyAt depth j).toList j := by
  match j with
  | null =>
      rw [prettyAt]
      exact holds_scalar rfl
  | bool b =>
      rw [prettyAt]
      cases b
      · exact holds_scalar rfl
      · exact holds_scalar rfl
  | int n =>
      rw [prettyAt]
      exact holds_int h
  | float x =>
      rw [prettyAt]
      exact read?_eq_some.1 h
  | text s =>
      rw [prettyAt]
      exact holds_quote s
  | array [] =>
      rw [prettyAt]
      exact ⟨[.openArray, .closeArray], tokens?_eq_some.1 rfl, fun _ => rfl⟩
  | array (j :: js) =>
      have hitems := holds_prettyItems (depth + 1) (j :: js) (List.cons_ne_nil _ _) h
      have hclosed := hitems.array (indent_blank depth) (ends_indent depth _)
      rw [prettyAt]
      · simpa using hclosed
      · exact nofun
  | record [] =>
      rw [prettyAt]
      exact ⟨[.openRecord, .closeRecord], tokens?_eq_some.1 rfl, fun _ => rfl⟩
  | record ((k, j) :: fs) =>
      have hfields := holds_prettyFields (depth + 1) ((k, j) :: fs) (List.cons_ne_nil _ _) h
      have hclosed := hfields.record (indent_blank depth) (ends_indent depth _)
      rw [prettyAt]
      · simpa using hclosed
      · exact nofun
  | unreadable => exact h.elim

theorem holds_prettyItems (depth : Nat) (js : List Json) (hne : js ≠ []) (h : ArePrintable js) :
    HoldsItems (prettyItems depth js).toList js := by
  match js with
  | [] => exact absurd rfl hne
  | [j] =>
      have hhere := (holds_prettyAt depth j h.1).after_blanks (indent_blank depth)
      rw [prettyItems, String.toList_append]
      exact hhere.items
  | j :: j' :: js =>
      have hhere := (holds_prettyAt depth j h.1).after_blanks (indent_blank depth)
      have hmore := holds_prettyItems depth (j' :: js) (List.cons_ne_nil _ _) h.2
      have hall := hhere.items.append hmore
      rw [prettyItems]
      · simpa using hall
      · exact nofun

theorem holds_prettyFields (depth : Nat) (fs : List (String × Json)) (hne : fs ≠ [])
    (h : ArePrintableFields fs) : HoldsFields (prettyFields depth fs).toList fs := by
  have hspace : ∀ c ∈ [' '], isGap c = true := by simp [isGap]
  match fs with
  | [] => exact absurd rfl hne
  | [(k, j)] =>
      have hhere := HoldsFields.single ((tokenizes_quote k).after_blanks (indent_blank depth))
        ((holds_prettyAt depth j h.1).after_blanks hspace)
      rw [prettyFields]
      simpa using hhere
  | (k, j) :: (k', j') :: fs =>
      have hhere := HoldsFields.single ((tokenizes_quote k).after_blanks (indent_blank depth))
        ((holds_prettyAt depth j h.1).after_blanks hspace)
      have hmore := holds_prettyFields depth ((k', j') :: fs) (List.cons_ne_nil _ _) h.2
      have hall := hhere.append hmore
      rw [prettyFields]
      · simpa using hall
      · exact nofun

end

/-- What can be read back is read back from its indented text. -/
theorem read?_pretty {j : Json} (h : j.IsPrintable) : read? j.pretty = some j :=
  read?_eq_some.2 (holds_prettyAt 0 j h)

end CodeIndex.Json

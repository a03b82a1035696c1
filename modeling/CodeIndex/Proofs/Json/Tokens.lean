import CodeIndex.Json.Reader
import Mathlib.Data.List.Basic
/-!
# Tokens of joined texts

The tokens of two texts that are joined are those of the first and those of the second, unless a
number at the end of the first goes on in the second.
-/

namespace CodeIndex.Json

/-! ## Single tokens -/

/-- A number does not go on here. -/
def Ends (cs : List Char) : Prop :=
  ∀ c ∈ cs.head?, c.isDigit = false ∧ c ≠ '.' ∧ c ≠ 'e' ∧ c ≠ 'E'

theorem ends_cons {c : Char} {cs : List Char} :
    Ends (c :: cs) ↔ c.isDigit = false ∧ c ≠ '.' ∧ c ≠ 'e' ∧ c ≠ 'E' := by
  simp [Ends]

variable {cs rest more : List Char}

theorem takeWhile_of_ends (hmore : Ends more) : more.takeWhile Char.isDigit = [] := by
  cases more with
  | nil => rfl
  | cons c cs => exact List.takeWhile_cons_of_neg (by simp [(ends_cons.1 hmore).1])

theorem dropWhile_of_ends (hmore : Ends more) : more.dropWhile Char.isDigit = more := by
  cases more with
  | nil => rfl
  | cons c cs => exact List.dropWhile_cons_of_neg (by simp [(ends_cons.1 hmore).1])

theorem leadingDigits_append (hmore : Ends more) (cs : List Char) :
    leadingDigits (cs ++ more) = leadingDigits cs := by
  unfold leadingDigits
  rw [List.takeWhile_append]
  split
  · rename_i hall
    rw [takeWhile_of_ends hmore, List.append_nil,
      List.takeWhile_prefix (p := Char.isDigit) (l := cs) |>.eq_of_length hall]
  · rfl

theorem afterDigits_append (hmore : Ends more) (cs : List Char) :
    afterDigits (cs ++ more) = afterDigits cs ++ more := by
  unfold afterDigits
  rw [List.dropWhile_append]
  split
  · rename_i hnone
    rw [dropWhile_of_ends hmore, List.isEmpty_iff.1 hnone, List.nil_append]
  · rfl

theorem readFraction_append (hmore : Ends more) {fraction : Option (List Nat)}
    (h : readFraction cs = some (fraction, rest)) :
    readFraction (cs ++ more) = some (fraction, rest ++ more) := by
  cases cs with
  | nil =>
      cases h
      cases more with
      | nil => rfl
      | cons c more =>
          rw [List.nil_append, readFraction]
          rintro _ heq
          exact (ends_cons.1 hmore).2.1 (List.cons.inj heq).1
  | cons c cs =>
      by_cases hpoint : c = '.'
      · subst hpoint
        rw [List.cons_append]
        rw [readFraction] at h ⊢
        rw [leadingDigits_append hmore, afterDigits_append hmore]
        split at h
        · cases h
        · rename_i hdigits
          cases h
          rw [if_neg hdigits]
      · have hnone : ∀ ds : List Char, readFraction (c :: ds) = some (none, c :: ds) := by
          intro ds
          rw [readFraction]
          rintro _ heq
          exact hpoint (List.cons.inj heq).1
        rw [hnone] at h
        cases h
        exact hnone _

/-- The digits of an exponent, and what follows. -/
def exponentDigits (down : Bool) (cs : List Char) :
    Option (Option (Bool × List Nat) × List Char) :=
  if (leadingDigits cs).isEmpty then none
  else some (some (down, leadingDigits cs), afterDigits cs)

theorem exponentDigits_append (hmore : Ends more) {down : Bool}
    {exponent : Option (Bool × List Nat)}
    (h : exponentDigits down cs = some (exponent, rest)) :
    exponentDigits down (cs ++ more) = some (exponent, rest ++ more) := by
  unfold exponentDigits at h ⊢
  rw [leadingDigits_append hmore, afterDigits_append hmore]
  split at h
  · cases h
  · rename_i hdigits
    cases h
    rw [if_neg hdigits]

theorem isDigit_of_exponentDigits {down : Bool} {exponent : Option (Bool × List Nat)}
    (h : exponentDigits down cs = some (exponent, rest)) :
    ∃ d ds, cs = d :: ds ∧ d.isDigit = true := by
  unfold exponentDigits leadingDigits at h
  cases cs with
  | nil => cases h
  | cons d ds =>
      refine ⟨d, ds, rfl, ?_⟩
      by_contra hdigit
      rw [List.takeWhile_cons_of_neg hdigit] at h
      cases h

theorem readExponent_signed {letter sign : Char} (hletter : letter = 'e' ∨ letter = 'E')
    (hsign : sign = '-' ∨ sign = '+') (cs : List Char) :
    readExponent (letter :: sign :: cs) = exponentDigits (sign == '-') cs := by
  rcases hletter with rfl | rfl <;> rcases hsign with rfl | rfl <;> rfl

theorem readExponent_unsigned {letter : Char} (hletter : letter = 'e' ∨ letter = 'E')
    (hsign : ∀ c ∈ cs.head?, c ≠ '-' ∧ c ≠ '+') :
    readExponent (letter :: cs) = exponentDigits false cs := by
  cases cs with
  | nil => rcases hletter with rfl | rfl <;> rfl
  | cons c cs =>
      obtain ⟨hminus, hplus⟩ := hsign c rfl
      rcases hletter with rfl | rfl <;> unfold readExponent exponentDigits <;> simp [hminus, hplus]

theorem readExponent_none (hletter : ∀ c ∈ cs.head?, c ≠ 'e' ∧ c ≠ 'E') :
    readExponent cs = some (none, cs) := by
  cases cs with
  | nil => rfl
  | cons c cs =>
      obtain ⟨hlower, hupper⟩ := hletter c rfl
      unfold readExponent
      simp [hlower, hupper]

theorem readExponent_append (hmore : Ends more) {exponent : Option (Bool × List Nat)}
    (h : readExponent cs = some (exponent, rest)) :
    readExponent (cs ++ more) = some (exponent, rest ++ more) := by
  by_cases hletter : ∃ letter cs', cs = letter :: cs' ∧ (letter = 'e' ∨ letter = 'E')
  · obtain ⟨letter, cs', rfl, hletter⟩ := hletter
    rw [List.cons_append]
    by_cases hsign : ∃ sign cs'', cs' = sign :: cs'' ∧ (sign = '-' ∨ sign = '+')
    · obtain ⟨sign, cs'', rfl, hsign⟩ := hsign
      rw [readExponent_signed hletter hsign] at h
      rw [List.cons_append, readExponent_signed hletter hsign]
      exact exponentDigits_append hmore h
    · have hunsigned : ∀ c ∈ cs'.head?, c ≠ '-' ∧ c ≠ '+' := by
        intro c hc
        obtain ⟨cs'', rfl⟩ := List.head?_eq_some_iff.1 hc
        exact ⟨fun heq => hsign ⟨c, cs'', rfl, Or.inl heq⟩,
          fun heq => hsign ⟨c, cs'', rfl, Or.inr heq⟩⟩
      rw [readExponent_unsigned hletter hunsigned] at h
      obtain ⟨d, ds, rfl, -⟩ := isDigit_of_exponentDigits h
      have hfirst : ∀ c ∈ (d :: ds ++ more).head?, c ≠ '-' ∧ c ≠ '+' := hunsigned
      rw [readExponent_unsigned hletter hfirst]
      exact exponentDigits_append hmore h
  · have hother : ∀ c ∈ (cs ++ more).head?, c ≠ 'e' ∧ c ≠ 'E' := by
      cases cs with
      | nil => exact fun c hc => (hmore c hc).2.2
      | cons d ds =>
          rintro _ ⟨⟩
          exact ⟨fun heq => hletter ⟨d, ds, rfl, Or.inl heq⟩,
            fun heq => hletter ⟨d, ds, rfl, Or.inr heq⟩⟩
    have hhere : ∀ c ∈ cs.head?, c ≠ 'e' ∧ c ≠ 'E' := by
      cases cs with
      | nil => exact nofun
      | cons d ds => exact hother
    rw [readExponent_none hhere] at h
    cases h
    exact readExponent_none hother

/-- A number is read from left to right. -/
theorem readNumeral_eq_some {negative : Bool} {n : Numeral} :
    readNumeral negative cs = some (n, rest) ↔
      ((leadingDigits cs).isEmpty || ((leadingDigits cs).head? == some 0 &&
        decide (1 < (leadingDigits cs).length))) = false ∧
      ∃ fraction afterFraction exponent,
        readFraction (afterDigits cs) = some (fraction, afterFraction) ∧
        readExponent afterFraction = some (exponent, rest) ∧
        n = ⟨negative, leadingDigits cs, fraction.getD [], exponent,
          fraction.isSome || exponent.isSome⟩ := by
  unfold readNumeral
  dsimp only
  split
  · rename_i hbad
    rw [hbad]
    simp
  · rename_i hgood
    rw [Bool.not_eq_true] at hgood
    rw [hgood]
    simp only [Option.bind_eq_bind, Option.bind_eq_some_iff, Prod.exists, pure]
    constructor
    · rintro ⟨fraction, afterFraction, hfraction, exponent, rest', hexponent, heq⟩
      cases heq
      exact ⟨trivial, fraction, afterFraction, exponent, hfraction, hexponent, rfl⟩
    · rintro ⟨-, fraction, afterFraction, exponent, hfraction, hexponent, rfl⟩
      exact ⟨fraction, afterFraction, hfraction, exponent, rest, hexponent, rfl⟩

theorem readNumeral_append (hmore : Ends more) {negative : Bool} {n : Numeral}
    (h : readNumeral negative cs = some (n, rest)) :
    readNumeral negative (cs ++ more) = some (n, rest ++ more) := by
  obtain ⟨hwhole, fraction, afterFraction, exponent, hfraction, hexponent, rfl⟩ :=
    readNumeral_eq_some.1 h
  have hwhole' := leadingDigits_append hmore cs
  refine readNumeral_eq_some.2 ⟨hwhole' ▸ hwhole, fraction, afterFraction ++ more, exponent, ?_,
    readExponent_append hmore hexponent, by rw [hwhole']⟩
  rw [afterDigits_append hmore]
  exact readFraction_append hmore hfraction

/-- An escape of one letter, which is not that of four digits. -/
theorem readUnits_escape {e c : Char} (hescape : simpleEscape e = some c) (cs : List Char) :
    readUnits ('\\' :: e :: cs) =
      (readUnits cs).map fun (units, rest) => (c.toNat :: units, rest) := by
  have hletter : e ≠ 'u' := by
    rintro rfl
    cases hescape
  rw [readUnits]
  · rw [hescape]
    cases readUnits cs with
    | none => rfl
    | some read => rfl
  · rintro a b c d cs' heq
    exact absurd heq hletter

theorem readUnits_plain {c : Char} (hquote : c ≠ '"') (hslash : c ≠ '\\') (hcontrol : 32 ≤ c.toNat)
    (cs : List Char) :
    readUnits (c :: cs) = (readUnits cs).map fun (units, rest) => (c.toNat :: units, rest) := by
  rw [readUnits]
  · rw [if_neg]
    simp [hslash, hcontrol]
  · exact hquote
  · exact fun _ _ _ _ _ heq => absurd heq hslash
  · exact fun _ _ heq => absurd heq hslash

theorem readUnits_append {units : List Nat} (h : readUnits cs = some (units, rest))
    (more : List Char) : readUnits (cs ++ more) = some (units, rest ++ more) := by
  fun_induction readUnits cs generalizing units rest with
  | case1 => cases h
  | case2 cs =>
      cases h
      rfl
  | case3 a b c d cs n ns rest' hrest hunit ih =>
      cases h
      simp only [List.cons_append]
      rw [readUnits, hunit, ih hrest]
  | case4 a b c d cs hnone => cases h
  | case5 e cs hshort c ns rest' hrest hescape ih =>
      cases h
      rw [List.cons_append, List.cons_append, readUnits_escape hescape, ih hrest]
      rfl
  | case6 e cs hshort hnone => cases h
  | case7 c cs hquote hlong hescape hbad => cases h
  | case8 c cs hquote hlong hescape hgood ih =>
      obtain ⟨⟨ns, rest'⟩, hrest, heq⟩ := Option.map_eq_some_iff.1 h
      cases heq
      rw [Bool.or_eq_true, not_or, decide_eq_true_eq, beq_iff_eq] at hgood
      rw [List.cons_append, readUnits_plain hquote hgood.2 (Nat.le_of_not_lt hgood.1), ih hrest]
      rfl

theorem isDigit_of_readNumeral {negative : Bool} {n : Numeral}
    (h : readNumeral negative cs = some (n, rest)) : ∃ d ds, cs = d :: ds ∧ d.isDigit = true := by
  have hwhole := (readNumeral_eq_some.1 h).1
  unfold leadingDigits at hwhole
  cases cs with
  | nil => cases hwhole
  | cons d ds =>
      refine ⟨d, ds, rfl, ?_⟩
      by_contra hdigit
      rw [List.takeWhile_cons_of_neg hdigit] at hwhole
      cases hwhole

theorem nextToken_digit {d : Char} (hd : d.isDigit = true) (cs : List Char) :
    nextToken (d :: cs) =
      (readNumeral false (d :: cs)).map fun (n, rest) => (.scalar n.value, rest) := by
  unfold nextToken
  split
  case h_12 => rfl
  all_goals
    rename_i heq
    cases heq
    exact absurd hd (by decide)

theorem nextToken_append (hmore : Ends more) {t : Token} (h : nextToken cs = some (t, rest)) :
    nextToken (cs ++ more) = some (t, rest ++ more) := by
  unfold nextToken at h
  split at h
  case h_7 cs =>
    obtain ⟨⟨units, rest'⟩, hunits, heq⟩ := Option.map_eq_some_iff.1 h
    cases heq
    rw [List.cons_append, nextToken, readUnits_append hunits]
    rfl
  case h_11 cs =>
    obtain ⟨⟨n, rest'⟩, hnumeral, heq⟩ := Option.map_eq_some_iff.1 h
    cases heq
    rw [List.cons_append, nextToken, readNumeral_append hmore hnumeral]
    rfl
  case h_12 =>
    obtain ⟨⟨n, rest'⟩, hnumeral, heq⟩ := Option.map_eq_some_iff.1 h
    cases heq
    obtain ⟨d, ds, rfl, hd⟩ := isDigit_of_readNumeral hnumeral
    rw [List.cons_append, nextToken_digit hd, ← List.cons_append, readNumeral_append hmore hnumeral]
    rfl
  all_goals
    cases h
    rfl

/-! ## Every token takes a character -/

theorem length_afterDigits_le (cs : List Char) : (afterDigits cs).length ≤ cs.length :=
  (List.dropWhile_sublist _).length_le

theorem length_readFraction {fraction : Option (List Nat)}
    (h : readFraction cs = some (fraction, rest)) : rest.length ≤ cs.length := by
  unfold readFraction at h
  split at h
  · rename_i cs
    split at h
    · cases h
    · cases h
      have hle := length_afterDigits_le cs
      rw [List.length_cons]
      omega
  · cases h
    exact Nat.le_refl _

theorem length_exponentDigits {down : Bool} {exponent : Option (Bool × List Nat)}
    (h : exponentDigits down cs = some (exponent, rest)) : rest.length ≤ cs.length := by
  unfold exponentDigits at h
  split at h
  · cases h
  · cases h
    exact length_afterDigits_le cs

theorem length_readExponent {exponent : Option (Bool × List Nat)}
    (h : readExponent cs = some (exponent, rest)) : rest.length ≤ cs.length := by
  unfold readExponent at h
  dsimp only at h
  split at h
  case h_7 =>
    cases h
    exact Nat.le_refl _
  all_goals
    have hle := length_exponentDigits h
    simp only [List.length_cons]
    omega

theorem length_readNumeral {negative : Bool} {n : Numeral}
    (h : readNumeral negative cs = some (n, rest)) : rest.length < cs.length := by
  obtain ⟨d, ds, rfl, hd⟩ := isDigit_of_readNumeral h
  obtain ⟨-, fraction, afterFraction, exponent, hfraction, hexponent, -⟩ := readNumeral_eq_some.1 h
  have hafter : afterDigits (d :: ds) = afterDigits ds := List.dropWhile_cons_of_pos hd
  rw [hafter] at hfraction
  have hle := length_afterDigits_le ds
  have hle' := length_readFraction hfraction
  have hle'' := length_readExponent hexponent
  rw [List.length_cons]
  omega

theorem length_readUnits {units : List Nat} (h : readUnits cs = some (units, rest)) :
    rest.length < cs.length := by
  fun_induction readUnits cs generalizing units rest with
  | case1 => cases h
  | case2 cs =>
      cases h
      exact Nat.lt_succ_self _
  | case3 a b c d cs n ns rest' hrest hunit ih =>
      cases h
      have hlt := ih hrest
      simp only [List.length_cons]
      omega
  | case4 a b c d cs hnone => cases h
  | case5 e cs hshort c ns rest' hrest hescape ih =>
      cases h
      have hlt := ih hrest
      simp only [List.length_cons]
      omega
  | case6 e cs hshort hnone => cases h
  | case7 c cs hquote hlong hescape hbad => cases h
  | case8 c cs hquote hlong hescape hgood ih =>
      obtain ⟨⟨ns, rest'⟩, hrest, heq⟩ := Option.map_eq_some_iff.1 h
      cases heq
      have hlt := ih hrest
      rw [List.length_cons]
      omega

theorem length_nextToken {t : Token} (h : nextToken cs = some (t, rest)) :
    rest.length < cs.length := by
  unfold nextToken at h
  split at h
  case h_7 cs =>
    obtain ⟨⟨units, rest'⟩, hunits, heq⟩ := Option.map_eq_some_iff.1 h
    cases heq
    exact Nat.lt_succ_of_lt (length_readUnits hunits)
  case h_11 cs =>
    obtain ⟨⟨n, rest'⟩, hnumeral, heq⟩ := Option.map_eq_some_iff.1 h
    cases heq
    exact Nat.lt_succ_of_lt (length_readNumeral hnumeral)
  case h_12 =>
    obtain ⟨⟨n, rest'⟩, hnumeral, heq⟩ := Option.map_eq_some_iff.1 h
    cases heq
    exact length_readNumeral hnumeral
  all_goals
    cases h
    simp only [List.length_cons]
    omega

/-! ## All tokens -/

/-- The tokens of a text, taken off one by one. -/
inductive Tokenizes : List Char → List Token → Prop where
  | nil {cs : List Char} (h : cs.dropWhile isGap = []) : Tokenizes cs []
  | cons {cs rest : List Char} {t : Token} {ts : List Token}
      (h : nextToken (cs.dropWhile isGap) = some (t, rest)) (hrest : Tokenizes rest ts) :
      Tokenizes cs (t :: ts)

theorem tokenizes_of_tokensFrom {fuel : Nat} {ts : List Token}
    (h : tokensFrom fuel cs = some ts) : Tokenizes cs ts := by
  induction fuel generalizing cs ts with
  | zero =>
      unfold tokensFrom at h
      split at h
      · rename_i hnil
        cases h
        exact .nil hnil
      · cases h
      · rename_i heq _
        cases heq
  | succ fuel ih =>
      unfold tokensFrom at h
      split at h
      · rename_i hnil
        cases h
        exact .nil hnil
      · rename_i heq _
        cases heq
      · rename_i fuel' _ heq hcons
        cases heq
        obtain ⟨⟨t, rest⟩, hnext, hmore⟩ := Option.bind_eq_some_iff.1 h
        obtain ⟨ts', hrest, hts⟩ := Option.bind_eq_some_iff.1 hmore
        cases hts
        exact .cons hnext (ih hrest)

theorem tokensFrom_of_tokenizes {ts : List Token} (h : Tokenizes cs ts) {fuel : Nat}
    (hfuel : cs.length ≤ fuel) : tokensFrom fuel cs = some ts := by
  induction h generalizing fuel with
  | nil hnil =>
      unfold tokensFrom
      rw [hnil]
  | @cons cs rest t ts hnext hrest ih =>
      have hlt := length_nextToken hnext
      have hle := (List.dropWhile_sublist (l := cs) isGap).length_le
      obtain ⟨fuel, rfl⟩ : ∃ n, fuel = n + 1 := ⟨fuel - 1, by omega⟩
      have hrest : tokensFrom fuel rest = some ts := ih (by omega)
      cases hgap : cs.dropWhile isGap with
      | nil =>
          rw [hgap] at hnext
          cases hnext
      | cons c ds =>
          rw [hgap] at hnext
          unfold tokensFrom
          rw [hgap]
          dsimp only
          rw [hnext]
          dsimp only [Option.bind_eq_bind, Option.bind_some]
          rw [hrest]
          rfl

/-- As many tokens as characters are enough. -/
theorem tokens?_eq_some {ts : List Token} : tokens? cs = some ts ↔ Tokenizes cs ts :=
  ⟨tokenizes_of_tokensFrom, fun h => tokensFrom_of_tokenizes h (Nat.le_refl _)⟩

theorem Tokenizes.append {ts us : List Token} (hcs : Tokenizes cs ts) (hends : Ends more)
    (hmore : Tokenizes more us) : Tokenizes (cs ++ more) (ts ++ us) := by
  induction hcs with
  | @nil cs hnil =>
      have hgap : (cs ++ more).dropWhile isGap = more.dropWhile isGap := by
        rw [List.dropWhile_append, hnil]
        rfl
      cases hmore with
      | nil h => exact .nil (hgap.trans h)
      | cons h hrest => exact .cons (hgap ▸ h) hrest
  | @cons cs rest t ts hnext hrest ih =>
      refine .cons ?_ ih
      have hne : cs.dropWhile isGap ≠ [] := by
        intro hnil
        rw [hnil] at hnext
        cases hnext
      rw [List.dropWhile_append, if_neg (by simpa using hne)]
      exact nextToken_append hends hnext

end CodeIndex.Json

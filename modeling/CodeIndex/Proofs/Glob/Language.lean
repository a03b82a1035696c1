import CodeIndex.Glob.Match
import Mathlib.Computability.Language
/-!
# What patterns match

Every part of a pattern stands for a language, and a pattern for the product of its parts. The
verdicts that the parts hand on are exact: an end of a text is accepted when it belongs to the
language of what is left of the pattern.
-/

namespace CodeIndex.Glob

/-! ## Languages of parts -/

/-- The texts of one byte that `ok` admits. -/
def one (ok : UInt8 → Bool) : Language UInt8 :=
  {u : List UInt8 | ∃ b, u = [b] ∧ ok b = true}

/-- The texts of bytes that `ok` admits. -/
def many (ok : UInt8 → Bool) : Language UInt8 :=
  {u : List UInt8 | ∀ b ∈ u, ok b = true}

/-- The text and no other. -/
def exactly (w : List UInt8) : Language UInt8 :=
  {u : List UInt8 | u = w}

/-- A wildcard may stand for the byte. -/
def wild (slashes : Slashes) (b : UInt8) : Bool :=
  !(slashes = .literal ∧ b = slash)

/-- Any directories with the slashes after them, or none. -/
def directories : Language UInt8 :=
  1 + many (fun _ => true) * one (· == slash)

mutual

def partLanguage (slashes : Slashes) (p : GlobPart) : Language UInt8 :=
  match p with
  | .char c => exactly (bytesOf c)
  | .any => one (wild slashes)
  | .star => many (wild slashes)
  | .anyStart => directories
  | .anyEnd => one (· == slash) * many fun _ => true
  | .anyMiddle => one (· == slash) * directories
  | .oneOf negated ranges => one fun b => ranges.any (rangeHas · b) != negated
  | .either alternatives =>
    if allVoid alternatives then 1 else eitherLanguage slashes alternatives

def partsLanguage (slashes : Slashes) (ps : List GlobPart) : Language UInt8 :=
  match ps with
  | [] => 1
  | p :: ps => partLanguage slashes p * partsLanguage slashes ps

/-- An alternative that can match nothing is no alternative. -/
def eitherLanguage (slashes : Slashes) (alternatives : List (List GlobPart)) :
    Language UInt8 :=
  match alternatives with
  | [] => 0
  | ps :: rest =>
    (if partsVoid ps then 0 else partsLanguage slashes ps) + eitherLanguage slashes rest

end

theorem mem_one_mul {ok : UInt8 → Bool} {L : Language UInt8} {u : List UInt8} :
    u ∈ one ok * L ↔ ∃ b w, u = b :: w ∧ ok b = true ∧ w ∈ L := by
  rw [Language.mem_mul]
  constructor
  · rintro ⟨v, ⟨b, rfl, hb⟩, w, hw, rfl⟩
    exact ⟨b, w, rfl, hb, hw⟩
  · rintro ⟨b, w, rfl, hb, hw⟩
    exact ⟨[b], ⟨b, rfl, hb⟩, w, hw, rfl⟩

theorem nil_mem_many_mul {ok : UInt8 → Bool} {L : Language UInt8} :
    [] ∈ many ok * L ↔ [] ∈ L := by
  rw [Language.mem_mul]
  constructor
  · rintro ⟨v, -, w, hw, hnil⟩
    rw [List.append_eq_nil_iff] at hnil
    rwa [hnil.2] at hw
  · intro h
    exact ⟨[], fun b hb => absurd hb List.not_mem_nil, [], h, rfl⟩

theorem cons_mem_many_mul {ok : UInt8 → Bool} {L : Language UInt8} {b : UInt8}
    {bs : List UInt8} :
    b :: bs ∈ many ok * L ↔ b :: bs ∈ L ∨ ok b = true ∧ bs ∈ many ok * L := by
  constructor
  · intro h
    obtain ⟨v, hv, w, hw, hsplit⟩ := Language.mem_mul.1 h
    cases v with
    | nil =>
        left
        rwa [← hsplit]
    | cons c v =>
        rw [List.cons_append, List.cons.injEq] at hsplit
        obtain ⟨rfl, rfl⟩ := hsplit
        right
        have hrest : v ∈ many ok := fun x hx => hv x (List.mem_cons_of_mem c hx)
        exact ⟨hv c List.mem_cons_self, Language.append_mem_mul hrest hw⟩
  · rintro (h | ⟨hb, h⟩)
    · have hnil : [] ∈ many ok := fun x hx => absurd hx List.not_mem_nil
      exact Language.append_mem_mul hnil h
    · obtain ⟨v, hv, w, hw, rfl⟩ := Language.mem_mul.1 h
      have hcons : b :: v ∈ many ok := by
        intro x hx
        rcases List.mem_cons.1 hx with rfl | hx
        · exact hb
        · exact hv x hx
      exact Language.append_mem_mul hcons hw

/-! ## Verdicts -/

/-- The verdicts say of every end of a text whether it belongs to the language. -/
inductive Tells (L : Language UInt8) : List UInt8 → Verdicts → Prop where
  | nil {v : Bool} (h : v = true ↔ [] ∈ L) : Tells L [] [v]
  | cons {b : UInt8} {bs : List UInt8} {v : Bool} {vs : Verdicts}
      (h : v = true ↔ b :: bs ∈ L) (rest : Tells L bs vs) : Tells L (b :: bs) (v :: vs)

namespace Tells

variable {L M : Language UInt8} {bs : List UInt8} {vs ws : Verdicts}

theorem whole (h : Tells L bs vs) : vs.headD false = true ↔ bs ∈ L := by
  cases h with
  | nil h => exact h
  | cons h rest => exact h

theorem atEnd (bs : List UInt8) : Tells 1 bs (atEnd bs) := by
  induction bs with
  | nil => exact .nil (by simp)
  | cons b bs ih => exact .cons (by simp) ih

theorem none (h : Tells L bs vs) : Tells 0 bs (vs.map fun _ => false) := by
  induction h with
  | nil h => exact .nil (by simp)
  | cons h rest ih => exact .cons (by simp) ih

theorem orElse (h : Tells L bs vs) (h' : Tells M bs ws) : Tells (L + M) bs (orElse vs ws) := by
  induction h generalizing ws with
  | nil h =>
      cases h' with
      | nil h' => exact .nil (by rw [Bool.or_eq_true, h, h', Language.mem_add])
  | cons h rest ih =>
      cases h' with
      | cons h' rest' =>
          exact .cons (by rw [Bool.or_eq_true, h, h', Language.mem_add]) (ih rest')

theorem afterOne {ok : UInt8 → Bool} (h : Tells L bs vs) :
    Tells (one ok * L) bs (afterOne ok bs vs) := by
  induction h with
  | nil h =>
      refine .nil ?_
      rw [mem_one_mul]
      simp
  | @cons b bs v vs h rest ih =>
      refine .cons ?_ ih
      rw [Bool.and_eq_true, rest.whole, mem_one_mul]
      constructor
      · rintro ⟨hb, hmem⟩
        exact ⟨b, bs, rfl, hb, hmem⟩
      · rintro ⟨c, w, hsplit, hc, hw⟩
        rw [List.cons.injEq] at hsplit
        obtain ⟨rfl, rfl⟩ := hsplit
        exact ⟨hc, hw⟩

theorem afterMany {ok : UInt8 → Bool} (h : Tells L bs vs) :
    Tells (many ok * L) bs (afterMany ok bs vs) := by
  induction h with
  | nil h => exact .nil (by rw [h, nil_mem_many_mul])
  | cons h rest ih =>
      refine .cons ?_ ih
      rw [Bool.or_eq_true, Bool.and_eq_true, h, ih.whole, cons_mem_many_mul]

theorem afterBytes (as : List UInt8) (h : Tells L bs vs) :
    Tells (exactly as * L) bs (as.foldr (fun a vs => Glob.afterOne (· == a) bs vs) vs) := by
  induction as with
  | nil => exact (one_mul L).symm ▸ h
  | cons a as ih =>
      have hsplit : exactly (a :: as) = one (· == a) * exactly as := by
        ext u
        rw [mem_one_mul]
        constructor
        · rintro rfl
          exact ⟨a, as, rfl, beq_self_eq_true a, rfl⟩
        · rintro ⟨b, w, rfl, hb, rfl⟩
          rw [eq_of_beq hb]
          rfl
      rw [hsplit, mul_assoc]
      exact ih.afterOne

theorem afterDirectories (h : Tells L bs vs) :
    Tells (directories * L) bs (Glob.orElse vs (afterAll bs (afterSlash bs vs))) := by
  unfold directories
  rw [add_mul, one_mul, mul_assoc]
  exact h.orElse h.afterOne.afterMany

end Tells

mutual

theorem tells_part (slashes : Slashes) (p : GlobPart) {L : Language UInt8} {bs : List UInt8}
    {vs : Verdicts} (h : Tells L bs vs) :
    Tells (partLanguage slashes p * L) bs (runPart slashes bs p vs) := by
  match p with
  | .char c =>
      rw [partLanguage, runPart]
      exact h.afterBytes (bytesOf c)
  | .any =>
      rw [partLanguage, runPart]
      exact h.afterOne
  | .star =>
      rw [partLanguage, runPart]
      exact h.afterMany
  | .anyStart =>
      rw [partLanguage, runPart]
      exact h.afterDirectories
  | .anyEnd =>
      rw [partLanguage, runPart, mul_assoc]
      exact h.afterMany.afterOne
  | .anyMiddle =>
      rw [partLanguage, runPart, mul_assoc]
      exact h.afterDirectories.afterOne
  | .oneOf negated ranges =>
      rw [partLanguage, runPart]
      exact h.afterOne
  | .either alternatives =>
      rw [partLanguage, runPart]
      split
      · rw [one_mul]
        exact h
      · exact tells_either slashes alternatives h

theorem tells_parts (slashes : Slashes) (ps : List GlobPart) {L : Language UInt8}
    {bs : List UInt8} {vs : Verdicts} (h : Tells L bs vs) :
    Tells (partsLanguage slashes ps * L) bs (runParts slashes bs ps vs) := by
  match ps with
  | [] =>
      rw [partsLanguage, runParts, one_mul]
      exact h
  | p :: ps =>
      rw [partsLanguage, runParts, mul_assoc]
      exact tells_part slashes p (tells_parts slashes ps h)

theorem tells_either (slashes : Slashes) (alternatives : List (List GlobPart))
    {L : Language UInt8} {bs : List UInt8} {vs : Verdicts} (h : Tells L bs vs) :
    Tells (eitherLanguage slashes alternatives * L) bs
      (runEither slashes bs alternatives vs) := by
  match alternatives with
  | [] =>
      rw [eitherLanguage, runEither, zero_mul]
      exact h.none
  | ps :: rest =>
      have hrest := tells_either slashes rest h
      rw [eitherLanguage, runEither, add_mul]
      split
      · rw [zero_mul, zero_add]
        exact hrest
      · exact (tells_parts slashes ps h).orElse hrest

end

/-- A pattern matches the texts of its language. One that asks for a name does not match a path
to a parent directory, and two stars alone match everything. -/
theorem matchesBytes_iff {slashes : Slashes} {ps : List GlobPart} {path : List UInt8} :
    matchesBytes slashes ps path = true ↔
      ps = [.anyStart] ∨ path ∈ partsLanguage slashes ps ∧
        ¬ (endsInParent path = true ∧ needsName slashes ps = true) := by
  have hparts := (tells_parts slashes ps (Tells.atEnd path)).whole
  rw [mul_one] at hparts
  unfold matchesBytes
  split
  · simp
  · rename_i hstart
    rw [Bool.and_eq_true, hparts, Bool.not_eq_true', Bool.and_eq_false_iff, not_and_or]
    simp only [Bool.not_eq_true]
    constructor
    · exact Or.inr
    · intro h
      exact h.resolve_left hstart

end CodeIndex.Glob

import CodeIndex.Glob.Filter
import CodeIndex.Proofs.Glob.Language
import CodeIndex.Proofs.Text.Bytes
/-!
# Patterns that do not see the sample

Whether a directory is pruned is decided on a single made-up entry. The answer holds for all that
lies below the directory if the pattern cannot tell the made-up name from others. How far the
parts of a pattern can have come on the path of the entry is followed part by part, whatever the
directory; a pattern that has not begun to read the name when its last star begins does not see
it, and neither does one that cannot come to the end of the name.
-/

namespace CodeIndex.Glob

/-- The name of the made-up entry. -/
def sample : List UInt8 :=
  PathFilter.sampleEntry.toUTF8.toList

/-- The path of an entry of a directory. -/
def below (directory rest : List UInt8) : List UInt8 :=
  directory ++ slash :: rest

theorem slash_not_mem_sample : slash ∉ sample := by decide +kernel

/-! ## Spots -/

/-- How far on the path of the entry. -/
inductive Spot where
  /-- On the path of the directory. -/
  | above
  /-- Behind the slash and so many bytes of the name. -/
  | within (n : Nat)
  deriving Repr, DecidableEq

abbrev Spots := List Spot

def spots : Spots :=
  .above :: (List.range (sample.length + 1)).map .within

/-- The text is the path of the entry up to the spot. -/
def Spot.Ends (directory : List UInt8) (s : Spot) (a : List UInt8) : Prop :=
  match s with
  | .above => a <+: directory
  | .within n => n ≤ sample.length ∧ a = below directory (sample.take n)

/-- The text is the path of the entry up to one of the spots. -/
def Reaches (directory : List UInt8) (found : Spots) (a : List UInt8) : Prop :=
  ∃ s ∈ found, s.Ends directory a

section Spots

variable {directory a : List UInt8}

theorem exists_spot (ha : a <+: below directory sample) : ∃ s ∈ spots, s.Ends directory a := by
  unfold below at ha
  rcases List.prefix_or_prefix_of_prefix ha (List.prefix_append directory _) with
    hpre | ⟨rest, rfl⟩
  · exact ⟨.above, List.mem_cons_self, hpre⟩
  · rw [List.prefix_append_right_inj] at ha
    cases rest with
    | nil => exact ⟨.above, List.mem_cons_self, by simp [Spot.Ends]⟩
    | cons c rest =>
        obtain ⟨rfl, hname⟩ := List.cons_prefix_cons.1 ha
        have hlength := hname.length_le
        have htake := List.prefix_iff_eq_take.1 hname
        refine ⟨.within rest.length, ?_, hlength, ?_⟩
        · exact List.mem_cons_of_mem _
            (List.mem_map_of_mem (List.mem_range.2 (Nat.lt_succ_of_le hlength)))
        · rw [← htake]
          rfl

theorem Spot.Ends.length_le (h : Spot.above.Ends directory a) : a.length ≤ directory.length :=
  List.IsPrefix.length_le h

theorem Spot.Ends.length_eq {n : Nat} (h : (Spot.within n).Ends directory a) :
    a.length = directory.length + 1 + n := by
  obtain ⟨hn, rfl⟩ := h
  unfold below
  rw [List.length_append, List.length_cons, List.length_take, Nat.min_eq_left hn]
  omega

/-- The byte behind a spot of the name. -/
theorem Spot.Ends.next {n : Nat} {c : UInt8} (h : (Spot.within n).Ends directory a)
    (hpre : a ++ [c] <+: below directory sample) : sample[n]? = some c := by
  obtain ⟨hn, rfl⟩ := h
  unfold below at hpre
  rw [List.append_assoc, List.prefix_append_right_inj, List.cons_append,
    List.cons_prefix_cons] at hpre
  obtain ⟨rest, hrest⟩ := hpre.2
  rw [← hrest, List.append_assoc, List.getElem?_append_right (by simp), List.length_take,
    Nat.min_eq_left hn, Nat.sub_self]
  rfl

end Spots

/-! ## Steps -/

/-- A byte that `ok` admits can lead from one spot to the other. -/
def hops (ok : UInt8 → Bool) (s t : Spot) : Bool :=
  match s, t with
  | .above, .above => true
  | .above, .within n => n == 0 && ok slash
  | .within n, .within m => m == n + 1 && sample[n]?.any ok
  | .within _, .above => false

/-- The second spot is not before the first. -/
def onward (s t : Spot) : Bool :=
  match s, t with
  | .above, _ => true
  | .within n, .within m => n ≤ m
  | .within _, .above => false

def afterHop (ok : UInt8 → Bool) (found : Spots) : Spots :=
  spots.filter fun t => found.any (hops ok · t)

def afterRun (found : Spots) : Spots :=
  spots.filter fun t => found.any (onward · t)

/-- Directories end before the name. -/
def afterLevels (found : Spots) : Spots :=
  if found.contains .above then .above :: .within 0 :: found else found

mutual

/-- The spots to which a part can lead from the spots found so far. -/
def partSpots (p : GlobPart) (found : Spots) : Spots :=
  match p with
  | .char c => (bytesOf c).foldl (fun found b => afterHop (· == b) found) found
  | .any => afterHop (fun _ => true) found
  | .star => afterRun found
  | .anyStart => afterLevels found
  | .anyEnd => afterRun (afterHop (· == slash) found)
  | .anyMiddle => afterLevels (afterHop (· == slash) found)
  | .oneOf negated ranges => afterHop (fun b => ranges.any (rangeHas · b) != negated) found
  | .either alternatives =>
    if allVoid alternatives then found else eitherSpots alternatives found

def partsSpots (ps : List GlobPart) (found : Spots) : Spots :=
  match ps with
  | [] => found
  | p :: ps => partsSpots ps (partSpots p found)

def eitherSpots (alternatives : List (List GlobPart)) (found : Spots) : Spots :=
  match alternatives with
  | [] => []
  | ps :: rest =>
    (if partsVoid ps then [] else partsSpots ps found) ++ eitherSpots rest found

end

namespace Reaches

variable {directory a u : List UInt8} {found : Spots}

theorem afterHop {ok : UInt8 → Bool} (h : Reaches directory found a) (hu : u ∈ one ok)
    (hpre : a ++ u <+: below directory sample) :
    Reaches directory (afterHop ok found) (a ++ u) := by
  obtain ⟨c, rfl, hc⟩ := hu
  obtain ⟨s, hs, hends⟩ := h
  obtain ⟨t, ht, hends'⟩ := exists_spot hpre
  refine ⟨t, List.mem_filter.2 ⟨ht, List.any_eq_true.2 ⟨s, hs, ?_⟩⟩, hends'⟩
  cases s with
  | above =>
      cases t with
      | above => rfl
      | within n =>
          have hlength := hends.length_le
          have hlength' := hends'.length_eq
          rw [List.length_append, List.length_singleton] at hlength'
          have hn : n = 0 := by omega
          have hwhole : a = directory := by
            exact List.IsPrefix.eq_of_length hends (by omega)
          obtain ⟨-, htext⟩ := hends'
          rw [hn, hwhole, below, List.take_zero, List.append_cancel_left_eq,
            List.cons.injEq] at htext
          rw [hops, hn, ← htext.1, hc]
          rfl
  | within n =>
      have hlength := hends.length_eq
      cases t with
      | above =>
          have hlength' := hends'.length_le
          rw [List.length_append, List.length_singleton] at hlength'
          omega
      | within m =>
          have hlength' := hends'.length_eq
          rw [List.length_append, List.length_singleton] at hlength'
          have hm : m = n + 1 := by omega
          rw [hops, hm, hends.next hpre]
          simpa using hc

theorem afterRun (h : Reaches directory found a) (hpre : a ++ u <+: below directory sample) :
    Reaches directory (afterRun found) (a ++ u) := by
  obtain ⟨s, hs, hends⟩ := h
  obtain ⟨t, ht, hends'⟩ := exists_spot hpre
  refine ⟨t, List.mem_filter.2 ⟨ht, List.any_eq_true.2 ⟨s, hs, ?_⟩⟩, hends'⟩
  cases s with
  | above => rfl
  | within n =>
      have hlength := hends.length_eq
      cases t with
      | above =>
          have hlength' := hends'.length_le
          rw [List.length_append] at hlength'
          omega
      | within m =>
          have hlength' := hends'.length_eq
          rw [List.length_append] at hlength'
          rw [onward, decide_eq_true_eq]
          omega

theorem afterLevels (h : Reaches directory found a) (hu : u ∈ directories)
    (hpre : a ++ u <+: below directory sample) :
    Reaches directory (afterLevels found) (a ++ u) := by
  have hkept : ∀ s ∈ found, s ∈ Glob.afterLevels found := by
    intro s hs
    unfold Glob.afterLevels
    split
    · exact List.mem_cons_of_mem _ (List.mem_cons_of_mem _ hs)
    · exact hs
  obtain ⟨s, hs, hends⟩ := h
  rcases (Language.mem_add _ _ _).1 hu with hnil | hslash
  · rw [Language.mem_one] at hnil
    rw [hnil, List.append_nil]
    exact ⟨s, hkept s hs, hends⟩
  · obtain ⟨v, -, w, ⟨c, rfl, hc⟩, rfl⟩ := Language.mem_mul.1 hslash
    rw [eq_of_beq hc] at hpre ⊢
    rw [← List.append_assoc] at hpre ⊢
    obtain ⟨r, -, hends'⟩ := exists_spot ((List.prefix_append _ _).trans hpre)
    obtain ⟨t, -, hends''⟩ := exists_spot hpre
    -- The slash is not read from within the name, so the directory's path was not left before.
    have habove : r = .above := by
      cases r with
      | above => rfl
      | within n =>
          have hmem := List.mem_of_getElem? (hends'.next hpre)
          exact absurd hmem slash_not_mem_sample
    rw [habove] at hends'
    have hstart : s = .above := by
      cases s with
      | above => rfl
      | within n =>
          have hlength := hends.length_eq
          have hlength' := hends'.length_le
          rw [List.length_append] at hlength'
          omega
    rw [hstart] at hs
    have hfound : found.contains .above = true := List.contains_iff_mem.2 hs
    unfold Glob.afterLevels
    rw [if_pos hfound]
    refine ⟨t, ?_, hends''⟩
    cases t with
    | above => exact List.mem_cons_self
    | within n =>
        have hlength := hends'.length_le
        have hlength' := hends''.length_eq
        rw [List.length_append, List.length_singleton] at hlength'
        have hn : n = 0 := by omega
        rw [hn]
        exact List.mem_cons_of_mem _ List.mem_cons_self

theorem afterBytes (bs : List UInt8) (h : Reaches directory found a)
    (hpre : a ++ bs <+: below directory sample) :
    Reaches directory (bs.foldl (fun found b => Glob.afterHop (· == b) found) found)
      (a ++ bs) := by
  induction bs generalizing a found with
  | nil => simpa using h
  | cons b bs ih =>
      have hsplit : a ++ b :: bs = (a ++ [b]) ++ bs := by simp
      rw [hsplit] at hpre ⊢
      have hb : [b] ∈ one (· == b) := ⟨b, rfl, beq_self_eq_true b⟩
      exact ih (h.afterHop hb ((List.prefix_append _ _).trans hpre)) hpre

end Reaches

mutual

theorem reaches_part (p : GlobPart) {directory a u : List UInt8} {found : Spots}
    (h : Reaches directory found a) (hu : u ∈ partLanguage .ordinary p)
    (hpre : a ++ u <+: below directory sample) :
    Reaches directory (partSpots p found) (a ++ u) := by
  match p with
  | .char c =>
      rw [partLanguage] at hu
      rw [partSpots]
      obtain rfl : u = bytesOf c := hu
      exact h.afterBytes (bytesOf c) hpre
  | .any =>
      rw [partLanguage] at hu
      rw [partSpots]
      obtain ⟨c, rfl, -⟩ := hu
      exact h.afterHop ⟨c, rfl, rfl⟩ hpre
  | .star =>
      rw [partSpots]
      exact h.afterRun hpre
  | .anyStart =>
      rw [partLanguage] at hu
      rw [partSpots]
      exact h.afterLevels hu hpre
  | .anyEnd =>
      rw [partLanguage] at hu
      rw [partSpots]
      obtain ⟨v, hv, w, -, rfl⟩ := Language.mem_mul.1 hu
      rw [← List.append_assoc] at hpre ⊢
      exact (h.afterHop hv ((List.prefix_append _ _).trans hpre)).afterRun hpre
  | .anyMiddle =>
      rw [partLanguage] at hu
      rw [partSpots]
      obtain ⟨v, hv, w, hw, rfl⟩ := Language.mem_mul.1 hu
      rw [← List.append_assoc] at hpre ⊢
      exact (h.afterHop hv ((List.prefix_append _ _).trans hpre)).afterLevels hw hpre
  | .oneOf negated ranges =>
      rw [partLanguage] at hu
      rw [partSpots]
      exact h.afterHop hu hpre
  | .either alternatives =>
      rw [partLanguage] at hu
      rw [partSpots]
      split at hu
      · rename_i hvoid
        rw [Language.mem_one] at hu
        rw [if_pos hvoid, hu, List.append_nil]
        exact h
      · rename_i hvoid
        rw [if_neg hvoid]
        exact reaches_either alternatives h hu hpre

theorem reaches_parts (ps : List GlobPart) {directory a u : List UInt8} {found : Spots}
    (h : Reaches directory found a) (hu : u ∈ partsLanguage .ordinary ps)
    (hpre : a ++ u <+: below directory sample) :
    Reaches directory (partsSpots ps found) (a ++ u) := by
  match ps with
  | [] =>
      rw [partsLanguage, Language.mem_one] at hu
      rw [partsSpots, hu, List.append_nil]
      exact h
  | p :: ps =>
      rw [partsLanguage] at hu
      rw [partsSpots]
      obtain ⟨v, hv, w, hw, rfl⟩ := Language.mem_mul.1 hu
      rw [← List.append_assoc] at hpre ⊢
      have hpart := reaches_part p h hv ((List.prefix_append _ _).trans hpre)
      exact reaches_parts ps hpart hw hpre

theorem reaches_either (alternatives : List (List GlobPart)) {directory a u : List UInt8}
    {found : Spots} (h : Reaches directory found a)
    (hu : u ∈ eitherLanguage .ordinary alternatives)
    (hpre : a ++ u <+: below directory sample) :
    Reaches directory (eitherSpots alternatives found) (a ++ u) := by
  match alternatives with
  | [] =>
      rw [eitherLanguage] at hu
      exact absurd hu (Language.notMem_zero u)
  | ps :: rest =>
      rw [eitherLanguage] at hu
      rw [eitherSpots]
      rcases (Language.mem_add _ _ _).1 hu with hfirst | hrest
      · split at hfirst
        · exact absurd hfirst (Language.notMem_zero u)
        · rename_i hvoid
          rw [if_neg hvoid]
          obtain ⟨s, hs, hends⟩ := reaches_parts ps h hfirst hpre
          exact ⟨s, List.mem_append_left _ hs, hends⟩
      · obtain ⟨s, hs, hends⟩ := reaches_either rest h hrest hpre
        exact ⟨s, List.mem_append_right _ hs, hends⟩

end

/-! ## Blind patterns -/

/-- The end of the name is none of the spots. -/
def misses (found : Spots) : Bool :=
  !found.contains (.within sample.length)

/-- The name has not been begun. -/
def isOutside (s : Spot) : Bool :=
  s == .above || s == .within 0

mutual

/-- From the spots found so far, the last part of a pattern does not depend on the name. -/
def partBlind (found : Spots) (p : GlobPart) : Bool :=
  match p with
  | .star => found.all isOutside
  | .anyEnd => true
  | .either alternatives =>
    if allVoid alternatives then misses found else eitherBlind found alternatives
  | p => misses (partSpots p found)

def partsBlind (found : Spots) (ps : List GlobPart) : Bool :=
  match ps with
  | [] => misses found
  | [p] => partBlind found p
  | p :: q :: ps => partsBlind (partSpots p found) (q :: ps)

def eitherBlind (found : Spots) (alternatives : List (List GlobPart)) : Bool :=
  match alternatives with
  | [] => true
  | ps :: rest => (partsVoid ps || partsBlind found ps) && eitherBlind found rest

end

/-- The pattern does not tell the made-up entry from what else lies below a directory. -/
def blind (g : Glob) : Bool :=
  partsBlind [.above] g.parts

theorem not_reaches_of_misses {directory : List UInt8} {found : Spots}
    (hmisses : misses found = true) : ¬ Reaches directory found (below directory sample) := by
  rintro ⟨s, hs, hends⟩
  have hlength : (below directory sample).length = directory.length + 1 + sample.length := by
    unfold below
    rw [List.length_append, List.length_cons]
    omega
  cases s with
  | above =>
      have hle := hends.length_le
      omega
  | within n =>
      have heq := hends.length_eq
      have hn : n = sample.length := by omega
      rw [hn] at hs
      have hfound : found.contains (.within sample.length) = true := List.contains_iff_mem.2 hs
      unfold misses at hmisses
      rw [hfound] at hmisses
      cases hmisses

/-- A text that ends before the name goes on in the same way with any other name. -/
theorem prefix_below_of_outside {directory a : List UInt8} {s : Spot}
    (houtside : isOutside s = true) (hends : s.Ends directory a) (rest : List UInt8) :
    a <+: below directory rest := by
  cases s with
  | above => exact List.IsPrefix.trans hends (List.prefix_append directory _)
  | within n =>
      have hn : n = 0 := by simpa [isOutside] using houtside
      obtain ⟨-, rfl⟩ := hends
      rw [hn, List.take_zero]
      unfold below
      rw [List.prefix_append_right_inj]
      exact List.cons_prefix_cons.2 ⟨rfl, List.nil_prefix⟩

theorem mem_many_wild (u : List UInt8) : u ∈ many (wild .ordinary) := by
  intro b _
  rfl

/-- What follows a directory's slash can be replaced. -/
theorem anyEnd_below {directory a u : List UInt8}
    (hu : u ∈ partLanguage .ordinary .anyEnd) (hwhole : a ++ u = below directory sample)
    (rest : List UInt8) :
    ∃ u' ∈ partLanguage .ordinary .anyEnd, a ++ u' = below directory rest := by
  rw [partLanguage] at hu ⊢
  obtain ⟨c, w, rfl, hc, -⟩ := mem_one_mul.1 hu
  rw [eq_of_beq hc] at hwhole
  have hpre : a ++ [slash] <+: below directory sample := by
    rw [← hwhole]
    exact ⟨w, by simp⟩
  -- the name holds no slash, so the one that is read ends a directory, at the latest the last
  obtain ⟨s, -, hends⟩ := exists_spot ((List.prefix_append _ _).trans hpre)
  obtain ⟨t, -, hends'⟩ := exists_spot hpre
  have houtside : isOutside t = true := by
    cases s with
    | within n => exact absurd (List.mem_of_getElem? (hends.next hpre)) slash_not_mem_sample
    | above =>
        cases t with
        | above => rfl
        | within n =>
            have hlength := hends.length_le
            have hlength' := hends'.length_eq
            rw [List.length_append, List.length_singleton] at hlength'
            have hn : n = 0 := by omega
            rw [hn]
            rfl
  obtain ⟨more, hmore⟩ := prefix_below_of_outside houtside hends' rest
  refine ⟨slash :: more, mem_one_mul.2 ⟨slash, more, rfl, rfl, fun _ _ => rfl⟩, ?_⟩
  rw [← hmore, List.append_assoc, List.singleton_append]

theorem star_below {directory a : List UInt8} {found : Spots}
    (hblind : partBlind found .star = true) (h : Reaches directory found a)
    (rest : List UInt8) :
    ∃ u' ∈ partLanguage .ordinary .star, a ++ u' = below directory rest := by
  obtain ⟨s, hs, hends⟩ := h
  rw [partBlind] at hblind
  have houtside := List.all_eq_true.1 hblind s hs
  obtain ⟨more, hmore⟩ := prefix_below_of_outside houtside hends rest
  refine ⟨more, ?_, hmore⟩
  rw [partLanguage]
  exact mem_many_wild more

theorem absurd_of_misses {directory a u : List UInt8} {found : Spots} {p : GlobPart}
    (hmisses : misses (partSpots p found) = true) (h : Reaches directory found a)
    (hu : u ∈ partLanguage .ordinary p) (hwhole : a ++ u = below directory sample) : False := by
  have hpre : a ++ u <+: below directory sample := by rw [hwhole]
  have hend := reaches_part p h hu hpre
  rw [hwhole] at hend
  exact not_reaches_of_misses hmisses hend

mutual

theorem part_below (p : GlobPart) {directory a u : List UInt8} {found : Spots}
    (hblind : partBlind found p = true) (h : Reaches directory found a)
    (hu : u ∈ partLanguage .ordinary p) (hwhole : a ++ u = below directory sample)
    (rest : List UInt8) :
    ∃ u' ∈ partLanguage .ordinary p, a ++ u' = below directory rest := by
  match p with
  | .star => exact star_below hblind h rest
  | .anyEnd => exact anyEnd_below hu hwhole rest
  | .either alternatives =>
      rw [partBlind] at hblind
      rw [partLanguage] at hu ⊢
      split at hblind
      · rename_i hvoid
        rw [if_pos hvoid, Language.mem_one] at hu
        rw [hu, List.append_nil] at hwhole
        rw [hwhole] at h
        exact absurd h (not_reaches_of_misses hblind)
      · rename_i hvoid
        rw [if_neg hvoid] at hu ⊢
        exact either_below alternatives hblind h hu hwhole rest
  | .char c => exact (absurd_of_misses hblind h hu hwhole).elim
  | .any => exact (absurd_of_misses hblind h hu hwhole).elim
  | .anyStart => exact (absurd_of_misses hblind h hu hwhole).elim
  | .anyMiddle => exact (absurd_of_misses hblind h hu hwhole).elim
  | .oneOf negated ranges => exact (absurd_of_misses hblind h hu hwhole).elim

theorem parts_below (ps : List GlobPart) {directory a u : List UInt8} {found : Spots}
    (hblind : partsBlind found ps = true) (h : Reaches directory found a)
    (hu : u ∈ partsLanguage .ordinary ps) (hwhole : a ++ u = below directory sample)
    (rest : List UInt8) :
    ∃ u' ∈ partsLanguage .ordinary ps, a ++ u' = below directory rest := by
  match ps with
  | [] =>
      rw [partsLanguage, Language.mem_one] at hu
      rw [hu, List.append_nil] at hwhole
      rw [hwhole] at h
      exact absurd h (not_reaches_of_misses hblind)
  | [p] =>
      rw [partsLanguage, partsLanguage, mul_one] at hu ⊢
      rw [partsBlind] at hblind
      exact part_below p hblind h hu hwhole rest
  | p :: q :: ps =>
      rw [partsLanguage] at hu ⊢
      rw [partsBlind] at hblind
      obtain ⟨v, hv, w, hw, rfl⟩ := Language.mem_mul.1 hu
      rw [← List.append_assoc] at hwhole
      have hpart := reaches_part p h hv ⟨w, hwhole⟩
      obtain ⟨w', hw', heq⟩ := parts_below (q :: ps) hblind hpart hw hwhole rest
      exact ⟨v ++ w', Language.append_mem_mul hv hw', by rw [← heq, List.append_assoc]⟩

theorem either_below (alternatives : List (List GlobPart)) {directory a u : List UInt8}
    {found : Spots} (hblind : eitherBlind found alternatives = true)
    (h : Reaches directory found a) (hu : u ∈ eitherLanguage .ordinary alternatives)
    (hwhole : a ++ u = below directory sample) (rest : List UInt8) :
    ∃ u' ∈ eitherLanguage .ordinary alternatives, a ++ u' = below directory rest := by
  match alternatives with
  | [] =>
      rw [eitherLanguage] at hu
      exact absurd hu (Language.notMem_zero u)
  | ps :: more =>
      rw [eitherBlind, Bool.and_eq_true, Bool.or_eq_true] at hblind
      rw [eitherLanguage] at hu ⊢
      rcases (Language.mem_add _ _ _).1 hu with hfirst | hmore
      · split at hfirst
        · exact absurd hfirst (Language.notMem_zero u)
        · rename_i hvoid
          have hparts := hblind.1.resolve_left hvoid
          obtain ⟨u', hu', heq⟩ := parts_below ps hparts h hfirst hwhole rest
          refine ⟨u', (Language.mem_add _ _ _).2 (Or.inl ?_), heq⟩
          rwa [if_neg hvoid]
      · obtain ⟨u', hu', heq⟩ := either_below more hblind.2 h hmore hwhole rest
        exact ⟨u', (Language.mem_add _ _ _).2 (Or.inr hu'), heq⟩

end

/-- A blind pattern that ends in a character does not match the path of the made-up entry. -/
theorem not_mem_of_getLast?_char {ps : List GlobPart} {c : Char}
    (hlast : ps.getLast? = some (.char c)) {directory a u : List UInt8} {found : Spots}
    (hblind : partsBlind found ps = true) (h : Reaches directory found a)
    (hu : u ∈ partsLanguage .ordinary ps) : a ++ u ≠ below directory sample := by
  intro hwhole
  induction ps generalizing a u found with
  | nil => cases hlast
  | cons p ps ih =>
      rw [partsLanguage] at hu
      cases ps with
      | nil =>
          rw [List.getLast?_singleton, Option.some.injEq] at hlast
          rw [partsLanguage, mul_one, hlast] at hu
          rw [partsBlind, hlast] at hblind
          exact absurd_of_misses hblind h hu hwhole
      | cons q ps =>
          rw [partsBlind] at hblind
          rw [List.getLast?_cons_cons] at hlast
          obtain ⟨v, hv, w, hw, rfl⟩ := Language.mem_mul.1 hu
          rw [← List.append_assoc] at hwhole
          exact ih hlast hblind (reaches_part p h hv ⟨w, hwhole⟩) hw hwhole

/-- A pattern that asks for a name or for the empty extension ends in a character. -/
theorem getLast?_of_needsName {slashes : Slashes} {ps : List GlobPart}
    (hneeds : needsName slashes ps = true) : ∃ c, ps.getLast? = some (.char c) := by
  have hdot : ∀ p : GlobPart, isDot p = true → ∃ c, p = .char c := by
    intro p hp
    cases p with
    | char c => exact ⟨c, rfl⟩
    | _ => cases hp
  have hname : ∀ p : GlobPart, isNamePart p = true → ∃ c, p = .char c := by
    intro p hp
    cases p with
    | char c => exact ⟨c, rfl⟩
    | _ => cases hp
  unfold needsName at hneeds
  rw [Bool.or_eq_true, Bool.or_eq_true] at hneeds
  rcases hneeds with (hdecided | hdecided) | hdecided
  · unfold decidedByName at hdecided
    split at hdecided
    · rename_i rest
      rw [Bool.and_eq_true, Bool.not_eq_true', List.isEmpty_eq_false_iff] at hdecided
      obtain ⟨hne, hall⟩ := hdecided
      obtain ⟨c, hc⟩ := hname _ (List.all_eq_true.1 hall _ (List.getLast_mem hne))
      exact ⟨c, by rw [List.getLast?_cons, List.getLast?_eq_some_getLast hne, hc]; rfl⟩
    · cases hdecided
  · unfold decidedByExtension at hdecided
    split at hdecided
    · obtain ⟨c, rfl⟩ := hdot _ hdecided
      exact ⟨c, rfl⟩
    · rw [Bool.and_eq_true] at hdecided
      obtain ⟨c, rfl⟩ := hdot _ hdecided.2
      exact ⟨c, rfl⟩
    · cases hdecided
  · rw [Bool.and_eq_true] at hdecided
    obtain ⟨p, hp, hisDot⟩ := (Option.any_eq_true _ _).1 hdecided.1
    obtain ⟨c, rfl⟩ := hdot p hisDot
    exact ⟨c, hp⟩

theorem toList_entry (directory rest : String) :
    (directory ++ "/" ++ rest).toUTF8.toList =
      below directory.toUTF8.toList rest.toUTF8.toList := by
  have hslash : "/".toUTF8.toList = [slash] := by decide +kernel
  rw [Text.toList_toUTF8_append, Text.toList_toUTF8_append, hslash, List.append_assoc]
  rfl

/-- A blind pattern that matches the made-up entry of a directory matches all that lies below
the directory. -/
theorem matches_below {g : Glob} (hblind : g.blind = true) {directory : String}
    (hsample : g.matches .ordinary (directory ++ "/" ++ PathFilter.sampleEntry) = true)
    (rest : String) : g.matches .ordinary (directory ++ "/" ++ rest) = true := by
  unfold Glob.matches at hsample ⊢
  rw [matchesBytes_iff, toList_entry] at hsample ⊢
  rcases hsample with hstart | ⟨hmem, -⟩
  · exact Or.inl hstart
  · have hreaches : Reaches directory.toUTF8.toList [.above] [] :=
      ⟨.above, List.mem_singleton.2 rfl, List.nil_prefix⟩
    obtain ⟨u, hu, hwhole⟩ := parts_below g.parts hblind hreaches hmem (List.nil_append _)
      rest.toUTF8.toList
    rw [List.nil_append] at hwhole
    rw [hwhole] at hu
    -- no shortcut by name or extension rules the match out
    refine Or.inr ⟨hu, ?_⟩
    rintro ⟨-, hneeds⟩
    obtain ⟨c, hlast⟩ := getLast?_of_needsName hneeds
    exact not_mem_of_getLast?_char hlast hblind hreaches hmem (List.nil_append _)

end CodeIndex.Glob

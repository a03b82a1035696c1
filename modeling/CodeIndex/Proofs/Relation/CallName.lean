import CodeIndex.Proofs.Relation.Callee
/-!
# Normal form of call names

The names that arise are in normal form: segments joined by single dots. They are the texts that
are their own names.
-/

namespace CodeIndex

namespace CallName

open Text

variable {c : Char} {cs a : List Char}

/-- A name in normal form: segments joined by single dots. -/
structure IsName (name : String) : Prop where
  segments : ∃ s rest, name.toList = dots (s :: rest)
  starts : name.toList.head?.any Char.isDigit = false
  not_receiver : name ∉ receivers
  not_builtin : name ∉ builtins

/-- Single dots between other characters, and none at the end. -/
structure IsDotted (name : List Char) : Prop where
  chars : ∀ c ∈ name, isNameChar c = true
  single : ¬['.', '.'] <:+: name
  last : name.getLast? ≠ some '.'

theorem IsDotted.tail (h : IsDotted (c :: cs)) : IsDotted cs := by
  refine ⟨fun d hd => h.chars d (List.mem_cons_of_mem c hd), fun hinfix => ?_, fun hlast => ?_⟩
  · exact h.single (List.infix_cons hinfix)
  · have hne : cs ≠ [] := by
      rintro rfl
      cases hlast
    exact h.last (by rw [List.getLast?_cons_of_ne_nil hne, hlast])

theorem IsDotted.isSegmentChar (h : IsDotted (c :: cs)) (hc : c ≠ '.') :
    isSegmentChar c = true := by
  have hname := h.chars c List.mem_cons_self
  rwa [isNameChar_eq, beq_eq_false_iff_ne.2 hc, Bool.or_false] at hname

/-- A segment of one character. -/
def Segment.single (hc : isSegmentChar c = true) : Segment where
  text := [c]
  ne_nil := List.cons_ne_nil c []
  allChars := by rw [List.all_cons, hc, List.all_nil, Bool.and_self]

/-- A segment becomes longer at its start. -/
theorem exists_dots_cons (hc : isSegmentChar c = true) (hcs : ∃ s rest, cs = dots (s :: rest)) :
    ∃ s rest, c :: cs = dots (s :: rest) := by
  obtain ⟨s, rest, rfl⟩ := hcs
  have hall : (c :: s.text).all isSegmentChar = true := by
    rw [List.all_cons, hc, s.allChars, Bool.and_self]
  exact ⟨⟨c :: s.text, List.cons_ne_nil _ _, hall⟩, rest,
    by rw [dots_cons, dots_cons, List.cons_append]⟩

/-- Along the text, a character starts a segment of its own before a dot and lengthens the next
segment otherwise. -/
theorem exists_dots : ∀ {c : Char} {cs : List Char}, IsDotted (c :: cs) → c ≠ '.' →
    ∃ s rest, c :: cs = dots (s :: rest)
  | c, [], h, hc => ⟨.single (h.isSegmentChar hc), [], rfl⟩
  | c, [d], h, hc => by
      have hd : d ≠ '.' := by
        rintro rfl
        exact h.last rfl
      exact exists_dots_cons (h.isSegmentChar hc) (exists_dots h.tail hd)
  | c, d :: e :: cs, h, hc => by
      by_cases hd : d = '.'
      · subst hd
        have he : e ≠ '.' := by
          rintro rfl
          exact h.single ⟨[c], cs, rfl⟩
        obtain ⟨s, rest, hrest⟩ := exists_dots h.tail.tail he
        have hsingle : isSegmentChar c = true := h.isSegmentChar hc
        refine ⟨.single hsingle, s :: rest, ?_⟩
        rw [dots_cons_cons, hrest]
        rfl
      · exact exists_dots_cons (h.isSegmentChar hc) (exists_dots h.tail hd)

theorem head_candidate_ne (h : (candidate cs).head? = some c) : c ≠ '.' := by
  have hdot := not_of_head?_dropAround h
  exact beq_eq_false_iff_ne.1 hdot

theorem getLast_candidate_ne (h : (candidate cs).getLast? = some c) : c ≠ '.' := by
  have hdot := not_of_getLast?_dropEnd h
  exact beq_eq_false_iff_ne.1 hdot

theorem isName_of_ofText? (h : ofText? cs = some a) : IsName (String.ofList a) := by
  rw [ofText?_eq_ite] at h
  split at h
  · next hvalid =>
      obtain ⟨hdotted, hword⟩ := hvalid
      obtain rfl := Option.some.inj h
      simp only [isDottedName, Bool.and_eq_true, Bool.not_eq_true', List.all_eq_true,
        List.isEmpty_eq_false_iff] at hdotted
      obtain ⟨⟨⟨hne, hpart⟩, hchars⟩, hdigit⟩ := hdotted
      obtain ⟨c, rest, hcons⟩ := List.exists_cons_of_ne_nil hne
      have hhead : (candidate cs).head? = some c := by rw [hcons]; rfl
      have hsingle : IsDotted (c :: rest) := by
        rw [← hcons]
        refine ⟨hchars, ?_, fun hlast => getLast_candidate_ne hlast rfl⟩
        rw [← hasPart_eq_true_iff, hpart]
        exact Bool.false_ne_true
      rw [List.mem_append, not_or] at hword
      refine ⟨?_, ?_, hword.1, hword.2⟩
      · rw [String.toList_ofList, hcons]
        exact exists_dots hsingle (head_candidate_ne hhead)
      · rwa [String.toList_ofList]
  · cases h

/-- A name as a callee, with dots between its segments and nothing around them. -/
def calleeOf (s : Segment) (rest : List Segment)
    (starts : s.text.head?.any Char.isDigit = false) : Callee where
  receiver := none
  first := s
  rest := rest.map (Separator.dot, ·)
  generics := none
  starts := starts

theorem segments_calleeOf (s : Segment) (rest : List Segment)
    (starts : s.text.head?.any Char.isDigit = false) :
    (calleeOf s rest starts).segments = s :: rest := by
  simp [calleeOf, Callee.segments, Function.comp_def]

theorem text_calleeOf (s : Segment) (rest : List Segment)
    (starts : s.text.head?.any Char.isDigit = false) :
    (calleeOf s rest starts).text = dots (s :: rest) := by
  simp [calleeOf, Callee.text, Callee.chain, dots_cons, List.flatMap_map, Separator.text]

theorem IsSpaced.refl (cs : List Char) : IsSpaced cs cs := by
  induction cs with
  | nil => exact nil
  | cons c cs ih => exact ih.char c

end CallName

open CallName

variable {n s : String}

theorem isName_of_callName? (h : callName? s = some n) : IsName n := by
  obtain ⟨a, ha, rfl⟩ := Option.map_eq_some_iff.1 h
  exact isName_of_ofText? ha

theorem callName?_eq_self (h : IsName n) : callName? n = some n := by
  obtain ⟨s, rest, hdots⟩ := h.segments
  have hstarts : s.text.head?.any Char.isDigit = false := by
    rw [← head?_dots s rest, ← hdots, h.starts]
  have hname : (calleeOf s rest hstarts).name = n := by
    rw [Callee.name, segments_calleeOf, ← hdots, String.ofList_toList]
  have hspaced : IsSpaced (calleeOf s rest hstarts).text n.toList := by
    rw [text_calleeOf, ← hdots]
    exact IsSpaced.refl _
  have hword : n ∉ receivers ++ builtins := by
    rw [List.mem_append, not_or]
    exact ⟨h.not_receiver, h.not_builtin⟩
  rw [callName?, ofText?_of_isSpaced _ hspaced, hname, if_neg hword, segments_calleeOf, ← hdots,
    Option.map_some, String.ofList_toList]

/-- The names that arise are those in normal form, and each of them is its own name. -/
theorem callName?_image (n : String) :
    ((∃ s, callName? s = some n) ↔ IsName n) ∧ (callName? n = some n ↔ IsName n) :=
  ⟨⟨fun ⟨_, h⟩ => isName_of_callName? h, fun h => ⟨n, callName?_eq_self h⟩⟩,
    isName_of_callName?, callName?_eq_self⟩

end CodeIndex

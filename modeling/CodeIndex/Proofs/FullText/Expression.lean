import CodeIndex.Proofs.Text.Pieces
import CodeIndex.Store.Search
/-!
# Terms and the expression that asks for them

The terms of a question are its first words in lower case, each where it occurs first. The
expression that asks for them is a list of texts in quotes, each followed by a star, with `OR` in
between. It is the only text that is read, by this grammar, as those terms: whatever a question is
made of stands within quotes and nowhere else.
-/

namespace CodeIndex.FullText

open Text

/-! ## Reading an expression -/

/-- The terms of an expression behind its first quote, when `started` has been read of the first of
them. Within a term a quote is written twice; a single one ends it, and has to be followed by a star
and then by the end or by `OR` and the next term. -/
def readTerms? (started : List Char) : List Char → Option (List (List Char))
  | [] => none
  | '"' :: '"' :: cs => readTerms? (started ++ ['"']) cs
  | ['"', '*'] => some [started]
  | '"' :: '*' :: ' ' :: 'O' :: 'R' :: ' ' :: '"' :: cs => (readTerms? [] cs).map (started :: ·)
  | '"' :: _ => none
  | c :: cs => readTerms? (started ++ [c]) cs

/-- The terms that an expression asks for, if it is one. -/
def readExpression? (e : String) : Option (List String) :=
  match e.toList with
  | '"' :: cs => (readTerms? [] cs).map (List.map String.ofList)
  | _ => none

variable {started t : List Char} {ts us : List (List Char)}

/-- A term as it stands between its quotes. -/
def escaped (t : List Char) : List Char :=
  t.flatMap fun c => if c == '"' then ['"', '"'] else [c]

theorem escaped_quote (t : List Char) : escaped ('"' :: t) = '"' :: '"' :: escaped t :=
  rfl

theorem escaped_cons {c : Char} (hc : c ≠ '"') (t : List Char) :
    escaped (c :: t) = c :: escaped t := by
  simp [escaped, hc]

/-- What stands behind the first term of an expression when those are the others. -/
def closing : List (List Char) → List Char
  | [] => ['"', '*']
  | u :: us => '"' :: '*' :: (" OR ".toList ++ expression (u :: us))

theorem expression_cons (t : List Char) (us : List (List Char)) :
    expression (t :: us) = '"' :: (escaped t ++ closing us) := by
  have hquote : quoteTerm t = '"' :: (escaped t ++ ['"']) := rfl
  unfold expression
  cases us with
  | nil => simp [hquote, closing]
  | cons u us =>
      rw [List.map_cons, List.intercalate_cons_of_ne_nil (by simp), hquote]
      simp [closing, expression]

theorem readTerms?_cons {c : Char} (hc : c ≠ '"') (started cs : List Char) :
    readTerms? started (c :: cs) = readTerms? (started ++ [c]) cs := by
  rw [readTerms?]
  all_goals simp [hc]

theorem readTerms?_escaped (started t cs : List Char) :
    readTerms? started (escaped t ++ cs) = readTerms? (started ++ t) cs := by
  induction t generalizing started with
  | nil => rw [List.append_nil, escaped, List.flatMap_nil, List.nil_append]
  | cons c t ih =>
      have hstarted : started ++ c :: t = started ++ [c] ++ t := by simp
      by_cases hc : c = '"'
      · subst hc
        rw [escaped_quote, List.cons_append, List.cons_append, readTerms?, ih, hstarted]
      · rw [escaped_cons hc, List.cons_append, readTerms?_cons hc, ih, hstarted]

theorem readTerms?_written (started t : List Char) (us : List (List Char)) :
    readTerms? started (escaped t ++ closing us) = some ((started ++ t) :: us) := by
  induction us generalizing started t with
  | nil => rw [readTerms?_escaped, closing, readTerms?]
  | cons u us ih =>
      have hnext : readTerms? (started ++ t) (closing (u :: us)) =
          (readTerms? [] (escaped u ++ closing us)).map ((started ++ t) :: ·) := by
        rw [closing, expression_cons]
        rfl
      rw [readTerms?_escaped, hnext, ih [] u]
      rfl

/-- What is read was written. -/
theorem written_of_readTerms? {cs : List Char} (h : readTerms? started cs = some ts) :
    ∃ t us, ts = (started ++ t) :: us ∧ cs = escaped t ++ closing us := by
  -- `t` is what is still to be read of the first term
  fun_induction readTerms? started cs generalizing ts with
  | case1 => cases h
  | case2 started cs ih =>
      obtain ⟨t, us, rfl, rfl⟩ := ih h
      exact ⟨'"' :: t, us, by simp, by rw [escaped_quote]; rfl⟩
  | case3 started =>
      obtain rfl := Option.some.inj h
      exact ⟨[], [], by simp, rfl⟩
  | case4 started cs ih =>
      obtain ⟨rest, hrest, rfl⟩ := Option.map_eq_some_iff.1 h
      obtain ⟨t, us, rfl, rfl⟩ := ih hrest
      refine ⟨[], t :: us, by simp, ?_⟩
      rw [closing, expression_cons]
      rfl
  | case5 => cases h
  | case6 started c cs hquote hend hor hc ih =>
      obtain ⟨t, us, rfl, rfl⟩ := ih h
      exact ⟨c :: t, us, by simp, by rw [escaped_cons hc]; rfl⟩

/-- Exactly what is written for terms is read as these terms. -/
theorem readExpression?_eq_some_iff {e : String} {ts : List String} :
    readExpression? e = some ts ↔
      ts ≠ [] ∧ e = String.ofList (expression (ts.map String.toList)) := by
  unfold readExpression?
  constructor
  · intro h
    split at h
    · next cs hcs =>
      obtain ⟨rest, hrest, rfl⟩ := Option.map_eq_some_iff.1 h
      obtain ⟨t, us, rfl, rfl⟩ := written_of_readTerms? hrest
      refine ⟨by simp, ?_⟩
      rw [← String.toList_inj, hcs, String.toList_ofList, List.map_map]
      simp [expression_cons]
    · cases h
  · rintro ⟨hne, rfl⟩
    obtain ⟨t, us, rfl⟩ := List.exists_cons_of_ne_nil hne
    simp [expression_cons, readTerms?_written]

example : readExpression? "\"say \"\"no\"\"\"* OR \"b\"*" = some ["say \"no\"", "b"] := by
  decide

/-! ## The terms of a question -/

/-- Behind its first `k` characters the question has a word whose form in lower case is the term: a
run of two or more word characters that goes as far as it can on both sides. -/
def HasTermAt (query : String) (k : Nat) (t : String) : Prop :=
  ∃ w, HasPieceAt (fun c => !isWordChar c) query.toList k w ∧ 1 < w.length ∧
    t = String.ofList (lowerCase w)

/-- All terms of a question with the places of their words. -/
def termsAt (query : String) : List (Nat × String) :=
  ((placed 0 (wordRuns query.toList)).filter fun a => 1 < a.2.length).map fun a =>
    (a.1, String.ofList (lowerCase a.2))

theorem mem_termsAt {query : String} {k : Nat} {t : String} :
    (k, t) ∈ termsAt query ↔ HasTermAt query k t := by
  unfold termsAt wordRuns HasTermAt
  simp only [List.mem_map, List.mem_filter, decide_eq_true_eq, Prod.mk.injEq, Prod.exists,
    mem_placed_pieces]
  constructor
  · rintro ⟨k, w, ⟨hw, hlength⟩, rfl, rfl⟩
    exact ⟨w, hw, hlength, rfl⟩
  · rintro ⟨w, hw, hlength, rfl⟩
    exact ⟨k, w, ⟨hw, hlength⟩, rfl, rfl⟩

theorem pairwise_termsAt (query : String) : (termsAt query).Pairwise fun a b => a.1 < b.1 :=
  List.pairwise_map.2 ((pairwise_placed 0 _).filter _)

theorem queryTerms_eq (query : String) :
    queryTerms query = firstDistinct maxTerms ((termsAt query).map (·.2)) := by
  have hwords : (wordRuns query.toList).filter (fun w => decide (1 < w.length)) =
      ((placed 0 (wordRuns query.toList)).filter fun a => 1 < a.2.length).map (·.2) := by
    conv_lhs => rw [← map_snd_placed 0 (wordRuns query.toList)]
    exact List.filter_map
  have hinjective : Function.Injective String.ofList := fun _ _ h => String.ofList_injective h
  unfold queryTerms terms termsAt
  dsimp only
  rw [map_firstDistinct hinjective, hwords, List.map_map, List.map_map, List.map_map]
  rfl

theorem queryExpression?_eq (query : String) :
    queryExpression? query = if queryTerms query = [] then none
      else some (String.ofList (expression ((queryTerms query).map String.toList))) := by
  have hlists : (queryTerms query).map String.toList = terms query.toList := by
    simp [queryTerms, Function.comp_def]
  unfold queryExpression?
  rw [hlists]
  simp [queryTerms]

theorem queryExpression?_eq_some_iff {query e : String} :
    queryExpression? query = some e ↔ readExpression? e = some (queryTerms query) := by
  rw [readExpression?_eq_some_iff, queryExpression?_eq]
  by_cases hnone : queryTerms query = []
  · simp [hnone]
  · rw [if_neg hnone, Option.some.injEq, ne_eq, and_iff_right hnone, eq_comm]

/-! ## Asking the index -/

/-- What is found for an expression: the chunks that have any of the terms that are read from it. -/
def searchExpression (s : Store) (e : String) (limit : Nat) : List (ChunkRecord × Float) :=
  let phrases := ((readExpression? e).getD []).map wordsOf
  let found := Store.limited limit (search Store.columnWeights s.documents phrases)
  found.filterMap fun (id, rank) => (s.chunk? id).map (·, rank)

theorem search_nil {α : Type} (weights : List Float) (docs : List (Document α)) :
    search weights docs [] = [] := by
  simp [search]

theorem searchText_eq (s : Store) (query : String) (limit : Nat) :
    s.searchText query limit =
      ((queryExpression? query).map fun e => searchExpression s e limit).getD [] := by
  have hphrases : (queryTerms query).map wordsOf = (terms query.toList).map words := by
    simp [queryTerms, wordsOf, Function.comp_def]
  unfold Store.searchText
  rw [← hphrases]
  cases he : queryExpression? query with
  | none =>
      have hnone : queryTerms query = [] := by simpa [queryExpression?_eq] using he
      simp [hnone, search_nil, Store.limited]
  | some e =>
      have hread := queryExpression?_eq_some_iff.1 he
      simp [searchExpression, hread]

/-- The terms of a question are the first sixteen of its words in lower case, each where it occurs
first. There is no expression exactly when there are no terms, and otherwise it is the only text
that is read as these terms. To search for the question is to search for what is so read. -/
theorem expression_asks_for_terms (query : String) :
    AreFirst 16 (HasTermAt query) (queryTerms query) ∧
      (queryExpression? query = none ↔ queryTerms query = []) ∧
      (∀ e, queryExpression? query = some e ↔ readExpression? e = some (queryTerms query)) ∧
      ∀ s limit, Store.searchText s query limit =
        ((queryExpression? query).map fun e => searchExpression s e limit).getD [] := by
  refine ⟨?_, ?_, fun e => queryExpression?_eq_some_iff, fun s => searchText_eq s query⟩
  · rw [queryTerms_eq]
    exact (areFirst_firstDistinct 16 (pairwise_termsAt query)).congr fun k t => mem_termsAt
  · rw [queryExpression?_eq, ite_eq_left_iff]
    simp

end CodeIndex.FullText

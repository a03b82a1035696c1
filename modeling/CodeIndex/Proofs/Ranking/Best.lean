import CodeIndex.Proofs.Store.History
import CodeIndex.Proofs.Store.Records
import CodeIndex.Ranking.Rank
/-!
# The best candidates

The candidates for a question are the hits of its text and then the chunks with its names that are
no hits, each chunk once. A ranking holds the best of them, as many as were asked for, in
descending order of their scores, and those of one score in the order of the candidates.
-/

namespace CodeIndex.Ranking

open Text

/-! ## Candidates -/

theorem nodup_nameCandidates (query : String) : (nameCandidates query).Nodup :=
  nodup_firstDistinct _ _

theorem length_nameCandidates_le (query : String) : (nameCandidates query).length ≤ maxNames :=
  length_firstDistinct_le _ _

/-- Chunks without repeats are added as far as they are not there yet, in their order. -/
theorem addNamed_eq (cs : List (ChunkRecord × Option Float)) (found : List ChunkRecord)
    (hnodup : (found.map (·.id)).Nodup) :
    addNamed cs found =
      cs ++ (found.filter fun c => !cs.any (·.1.id == c.id)).map (·, none) := by
  induction found generalizing cs with
  | nil => simp [addNamed]
  | cons c found ih =>
      obtain ⟨hnew, hrest⟩ := List.nodup_cons.1 hnodup
      have hstep : addNamed cs (c :: found) =
          addNamed (if cs.any (·.1.id == c.id) then cs else cs ++ [(c, none)]) found := rfl
      rw [hstep]
      cases hc : cs.any (·.1.id == c.id) with
      | true => rw [if_pos rfl, ih cs hrest, List.filter_cons_of_neg (by simp [hc])]
      | false =>
          have hsame : found.filter (fun d => !(cs ++ [(c, none)]).any (·.1.id == d.id)) =
              found.filter fun d => !cs.any (·.1.id == d.id) := by
            apply List.filter_congr
            intro d hd
            have hne : c.id ≠ d.id := by
              intro heq
              exact hnew (List.mem_map.2 ⟨d, hd, heq.symm⟩)
            simp [hne]
          rw [if_neg Bool.false_ne_true, ih _ hrest, hsame,
            List.filter_cons_of_pos (by simp [hc]), List.map_cons, List.append_assoc,
            List.singleton_append]

theorem nodup_flatMap_named {s : Store} (h : s.Sound) {names : List String}
    (hnames : names.Nodup) : ((names.flatMap s.named).map (·.id)).Nodup := by
  rw [List.map_flatMap, List.nodup_flatMap]
  refine ⟨fun name _ => h.nodup_named name, hnames.imp fun {a b} hne => ?_⟩
  -- one row has one name
  change List.Disjoint ((s.named a).map (·.id)) ((s.named b).map (·.id))
  rw [List.disjoint_left]
  intro id ha hb
  obtain ⟨c, hc, rfl⟩ := List.mem_map.1 ha
  obtain ⟨c', hc', hid⟩ := List.mem_map.1 hb
  obtain ⟨hrow, hname, -⟩ := Store.mem_named.1 hc
  obtain ⟨hrow', hname', -⟩ := Store.mem_named.1 hc'
  rw [hid] at hrow'
  rw [h.chunks.row_unique hrow hrow', hname'] at hname
  exact hne (Option.some.inj hname).symm

/-- The chunks with the names in a question that are not among the hits. -/
def beyondHits (s : Store) (query : String) (hits : List (ChunkRecord × Float)) :
    List ChunkRecord :=
  ((nameCandidates query).flatMap s.named).filter fun c => !hits.any (·.1.id == c.id)

theorem candidates_eq {s : Store} (h : s.Sound) (query : String) (limit : Nat) :
    candidates s query limit =
      (s.searchText query (overfetch * limit)).map (fun hit => (hit.1, some hit.2)) ++
        (beyondHits s query (s.searchText query (overfetch * limit))).map (·, none) := by
  have hnodup := nodup_flatMap_named h (nodup_nameCandidates query)
  -- adding the chunks name by name is adding them all at once
  have hfold : ∀ (names : List String) (cs : List (ChunkRecord × Option Float)),
      names.foldl (fun cs name => addNamed cs (s.named name)) cs =
        addNamed cs (names.flatMap s.named) := by
    intro names cs
    unfold addNamed
    rw [List.foldl_flatMap]
  unfold candidates beyondHits
  dsimp only
  rw [hfold, addNamed_eq _ _ hnodup, Nat.mul_comm limit]
  simp only [List.any_map]
  rfl

theorem nodup_candidates {s : Store} (h : s.Sound) (query : String) (limit : Nat) :
    ((candidates s query limit).map (·.1.id)).Nodup := by
  have hnamed : ((beyondHits s query (s.searchText query (overfetch * limit))).map (·.id)).Nodup :=
    (nodup_flatMap_named h (nodup_nameCandidates query)).sublist (List.filter_sublist.map _)
  rw [candidates_eq h, List.map_append, List.map_map, List.map_map, List.nodup_append]
  refine ⟨h.nodup_searchText query _, hnamed, ?_⟩
  rintro id hid id' hid' rfl
  obtain ⟨hit, hhit, rfl⟩ := List.mem_map.1 hid
  obtain ⟨c, hc, heq⟩ := List.mem_map.1 hid'
  have hnew := (List.mem_filter.1 hc).2
  rw [Bool.not_eq_true', List.any_eq_false] at hnew
  exact hnew hit hhit (beq_iff_eq.2 heq.symm)

theorem chunk?_of_mem_candidates {s : Store} (h : s.Sound) {query : String} {limit : Nat}
    {c : ChunkRecord × Option Float} (hc : c ∈ candidates s query limit) :
    s.chunk? c.1.id = some c.1 := by
  rw [candidates_eq h, List.mem_append] at hc
  rcases hc with hfound | hnamed
  · obtain ⟨hit, hhit, rfl⟩ := List.mem_map.1 hfound
    exact h.chunk?_of_mem_searchText hhit
  · obtain ⟨d, hd, rfl⟩ := List.mem_map.1 hnamed
    obtain ⟨name, -, hname⟩ := List.mem_flatMap.1 (List.mem_filter.1 hd).1
    exact h.chunk?_of_mem_named hname

theorem chunk?_of_mem_rank {s : Store} (h : s.Sound) {query : String} {limit : Nat}
    {currentFile : Option String} {weights : Signals} {now : Instant} {r : RankedChunk}
    (hr : r ∈ rank s query limit currentFile weights now) :
    s.chunk? r.chunk.id = some r.chunk := by
  obtain ⟨c, hc, rfl⟩ := List.mem_map.1 (List.mem_mergeSort.1 (List.mem_of_mem_take hr))
  exact chunk?_of_mem_candidates h hc

/-! ## The best of a list -/

/-- The place of a ranked chunk among all scores. -/
def rankOf (r : RankedChunk) : Int :=
  Decimal.place r.score

/-- The ranked chunks are the best of those that are offered, at most `limit` of them. -/
structure Best (limit : Nat) (offered ranked : List RankedChunk) : Prop where
  length : ranked.length = min limit offered.length
  distinct : (ranked.map (·.chunk.id)).Nodup
  descending : ranked.Pairwise fun a b => rankOf b ≤ rankOf a
  leftOut : ∀ c ∈ offered, c.chunk.id ∉ ranked.map (·.chunk.id) →
    ∀ r ∈ ranked, rankOf c ≤ rankOf r
  /-- Of each score those that come first are taken, in their order. -/
  ties : ∀ rank, ranked.filter (rankOf · == rank) <+: offered.filter (rankOf · == rank)

theorem sort_eq (rs : List RankedChunk) :
    rs.mergeSort comesBefore = Store.sortedBy (fun a b => -rankOf a < -rankOf b) rs := by
  have horder : comesBefore = fun a b => !decide (-rankOf b < -rankOf a) := by
    funext a b
    unfold comesBefore rankOf
    rw [← decide_not]
    congr 1
    rw [eq_iff_iff]
    omega
  unfold Store.sortedBy
  rw [horder]

theorem best_take (limit : Nat) {offered : List RankedChunk}
    (hnodup : (offered.map (·.chunk.id)).Nodup) :
    Best limit offered ((offered.mergeSort comesBefore).take limit) := by
  have hranked := Store.ranked_key fun r : RankedChunk => -rankOf r
  have hsorted := hranked.pairwise_sortedBy offered
  have hperm := List.mergeSort_perm offered comesBefore
  have hdescending : (offered.mergeSort comesBefore).Pairwise fun a b => rankOf b ≤ rankOf a := by
    rw [sort_eq]
    refine hsorted.imp fun hab => ?_
    rw [decide_eq_false_iff_not] at hab
    omega
  have hpre := List.take_prefix limit (offered.mergeSort comesBefore)
  constructor
  · rw [List.length_take, List.length_mergeSort]
  · exact ((hperm.map _).nodup_iff.2 hnodup).sublist (hpre.sublist.map _)
  · exact hdescending.sublist hpre.sublist
  · intro c hc hout r hr
    have hboth : c ∈ (offered.mergeSort comesBefore).take limit ++
        (offered.mergeSort comesBefore).drop limit := by
      rw [List.take_append_drop]
      exact hperm.mem_iff.2 hc
    rw [← List.take_append_drop limit (offered.mergeSort comesBefore)] at hdescending
    rcases List.mem_append.1 hboth with htaken | hleft
    · exact absurd (List.mem_map_of_mem htaken) hout
    · exact (List.pairwise_append.1 hdescending).2.2 r hr c hleft
  · intro rank
    have hties : (offered.mergeSort comesBefore).filter (rankOf · == rank) =
        offered.filter (rankOf · == rank) := by
      rw [sort_eq]
      apply hranked.filter_sortedBy
      intro a b ha hb
      rw [beq_iff_eq] at ha hb
      rw [ha, hb, decide_eq_false (Int.lt_irrefl _)]
    rw [← hties]
    exact hpre.filter _

/-! ## Rankings -/

/-- Each candidate with its signals and their weighted sum. The candidates show how good the best
text match is. -/
def assessed (s : Store) (query : String) (currentFile : Option String) (weights : Signals)
    (now : Instant) (cs : List (ChunkRecord × Option Float)) : List RankedChunk :=
  cs.map fun c =>
    let signals := signalsOf query currentFile ((currentFile.map (importedKeys s)).getD []) now
      (textStrength c.2 (bestRank cs)) c.1
    ⟨c.1, signals.score weights, signals⟩

/-- A ranking of any store: of the candidates, which are the hits and then the chunks with the
names in the question that are no hits, as many as were asked for and at least one, the best ones,
each once, in descending order; those of one score in the order of the candidates. -/
theorem rank_best (ops : List Store.Operation) (query : String) (limit : Nat)
    (currentFile : Option String) (weights : Signals) (now : Instant) :
    let s := Store.history ops
    let hits := s.searchText query (3 * max limit 1)
    let cs := hits.map (fun hit => (hit.1, some hit.2)) ++ (beyondHits s query hits).map (·, none)
    let offered := assessed s query currentFile weights now cs
    (nameCandidates query).length ≤ 8 ∧ (cs.map (·.1.id)).Nodup ∧
      Best (max limit 1) offered (rank s query limit currentFile weights now) := by
  intro s hits cs offered
  have hsound : s.Sound := Store.sound_history ops
  have hcs : candidates s query (max limit 1) = cs := candidates_eq hsound query (max limit 1)
  have hnodup : (cs.map (·.1.id)).Nodup := hcs ▸ nodup_candidates hsound query (max limit 1)
  have hrank : rank s query limit currentFile weights now =
      (offered.mergeSort comesBefore).take (max limit 1) := by
    change ((assessed s query currentFile weights now
      (candidates s query (max limit 1))).mergeSort comesBefore).take (max limit 1) = _
    rw [hcs]
  have hoffered : (offered.map (·.chunk.id)).Nodup := by
    change ((cs.map _).map _).Nodup
    rw [List.map_map]
    exact hnodup
  refine ⟨length_nameCandidates_le query, hnodup, ?_⟩
  rw [hrank]
  exact best_take (max limit 1) hoffered

end CodeIndex.Ranking

import AtlasMcp.ComposedTools
import AtlasMcp.JsonRoundTrip
import AtlasMcp.Rankings

/-!
# Reciprocal rank fusion

`hybrid_search` gives each document a rank in the hits of Elasticsearch and one among the
matches of the vectors, adds up the reciprocals of the two, and returns the documents with
the highest sums.  The ids are collected in a set, which Python iterates in an order of its
own: an `Iteration`.

With exact scores the result is what the fusion is for (`fuse_spec`).  Where documents tie at
the end of the list, or in it, it depends on the iteration (`fuse_eq_iff`).  And a document
that occurs twice in a list gets the rank of its last occurrence there
(`firstOccurrences_iff`).

`fused` is the fusion with what the two searches return before it and the result of the tool
after it, and `exists_fuse_of_ran` says that the tool returns the fusion of what it has found.
-/

namespace Server

namespace HybridSearchTool

open PyJson Rankings

variable {F ι : Type} [DecidableEq ι]

/-- A hit of Elasticsearch, in the place that its list gives it.  Of its source
nothing is known. -/
structure SearchHit (F ι : Type) where
  id : ι
  source : PyValue F

/-- A match of the vector search, with `str(m["id"])`, in the place that its
list gives it. -/
structure VectorMatch (F ι : Type) where
  id : ι
  payload : PyValue F

/-- A dictionary comprehension: a later entry takes the place of an earlier
one. -/
def comprehension {β : Type} (entries : List (ι × β)) : AList fun _ : ι => β :=
  entries.foldl (fun d entry => d.insert entry.1 entry.2) ∅

/-- `{id: rank for rank, id in enumerate(ids, start=1)}`. -/
def ranks (ids : List ι) : AList fun _ : ι => ℕ := comprehension (ids.zipIdx 1)

/-- The ranks of the hits, from one. -/
def lexicalRanks (hits : List (SearchHit F ι)) : AList fun _ : ι => ℕ :=
  ranks (hits.map SearchHit.id)

/-- The ranks of the matches, from one. -/
def denseRanks (found : List (VectorMatch F ι)) : AList fun _ : ι => ℕ :=
  ranks (found.map VectorMatch.id)

/-- An order in which Python can iterate
`set(lexical_ranks) | set(dense_ranks)`. -/
structure Iteration (hits : List (SearchHit F ι)) (found : List (VectorMatch F ι)) where
  ids : List ι
  nodup : ids.Nodup
  mem_iff : ∀ id, id ∈ ids ↔ id ∈ lexicalRanks hits ∨ id ∈ denseRanks found

/-- One document of the result, with the ranks that its score is made of. -/
structure HybridResult (F ι α : Type) where
  id : ι
  rrfScore : α
  lexicalRank : Option ℕ
  denseRank : Option ℕ
  source : PyValue F

/-- What the tool returns: the documents with the highest scores, and how many
were found in all. -/
structure HybridResults (F ι α : Type) where
  query : String
  results : List (HybridResult F ι α)
  fusedFrom : ℕ

section Fuse

variable {α β : Type} [LinearOrder α] [PyFloat F]

/-- `(es_hit or {}).get("source") or (vec_hit or {}).get("payload") or {}`. -/
def sourceOf (hit : Option (SearchHit F ι)) (vec : Option (VectorMatch F ι)) : PyValue F :=
  ((hit.elim .none SearchHit.source).orElse (vec.elim .none VectorMatch.payload)).orElse
    (.dict (.ofPairs [] List.nodup_nil))

/-- What `HybridSearchTool.run` makes of the hits and the matches.  How a
score is computed from the two ranks, and how it is rounded, is up to the
arithmetic.  The schema keeps `top_k` and `rrf_k` positive. -/
def fuse (score : Option ℕ → Option ℕ → α) (round6 : α → β) (query : String) (topK : ℕ)
    (hits : List (SearchHit F ι)) (found : List (VectorMatch F ι))
    (iteration : Iteration hits found) : HybridResults F ι β :=
  let scored := ranking Prod.snd (iteration.ids.map fun id =>
    (id, score ((lexicalRanks hits).lookup id) ((denseRanks found).lookup id)))
  let byIdEs := comprehension (hits.map fun h => (h.id, h))
  let byIdVec := comprehension (found.map fun m => (m.id, m))
  { query
    results := (scored.take topK).map fun entry =>
      { id := entry.1
        rrfScore := round6 entry.2
        lexicalRank := (lexicalRanks hits).lookup entry.1
        denseRank := (denseRanks found).lookup entry.1
        source := sourceOf (byIdEs.lookup entry.1) (byIdVec.lookup entry.1) }
    fusedFrom := scored.length }

end Fuse

/-- The part of a list in the score, with exact arithmetic. -/
def share (rrfK : ℕ) : Option ℕ → ℚ
  | some rank => 1 / (rrfK + rank)
  | none => 0

/-- The score of a document, with exact arithmetic: what it gets from each of
the two lists. -/
def rrfScore (rrfK : ℕ) (lexicalRank denseRank : Option ℕ) : ℚ :=
  share rrfK lexicalRank + share rrfK denseRank

/-- `round(x, 6)`: to the nearest, and to an even last digit between two. -/
def round6 (x : ℚ) : ℚ :=
  let y := x * 1000000
  let n := ⌊y⌋
  let r := if y - n < 1 / 2 then n else if y - n = 1 / 2 ∧ n % 2 = 0 then n else n + 1
  r / 1000000

/-! ## Ranks -/

section Ranks

variable {β : Type}

theorem comprehension_concat (entries : List (ι × β)) (entry : ι × β) :
    comprehension (entries ++ [entry]) = (comprehension entries).insert entry.1 entry.2 := by
  simp [comprehension]

/-- The keys of the dictionary are those of its entries, however often each
occurs. -/
theorem mem_comprehension_iff {entries : List (ι × β)} {id : ι} :
    id ∈ comprehension entries ↔ id ∈ entries.map Prod.fst := by
  induction entries using List.reverseRecOn with
  | nil => simp [comprehension]
  | append_singleton entries entry ih =>
      rw [comprehension_concat, AList.mem_insert, ih]
      simp [or_comm]

/-- What is kept under an id is one of its entries. -/
theorem mem_of_lookup_comprehension {entries : List (ι × β)} {id : ι} {b : β}
    (h : (comprehension entries).lookup id = some b) : (id, b) ∈ entries := by
  induction entries using List.reverseRecOn with
  | nil => simp [comprehension] at h
  | append_singleton entries entry ih =>
      rw [comprehension_concat] at h
      by_cases hid : id = entry.1
      · subst hid
        rw [AList.lookup_insert] at h
        obtain rfl := Option.some.inj h
        exact List.mem_append_right _ (List.mem_singleton_self _)
      · rw [AList.lookup_insert_ne hid] at h
        exact List.mem_append_left _ (ih h)

/-- The only entry of an id is what is kept under it. -/
theorem lookup_comprehension {entries : List (ι × β)} (hnodup : (entries.map Prod.fst).Nodup)
    {id : ι} {b : β} (h : (id, b) ∈ entries) :
    (comprehension entries).lookup id = some b := by
  have hmem : id ∈ comprehension entries :=
    mem_comprehension_iff.mpr (List.mem_map_of_mem (f := Prod.fst) h)
  obtain ⟨kept, hkept⟩ := Option.isSome_iff_exists.mp (AList.lookup_isSome.mpr hmem)
  have heq := List.inj_on_of_nodup_map hnodup (mem_of_lookup_comprehension hkept) h rfl
  rw [hkept, (Prod.mk.inj heq).2]

/-- Every id of a list has a rank, and nothing else has one. -/
theorem mem_ranks_iff {ids : List ι} {id : ι} : id ∈ ranks ids ↔ id ∈ ids := by
  rw [ranks, mem_comprehension_iff, List.zipIdx_map_fst]

theorem rank_pos {ids : List ι} {id : ι} {rank : ℕ} (h : (ranks ids).lookup id = some rank) :
    0 < rank :=
  List.le_snd_of_mem_zipIdx (mem_of_lookup_comprehension h)

end Ranks

/-! ## Iterations -/

section Iterations

variable {α β : Type} [LinearOrder α] [PyFloat F] {hits : List (SearchHit F ι)}
  {found : List (VectorMatch F ι)}

/-- The ids of both lists. -/
def fusedIds (hits : List (SearchHit F ι)) (found : List (VectorMatch F ι)) : Finset ι :=
  (hits.map SearchHit.id ++ found.map VectorMatch.id).toFinset

/-- The score of a document. -/
def scoreOf (score : Option ℕ → Option ℕ → α) (hits : List (SearchHit F ι))
    (found : List (VectorMatch F ι)) (id : ι) : α :=
  score ((lexicalRanks hits).lookup id) ((denseRanks found).lookup id)

omit [PyFloat F] in
/-- Python goes through all the ids that were found, and through no others. -/
theorem Iteration.mem_ids_iff (iteration : Iteration hits found) {id : ι} :
    id ∈ iteration.ids ↔ id ∈ fusedIds hits found := by
  rw [iteration.mem_iff, lexicalRanks, denseRanks, mem_ranks_iff, mem_ranks_iff, fusedIds,
    List.mem_toFinset, List.mem_append]

omit [PyFloat F] in
/-- The ids that it goes through are a set, whatever their order. -/
theorem Iteration.toFinset_ids (iteration : Iteration hits found) :
    iteration.ids.toFinset = fusedIds hits found := by
  ext id
  rw [List.mem_toFinset, iteration.mem_ids_iff]

omit [PyFloat F] in
/-- Two iterations have the same ids. -/
theorem Iteration.perm (first second : Iteration hits found) : first.ids.Perm second.ids :=
  (List.perm_ext_iff_of_nodup first.nodup second.nodup).mpr fun id => by
    rw [first.mem_ids_iff, second.mem_ids_iff]

/-- Each order of the ids is an iteration. -/
def Iteration.ofPerm (iteration : Iteration hits found) {ids : List ι}
    (h : ids.Perm iteration.ids) : Iteration hits found where
  ids := ids
  nodup := h.nodup_iff.mpr iteration.nodup
  mem_iff id := h.mem_iff.trans (iteration.mem_iff id)

/-- An iteration in the order of the lists. -/
def Iteration.inOrder (hits : List (SearchHit F ι)) (found : List (VectorMatch F ι)) :
    Iteration hits found where
  ids := (hits.map SearchHit.id ++ found.map VectorMatch.id).dedup
  nodup := List.nodup_dedup _
  mem_iff id := by
    rw [List.mem_dedup, List.mem_append, lexicalRanks, denseRanks, mem_ranks_iff, mem_ranks_iff]

/-- The ids of the results are the first of the ranking. -/
theorem fuse_ids (score : Option ℕ → Option ℕ → α) (round6 : α → β) (query : String)
    (topK : ℕ) (iteration : Iteration hits found) :
    (fuse score round6 query topK hits found iteration).results.map HybridResult.id =
      (ranking (scoreOf score hits found) iteration.ids).take topK := by
  simp only [fuse, ranking_map, List.map_map, ← List.map_take]
  exact List.map_id'' (fun _ => rfl) _

/-- The results are made of their ids. -/
theorem fuse_results_eq_iff (score : Option ℕ → Option ℕ → α) (round6 : α → β)
    (query : String) (topK : ℕ) (first second : Iteration hits found) :
    (fuse score round6 query topK hits found first).results =
        (fuse score round6 query topK hits found second).results ↔
      (ranking (scoreOf score hits found) first.ids).take topK =
        (ranking (scoreOf score hits found) second.ids).take topK := by
  constructor
  · intro h
    rw [← fuse_ids score round6 query, ← fuse_ids score round6 query, h]
  · intro h
    simp only [fuse, ranking_map, ← List.map_take]
    exact congrArg _ (congrArg _ h)

/-- **When the results do not depend on the iteration**: of two documents with
equal score, at least `top_k` others have a higher one. -/
theorem fuse_eq_iff (score : Option ℕ → Option ℕ → α) (round6 : α → β) (query : String)
    (topK : ℕ) (hits : List (SearchHit F ι)) (found : List (VectorMatch F ι)) :
    (∀ first second : Iteration hits found,
        (fuse score round6 query topK hits found first).results =
          (fuse score round6 query topK hits found second).results) ↔
      ∀ id ∈ fusedIds hits found, ∀ other ∈ fusedIds hits found, id ≠ other →
        scoreOf score hits found id = scoreOf score hits found other →
        topK ≤ ((fusedIds hits found).filter fun higher =>
          scoreOf score hits found id < scoreOf score hits found higher).card := by
  let base := Iteration.inOrder hits found
  have hcount : ∀ id, base.ids.countP (scoreOf score hits found id < scoreOf score hits found ·) =
      ((fusedIds hits found).filter fun higher =>
        scoreOf score hits found id < scoreOf score hits found higher).card := by
    intro id
    have hfilter : ((fusedIds hits found).filter fun higher =>
          scoreOf score hits found id < scoreOf score hits found higher) =
        (base.ids.filter (scoreOf score hits found id < scoreOf score hits found ·)).toFinset := by
      ext higher
      simp [← base.mem_ids_iff]
    rw [hfilter, List.toFinset_card_of_nodup (base.nodup.filter _), List.countP_eq_length_filter]
  have htop := top_eq_iff (scoreOf score hits found) base.ids topK
  simp only [hcount, base.mem_ids_iff] at htop
  rw [← htop]
  constructor
  · intro h ids ids' hperm hperm'
    exact (fuse_results_eq_iff score round6 query topK _ _).mp
      (h (base.ofPerm hperm) (base.ofPerm hperm'))
  · intro h first second
    exact (fuse_results_eq_iff score round6 query topK first second).mpr
      (h first.ids second.ids (first.perm base) (second.perm base))

end Iterations

/-- One hit and one match, of two documents. -/
def oneHit : List (SearchHit WholeFloat String) := [⟨"a", .none⟩]

/-- One match, with another id. -/
def oneMatch : List (VectorMatch WholeFloat String) := [⟨"b", .none⟩]

/-- The id of the hit comes first. -/
def hitFirst : Iteration oneHit oneMatch where
  ids := ["a", "b"]
  nodup := by decide
  mem_iff id := by simp [lexicalRanks, denseRanks, mem_ranks_iff, oneHit, oneMatch]

/-- The id of the match comes first. -/
def matchFirst : Iteration oneHit oneMatch := hitFirst.ofPerm (.swap "a" "b" [])

/-- **Which of two equal documents is returned is up to the iteration.** Both
have the first rank in one of the lists, and there is room for one of them. -/
theorem tie_resolved_by_iteration :
    ¬ ∀ first second : Iteration oneHit oneMatch,
      (fuse (rrfScore 60) round6 "q" 1 oneHit oneMatch first).results =
        (fuse (rrfScore 60) round6 "q" 1 oneHit oneMatch second).results := by
  intro hsame
  have htie : scoreOf (rrfScore 60) oneHit oneMatch "a" =
      scoreOf (rrfScore 60) oneHit oneMatch "b" :=
    add_comm (share 60 (some 1)) (share 60 none)
  have htop := (fuse_results_eq_iff _ round6 "q" 1 _ _).mp (hsame hitFirst matchFirst)
  have hab : ranking (scoreOf (rrfScore 60) oneHit oneMatch) ["a", "b"] = ["a", "b"] :=
    List.mergeSort_of_pairwise (by simp [htie])
  have hba : ranking (scoreOf (rrfScore 60) oneHit oneMatch) ["b", "a"] = ["b", "a"] :=
    List.mergeSort_of_pairwise (by simp [htie])
  simp only [hitFirst, matchFirst, Iteration.ofPerm, hab, hba] at htop
  exact absurd htop (by decide)

/-! ## Exact scores -/

section Exact

variable [PyFloat F] {hits : List (SearchHit F ι)} {found : List (VectorMatch F ι)}

/-- The first rank is at least as good; no rank is worst. -/
def AsGood : Option ℕ → Option ℕ → Prop
  | _, none => True
  | none, some _ => False
  | some rank, some other => rank ≤ other

/-- The first document ranks at least as well in both lists, and better in
one. -/
structure RanksBetter (hits : List (SearchHit F ι)) (found : List (VectorMatch F ι))
    (id other : ι) : Prop where
  lexical : AsGood ((lexicalRanks hits).lookup id) ((lexicalRanks hits).lookup other)
  dense : AsGood ((denseRanks found).lookup id) ((denseRanks found).lookup other)
  better : ¬ AsGood ((lexicalRanks hits).lookup other) ((lexicalRanks hits).lookup id) ∨
    ¬ AsGood ((denseRanks found).lookup other) ((denseRanks found).lookup id)

/-- A rank as good has a share as large. -/
theorem share_le {rrfK : ℕ} {rank other : Option ℕ} (hpos : ∀ r ∈ rank, 0 < r)
    (h : AsGood rank other) : share rrfK other ≤ share rrfK rank := by
  cases other with
  | none =>
      cases rank with
      | none => exact le_rfl
      | some r =>
          have : (0 : ℚ) ≤ 1 / (rrfK + r) := by positivity
          exact this
  | some o =>
      cases rank with
      | none => exact absurd h id
      | some r =>
          have hr : 0 < r := hpos r rfl
          have hle : r ≤ o := h
          have hden : (0 : ℚ) < rrfK + r := by positivity
          exact one_div_le_one_div_of_le hden (by gcongr)

/-- A better rank has a larger share. -/
theorem share_lt {rrfK : ℕ} {rank other : Option ℕ} (hpos : ∀ r ∈ rank, 0 < r)
    (h : ¬ AsGood other rank) : share rrfK other < share rrfK rank := by
  cases rank with
  | none => exact absurd trivial h
  | some r =>
      have hr : 0 < r := hpos r rfl
      have hden : (0 : ℚ) < rrfK + r := by positivity
      cases other with
      | none =>
          have : (0 : ℚ) < 1 / (rrfK + r) := by positivity
          exact this
      | some o =>
          have hlt : r < o := not_le.mp h
          exact one_div_lt_one_div_of_lt hden (by gcongr)

omit [PyFloat F] in
/-- A document that ranks better has a higher score. -/
theorem RanksBetter.scoreOf_lt {rrfK : ℕ} {id other : ι} (h : RanksBetter hits found id other) :
    scoreOf (rrfScore rrfK) hits found other < scoreOf (rrfScore rrfK) hits found id := by
  have hlexical : ∀ r ∈ (lexicalRanks hits).lookup id, 0 < r := fun r hr => rank_pos hr
  have hdense : ∀ r ∈ (denseRanks found).lookup id, 0 < r := fun r hr => rank_pos hr
  rcases h.better with hbetter | hbetter
  · exact add_lt_add_of_lt_of_le (share_lt hlexical hbetter) (share_le hdense h.dense)
  · exact add_lt_add_of_le_of_lt (share_le hlexical h.lexical) (share_lt hdense hbetter)

omit [PyFloat F] in
/-- A document that ranks better than another one is in a list. -/
theorem RanksBetter.mem {id other : ι} (h : RanksBetter hits found id other) :
    id ∈ fusedIds hits found := by
  rw [fusedIds, List.mem_toFinset, List.mem_append, ← mem_ranks_iff, ← mem_ranks_iff]
  rcases h.better with hbetter | hbetter
  · refine Or.inl (by_contra fun hout => hbetter ?_)
    rw [lexicalRanks, AList.lookup_eq_none.mpr hout]
    trivial
  · refine Or.inr (by_contra fun hout => hbetter ?_)
    rw [denseRanks, AList.lookup_eq_none.mpr hout]
    trivial

/-- What the fusion is for: no document is lost or doubled, those with the
highest scores are returned in their order, and each is shown with its own
ranks. -/
structure Fuses (rrfK topK : ℕ) (hits : List (SearchHit F ι)) (found : List (VectorMatch F ι))
    (out : HybridResults F ι ℚ) : Prop where
  fusedFrom : out.fusedFrom = (fusedIds hits found).card
  length : out.results.length = min topK out.fusedFrom
  distinct : (out.results.map HybridResult.id).Nodup
  mem : ∀ result ∈ out.results, result.id ∈ fusedIds hits found
  ranked : ∀ result ∈ out.results,
    result.lexicalRank = (lexicalRanks hits).lookup result.id ∧
      result.denseRank = (denseRanks found).lookup result.id ∧
      result.rrfScore = round6 (scoreOf (rrfScore rrfK) hits found result.id)
  falling : out.results.Pairwise fun result next =>
    scoreOf (rrfScore rrfK) hits found next.id ≤ scoreOf (rrfScore rrfK) hits found result.id
  leftOut : ∀ id ∈ fusedIds hits found, id ∉ out.results.map HybridResult.id →
    ∀ result ∈ out.results,
      scoreOf (rrfScore rrfK) hits found id ≤ scoreOf (rrfScore rrfK) hits found result.id
  better : ∀ id other, RanksBetter hits found id other →
    ∀ j : ℕ, (out.results.map HybridResult.id)[j]? = some other →
      ∃ i < j, (out.results.map HybridResult.id)[i]? = some id

/-- **The fusion of exact scores does what it is for**, in whatever order the
ids are iterated. -/
theorem fuse_spec (query : String) (rrfK topK : ℕ) (hits : List (SearchHit F ι))
    (found : List (VectorMatch F ι)) (iteration : Iteration hits found) :
    Fuses rrfK topK hits found
      (fuse (rrfScore rrfK) round6 query topK hits found iteration) := by
  have hids := fuse_ids (rrfScore rrfK) round6 query topK iteration
  have hperm := ranking_perm (scoreOf (rrfScore rrfK) hits found) iteration.ids
  have hcount : (fuse (rrfScore rrfK) round6 query topK hits found iteration).fusedFrom =
      iteration.ids.length := by
    simp [fuse, (ranking_perm _ _).length_eq]
  have hmem : ∀ result ∈ (fuse (rrfScore rrfK) round6 query topK hits found iteration).results,
      result.id ∈ (ranking (scoreOf (rrfScore rrfK) hits found) iteration.ids).take topK := by
    intro result hresult
    rw [← hids]
    exact List.mem_map_of_mem hresult
  refine
    { fusedFrom := ?_, length := ?_, distinct := ?_, mem := ?_, ranked := ?_, falling := ?_
      leftOut := ?_, better := ?_ }
  · rw [hcount, ← iteration.toFinset_ids, List.toFinset_card_of_nodup iteration.nodup]
  · rw [hcount, ← List.length_map (f := HybridResult.id), hids, List.length_take,
      hperm.length_eq]
  · rw [hids]
    exact (hperm.nodup_iff.mpr iteration.nodup).sublist (List.take_sublist ..)
  · intro result hresult
    rw [← iteration.mem_ids_iff]
    exact hperm.subset (List.mem_of_mem_take (hmem result hresult))
  · intro result hresult
    simp only [fuse, ranking_map, ← List.map_take, List.map_map, List.mem_map] at hresult
    obtain ⟨id, -, rfl⟩ := hresult
    exact ⟨rfl, rfl, rfl⟩
  · have hsorted := (ranking_sorted (scoreOf (rrfScore rrfK) hits found) iteration.ids).sublist
      (List.take_sublist topK _)
    rw [← hids] at hsorted
    exact List.pairwise_map.mp hsorted
  · intro id hid hout result hresult
    rw [hids] at hout
    exact le_of_left_out (hmem result hresult) (iteration.mem_ids_iff.mpr hid) hout
  · intro id other hbetter j hj
    rw [hids] at hj ⊢
    have hj' : j < topK := by
      by_contra hle
      rw [List.getElem?_take_eq_none (Nat.not_lt.mp hle)] at hj
      cases hj
    rw [List.getElem?_take_of_lt hj'] at hj
    obtain ⟨i, hi, hentry⟩ := higher_before (iteration.mem_ids_iff.mpr hbetter.mem) hj
      hbetter.scoreOf_lt
    exact ⟨i, hi, by rw [List.getElem?_take_of_lt (hi.trans hj'), hentry]⟩

end Exact

/-! ## Occurrences -/

section Occurrences

/-- The rank of the last id is its place. -/
theorem lookup_ranks_concat (ids : List ι) (id other : ι) :
    (ranks (ids ++ [other])).lookup id =
      if id = other then some (ids.length + 1) else (ranks ids).lookup id := by
  rw [ranks, List.zipIdx_append, List.zipIdx_singleton, comprehension_concat]
  by_cases h : id = other
  · rw [if_pos h, h, AList.lookup_insert, Nat.add_comm]
  · rw [if_neg h, AList.lookup_insert_ne h, ranks]

/-- The ranks are those of the first occurrences exactly if each id has one
only. -/
theorem ranks_first_iff {ids : List ι} :
    (∀ id ∈ ids, (ranks ids).lookup id = some (ids.idxOf id + 1)) ↔ ids.Nodup := by
  induction ids using List.reverseRecOn with
  | nil => simp
  | append_singleton ids last ih =>
      have hnodup : (ids ++ [last]).Nodup ↔ ids.Nodup ∧ last ∉ ids := by
        rw [List.nodup_append_comm, List.singleton_append, List.nodup_cons, and_comm]
      rw [hnodup, ← ih]
      constructor
      · intro h
        have hlast : last ∉ ids := by
          intro hmem
          have hrank := h last (List.mem_append_right _ (List.mem_singleton_self _))
          rw [lookup_ranks_concat, if_pos rfl, List.idxOf_append_of_mem hmem] at hrank
          have hplace := List.idxOf_lt_length_of_mem hmem
          simp at hrank
          omega
        refine ⟨fun id hid => ?_, hlast⟩
        have hne : id ≠ last := fun heq => hlast (heq ▸ hid)
        have hrank := h id (List.mem_append_left _ hid)
        rwa [lookup_ranks_concat, if_neg hne, List.idxOf_append_of_mem hid] at hrank
      · rintro ⟨h, hlast⟩ id hid
        rw [lookup_ranks_concat]
        rcases List.mem_append.mp hid with hid | hid
        · have hne : id ≠ last := fun heq => hlast (heq ▸ hid)
          rw [if_neg hne, List.idxOf_append_of_mem hid, h id hid]
        · obtain rfl := List.mem_singleton.mp hid
          rw [if_pos rfl, List.idxOf_append_of_notMem hlast]
          simp

/-- What is kept under an id with one entry is that entry. -/
theorem lookup_eq_find? {β : Type} {key : β → ι} {l : List β} (hnodup : (l.map key).Nodup)
    (id : ι) :
    (comprehension (l.map fun b => (key b, b))).lookup id = l.find? (key · = id) := by
  have hkeys : (l.map fun b => (key b, b)).map Prod.fst = l.map key := by
    rw [List.map_map]
    rfl
  cases hfind : l.find? (key · = id) with
  | none =>
      rw [AList.lookup_eq_none, mem_comprehension_iff, hkeys, List.mem_map]
      rintro ⟨b, hb, hkey⟩
      exact absurd hkey (by simpa using List.find?_eq_none.mp hfind b hb)
  | some b =>
      have hkey : key b = id := by simpa using List.find?_some hfind
      apply lookup_comprehension (hkeys ▸ hnodup)
      exact List.mem_map.mpr ⟨b, List.mem_of_find?_eq_some hfind, by rw [hkey]⟩

variable {α β : Type} [LinearOrder α] [PyFloat F]

/-- Each id has the rank of its first occurrence, and a result has its source
from there. -/
structure FirstOccurrences (score : Option ℕ → Option ℕ → α) (round6 : α → β) (query : String)
    (topK : ℕ) (hits : List (SearchHit F ι)) (found : List (VectorMatch F ι))
    (iteration : Iteration hits found) : Prop where
  lexical : ∀ id ∈ hits.map SearchHit.id,
    (lexicalRanks hits).lookup id = some ((hits.map SearchHit.id).idxOf id + 1)
  dense : ∀ id ∈ found.map VectorMatch.id,
    (denseRanks found).lookup id = some ((found.map VectorMatch.id).idxOf id + 1)
  source : ∀ result ∈ (fuse score round6 query topK hits found iteration).results,
    result.source = sourceOf (hits.find? (·.id = result.id)) (found.find? (·.id = result.id))

/-- **When ranks and sources are those of the first occurrence**: no id occurs
twice in a list. -/
theorem firstOccurrences_iff (score : Option ℕ → Option ℕ → α) (round6 : α → β)
    (query : String) (topK : ℕ) (hits : List (SearchHit F ι)) (found : List (VectorMatch F ι))
    (iteration : Iteration hits found) :
    FirstOccurrences score round6 query topK hits found iteration ↔
      (hits.map SearchHit.id).Nodup ∧ (found.map VectorMatch.id).Nodup := by
  constructor
  · intro h
    exact ⟨ranks_first_iff.mp h.lexical, ranks_first_iff.mp h.dense⟩
  · rintro ⟨hhits, hfound⟩
    refine ⟨ranks_first_iff.mpr hhits, ranks_first_iff.mpr hfound, ?_⟩
    intro result hresult
    simp only [fuse, List.mem_map] at hresult
    obtain ⟨entry, -, rfl⟩ := hresult
    exact congrArg₂ sourceOf (lookup_eq_find? hhits _) (lookup_eq_find? hfound _)

end Occurrences

/-- A document found in two indices, and between the two another one. -/
def hitTwice : List (SearchHit WholeFloat String) :=
  [⟨"a", .str "current"⟩, ⟨"b", .none⟩, ⟨"a", .str "archive"⟩]

/-- **A document that occurs twice has the rank of its last occurrence.** -/
theorem last_occurrence_ranked :
    ¬ FirstOccurrences (rrfScore 60) round6 "q" 10 hitTwice []
      (Iteration.inOrder hitTwice []) := by
  intro h
  have hrank := h.lexical "a" (by decide)
  exact absurd hrank (by decide)

/-! ## In the tool -/

section Tool

variable {F α : Type} [LinearOrder α] [PyFloat F]

/-- A hit as `elasticsearch.search` shows it.  The ids of Elasticsearch are
texts. -/
def hit? (h : PyValue F) : Option (SearchHit F String) := do
  let d ← h.asDict?
  match (← d.get? "id").val with
  | .str id => some ⟨id, (d.get? "source").getD .none⟩
  | _ => none

/-- A match as `vector.search` shows it, under `str(m["id"])`. -/
def match? (m : PyValue F) : Option (VectorMatch F String) := do
  let d ← m.asDict?
  let id ← d.get? "id"
  return ⟨PyText.pyStrValue id.val, (d.get? "payload").getD .none⟩

/-- The items that a search shows under a name. -/
def shown? {β : Type} (read : PyValue F → Option β) (name : String) (result : PyDict F) :
    Option (List β) := do
  let items ← result.get? name
  (← items.iter.toOption).mapM read

/-- How scores are computed and rounded, and in which order each set of ids is
iterated. -/
structure Arithmetic (F α : Type) where
  score : ℤ → Option ℕ → Option ℕ → α
  round6 : α → F
  iteration : (hits : List (SearchHit F String)) → (found : List (VectorMatch F String)) →
    Iteration hits found

/-- Exact arithmetic, with the ids in the order in which they were found. -/
def Arithmetic.exact : Arithmetic F ℚ where
  score rrfK := rrfScore rrfK.toNat
  round6 x := PyFloat.ofRat (HybridSearchTool.round6 x)
  iteration := Iteration.inOrder

/-- A rank as the result shows it: `None` for a document that is not in the
list. -/
def rankValue (rank : Option ℕ) : PyValue F := rank.elim .none fun n => .int n

/-- The document as the result shows it. -/
def HybridResult.toValue (r : HybridResult F String F) : PyValue F :=
  .dict (.ofPairs [("id", .str r.id), ("rrf_score", ⟨.float r.rrfScore, trivial⟩),
    ("lexical_rank", rankValue r.lexicalRank), ("dense_rank", rankValue r.denseRank),
    ("source", r.source)] (by simp))

/-- The result as the tool returns it. -/
def HybridResults.toDict (out : HybridResults F String F) : PyDict F :=
  .ofPairs [("query", .str out.query), ("results", .list (out.results.map HybridResult.toValue)),
    ("fused_from", .int out.fusedFrom)] (by simp)

/-- What the tool makes of the results of the two searches.  Where an id of
Elasticsearch is no text, it is up to `otherwise`. -/
def fused (py : Arithmetic F α)
    (otherwise : HybridSearchInput → PyDict F → PyDict F → Except (Errors.Exc F) (PyDict F))
    (input : HybridSearchInput) (es vs : PyDict F) : Except (Errors.Exc F) (PyDict F) :=
  match shown? hit? "hits" es, shown? match? "matches" vs with
  | some hits, some found =>
      .ok (fuse (py.score input.rrfK) py.round6 input.query input.topK.toNat hits found
        (py.iteration hits found)).toDict
  | _, _ => otherwise input es vs

/-- What `vector.search` shows can be read. -/
theorem exists_match_of_matchOf {m w : PyValue F} (h : VectorSearchTool.matchOf m = .ok w) :
    ∃ x, match? w = some x := by
  obtain ⟨id, -, h⟩ := Errors.exists_of_bind_ok h
  obtain ⟨score, -, h⟩ := Errors.exists_of_bind_ok h
  obtain ⟨payload, -, h⟩ := Errors.exists_of_bind_ok h
  obtain rfl := Except.ok.inj h
  exact ⟨_, by
    rw [match?, PyValue.asDict?_dict, Option.bind_eq_bind, Option.bind_some,
      PyDict.get?_ofPairs_cons]
    rfl⟩

/-- Matches that were shown can be read back, each by itself. -/
theorem exists_matches_of_shown {items shown : List (PyValue F)}
    (h : List.Forall₂ (fun m w => VectorSearchTool.matchOf m = .ok w) items shown) :
    ∃ found, shown.mapM match? = some found := by
  induction h with
  | nil => exact ⟨[], rfl⟩
  | cons hfirst _ ih =>
      obtain ⟨x, hx⟩ := exists_match_of_matchOf hfirst
      obtain ⟨found, hfound⟩ := ih
      exact ⟨x :: found, by simp [hx, hfound]⟩

/-- All that `vector.search` returns can be read as matches, whatever the
client has answered. -/
theorem exists_matches_of_resultOf {answer : PyValue F} {vs : PyDict F}
    (h : VectorSearchTool.resultOf answer = .ok vs) :
    ∃ found, shown? match? "matches" vs = some found := by
  obtain ⟨items, -, h⟩ := Errors.exists_of_bind_ok h
  obtain ⟨shown, hshown, h⟩ := Errors.exists_of_bind_ok h
  obtain rfl := Except.ok.inj h
  obtain ⟨found, hfound⟩ := exists_matches_of_shown (Errors.forall₂_of_mapM hshown)
  refine ⟨found, ?_⟩
  obtain ⟨xs, hxs, hvals⟩ := PyValue.iter_of_list (v := PyValue.list shown) rfl
  obtain rfl : xs = shown := List.map_injective_iff.mpr Subtype.val_injective hvals
  rw [shown?, PyDict.get?_ofPairs_cons, Option.bind_eq_bind, Option.bind_some, hxs]
  exact hfound

/-- **What the tool returns is the fusion of what it has found.**  If it
returns, both searches were answered, and if the ids of Elasticsearch are
texts, it returns the fusion of the hits and the matches that they show. -/
theorem exists_fuse_of_ran {py : Arithmetic F α}
    {otherwise : HybridSearchInput → PyDict F → PyDict F → Except (Errors.Exc F) (PyDict F)}
    {tenant : String} {input : HybridSearchInput}
    {l : List (Dialogues.Exchange (BackendCall F) (BackendAnswer F))} {result : PyDict F}
    (h : Ran (fused py otherwise) tenant input l (.ok result)) :
    ∃ resp es collection vector topK filter answer vs found,
      ⟨.search tenant input.esIndex
        (ElasticsearchSearchTool.requestBody tenant (lexicalInput input)), .ok resp⟩ ∈ l ∧
      ElasticsearchSearchTool.resultOf resp = .ok es ∧
      ⟨.vectorSearch collection vector topK filter, .ok answer⟩ ∈ l ∧
      VectorSearchTool.resultOf answer = .ok vs ∧ shown? match? "matches" vs = some found ∧
      ∀ hits, shown? hit? "hits" es = some hits →
        result = (fuse (py.score input.rrfK) py.round6 input.query input.topK.toNat hits found
          (py.iteration hits found)).toDict := by
  rcases h with ⟨e, -, habsurd⟩ | ⟨⟨es, embeddings⟩, first, rest, rfl, hgathered, hdense⟩
  · cases habsurd
  cases hgathered with
  | both hlexical hembedded hmix =>
      obtain ⟨answered, rfl, hes⟩ := Dialogues.Program.talk_asking_iff.mp hlexical
      obtain ⟨vector, none₁, rest₁, rfl, -, hdense⟩ :=
        Dialogues.Program.exists_of_talk_bind_ok hdense
      obtain ⟨search, none₂, rest₂, rfl, -, hdense⟩ :=
        Dialogues.Program.exists_of_talk_bind_ok hdense
      obtain ⟨vs, searched, fusing, rfl, hsearch, hfused⟩ :=
        Dialogues.Program.exists_of_talk_bind_ok hdense
      obtain ⟨rfl, hresult⟩ := Dialogues.Program.talk_ofExcept_iff.mp hfused
      obtain ⟨filter, none₃, asked, rfl, -, hasked⟩ :=
        Dialogues.Program.exists_of_talk_bind_ok hsearch
      obtain ⟨found, rfl, hvs⟩ := Dialogues.Program.talk_asking_iff.mp hasked
      cases answered with
      | error failure => cases hes
      | ok resp =>
          cases found with
          | error failure => cases hvs
          | ok answer =>
              obtain ⟨found, hfound⟩ := exists_matches_of_resultOf hvs.symm
              refine ⟨resp, es, search.collection, search.vector, search.topK, filter, answer, vs,
                found, ?_, hes.symm, ?_, hvs.symm, hfound, fun hits hhits => ?_⟩
              · exact List.mem_append_left _ (hmix.mem_iff.mpr (Or.inl (List.mem_singleton_self _)))
              · simp
              · rw [fused, hhits, hfound] at hresult
                exact Except.ok.inj hresult

end Tool

end HybridSearchTool

end Server

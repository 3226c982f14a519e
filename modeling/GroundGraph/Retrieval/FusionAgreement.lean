import GroundGraph.Retrieval.Hybrid

/-! The fusion without graph evidence. Its entries agree with the results of
`reciprocal_rank_fusion` in all that the evidence is made of, but for the score of the vector
search: one keeps the first that a chunk came with, the other the last.
-/

set_option autoImplicit false

namespace GroundGraph.Retrieval

/-- The first of the results with this id, or the last. -/
def firstResult (id : UUID) (results : List RetrievedChunk) : Option RetrievedChunk :=
  results.find? fun c => decide (c.chunkId = id)

def lastResult (id : UUID) (results : List RetrievedChunk) : Option RetrievedChunk :=
  firstResult id results.reverse

theorem firstResult_isSome_iff {id : UUID} {results : List RetrievedChunk} :
    (firstResult id results).isSome = true ↔ ∃ c ∈ results, c.chunkId = id := by
  unfold firstResult
  rw [List.find?_isSome]
  simp

theorem lastResult_isSome_iff {id : UUID} {results : List RetrievedChunk} :
    (lastResult id results).isSome = true ↔ ∃ c ∈ results, c.chunkId = id := by
  unfold lastResult
  rw [firstResult_isSome_iff]
  simp only [List.mem_reverse]

theorem lastResult_eq_firstResult (id : UUID) {results : List RetrievedChunk}
    (hids : (results.map RetrievedChunk.chunkId).Nodup) :
    lastResult id results = firstResult id results := by
  cases hfirst : firstResult id results with
  | none =>
    rw [← Option.not_isSome_iff_eq_none, lastResult_isSome_iff, ← firstResult_isSome_iff, hfirst]
    exact Bool.false_ne_true
  | some c =>
    have hc : c ∈ results ∧ c.chunkId = id :=
      ⟨List.mem_of_find?_eq_some hfirst, by simpa using List.find?_some hfirst⟩
    obtain ⟨c', hlast⟩ := Option.isSome_iff_exists.mp
      (lastResult_isSome_iff.mpr ⟨c, hc.1, hc.2⟩)
    have hc' : c' ∈ results ∧ c'.chunkId = id :=
      ⟨List.mem_reverse.mp (List.mem_of_find?_eq_some hlast), by simpa using List.find?_some hlast⟩
    rw [hlast, List.inj_on_of_nodup_map hids hc'.1 hc.1 (hc'.2.trans hc.2.symm)]

section
variable {vectorResults keywordResults : List RetrievedChunk}

theorem find?_first (id : UUID) (vector : Bool) (results : List RetrievedChunk) :
    (((ranked results).map fun r => (⟨r.1, r.2, vector⟩ : Occurrence)).find?
      fun o => decide (o.id = id)).map Occurrence.chunk = firstResult id results := by
  have hresults : firstResult id results = firstResult id ((ranked results).map Prod.fst) := by
    rw [ranked_map_fst]
  rw [hresults, firstResult, List.find?_map, List.find?_map, Option.map_map]
  rfl

theorem find?_last (vectorResults keywordResults : List RetrievedChunk) (id : UUID) :
    ((occurrences vectorResults keywordResults).reverse.find? fun o =>
      o.vector && decide (o.id = id)).map Occurrence.chunk = lastResult id vectorResults := by
  have hkeyword : (((ranked keywordResults).map fun r => (⟨r.1, r.2, false⟩ : Occurrence)).reverse.find?
      fun o => o.vector && decide (o.id = id)) = none := by
    rw [List.find?_eq_none]
    intro o ho
    obtain ⟨r, -, rfl⟩ := List.mem_map.mp (List.mem_reverse.mp ho)
    exact Bool.false_ne_true
  have hresults : lastResult id vectorResults =
      firstResult id ((ranked vectorResults).reverse.map Prod.fst) := by
    rw [List.map_reverse, ranked_map_fst]
    rfl
  rw [hresults, occurrences, List.reverse_append, List.find?_append, hkeyword, Option.none_or,
    ← List.map_reverse, firstResult, List.find?_map, List.find?_map, Option.map_map]
  rfl

theorem firstResult_of_mem {o : Occurrence}
    (ho : o ∈ firstOccurrences vectorResults keywordResults) :
    firstResult o.id vectorResults = if o.vector then some o.chunk else none := by
  have hfirst := FirstPerKey.find?_of_mem ho
  rw [occurrences, List.find?_append] at hfirst
  rw [← find?_first o.id true]
  cases hvector : ((ranked vectorResults).map fun r => (⟨r.1, r.2, true⟩ : Occurrence)).find?
      fun o' => decide (o'.id = o.id) with
  | some o' =>
    rw [hvector, Option.some_or] at hfirst
    obtain rfl := Option.some.inj hfirst
    obtain ⟨r, -, hr⟩ := List.mem_map.mp (List.mem_of_find?_eq_some hvector)
    rw [← hr]
    rfl
  | none =>
    rw [hvector, Option.none_or] at hfirst
    obtain ⟨r, -, hr⟩ := List.mem_map.mp (List.mem_of_find?_eq_some hfirst)
    rw [← hr]
    rfl

theorem hybridEntry_vectorScore {o : Occurrence} (evidenceId : UUID)
    (ho : o ∈ firstOccurrences vectorResults keywordResults) :
    (hybridEntry vectorResults keywordResults evidenceId o).vectorScore =
      (firstResult o.id vectorResults).bind RetrievedChunk.vectorScore := by
  have hstart : (hybridEntry vectorResults keywordResults evidenceId o).vectorScore =
      if o.vector then o.chunk.vectorScore else none :=
    hybridEntry_frame (fun _ _ => rfl) evidenceId o
  rw [hstart, firstResult_of_mem ho]
  split
  · rfl
  · rfl

theorem fusedResult_vectorScore {o : Occurrence} (k : Nat)
    (ho : o ∈ firstOccurrences vectorResults keywordResults) :
    (fusedResult vectorResults keywordResults k o).vectorScore =
      (lastResult o.id vectorResults).bind RetrievedChunk.vectorScore := by
  have hlast := (fusionTally k).total_last FusionResult.vectorScore Occurrence.vector
    (fun o => o.chunk.vectorScore) (fun o e hw => if_pos hw)
    (fun o e hw => if_neg (Bool.eq_false_iff.mp hw)) (occurrences vectorResults keywordResults)
    ((fusionTally k).start o)
  have hkey : ∀ a : Occurrence, (fusionTally k).keyOf a = a.id := fun _ => rfl
  have hid : ((fusionTally k).start o).chunkId = o.id := rfl
  simp only [hkey, hid] at hlast
  refine hlast.trans ?_
  rw [← find?_last vectorResults keywordResults]
  cases hfind : (occurrences vectorResults keywordResults).reverse.find?
      fun a => a.vector && decide (a.id = o.id) with
  | some a => rfl
  | none =>
    -- the chunk is in the keyword results only
    have hvector : o.vector = false := by
      have hnone := List.find?_eq_none.mp hfind o (List.mem_reverse.mpr (FirstPerKey.mem_imp ho).1)
      simpa using hnone
    exact if_neg (Bool.eq_false_iff.mp hvector)

end

def HybridEntry.chunkEvidence (e : HybridEntry) : Evidence where
  evidenceId := e.evidenceId
  sourceId := e.sourceId
  documentId := e.documentId
  chunkId := e.chunkId
  versionId := e.versionId
  content := e.content
  retrievalMethod := determineRetrievalMethod e
  vectorScore := e.vectorScore
  graphPathFactIds := e.graphPathFactIds
  allowedPrincipals := e.allowedPrincipals
  temporalBounds := absent_bounds

theorem toEvidence_unbounded {e : HybridEntry} (hfrom : e.validFrom = none) (hto : e.validTo = none) :
    e.toEvidence = .ok e.chunkEvidence := by
  obtain ⟨key, evidenceId, sourceId, documentId, versionId, chunkId, content, vectorScore,
    keywordScore, graphScore, rrfScore, allowedPrincipals, facts, validFrom, validTo⟩ := e
  obtain rfl : validFrom = none := hfrom
  obtain rfl : validTo = none := hto
  have hbounds : ∀ f ∈ (none : Option Instant), ∀ t ∈ (none : Option Instant), f < t := by
    intro f hf
    cases hf
  exact dif_pos hbounds

theorem mapM_toEvidence {entries : List HybridEntry}
    (h : ∀ e ∈ entries, e.validFrom = none ∧ e.validTo = none) :
    entries.mapM HybridEntry.toEvidence = .ok (entries.map HybridEntry.chunkEvidence) := by
  induction entries with
  | nil => rfl
  | cons e entries ih =>
    obtain ⟨hfrom, hto⟩ := h e List.mem_cons_self
    rw [List.mapM_cons, toEvidence_unbounded hfrom hto,
      ih fun e' he' => h e' (List.mem_cons_of_mem _ he')]
    rfl

def Evidence.withId (evidenceId : UUID) (e : Evidence) : Evidence := { e with evidenceId := evidenceId }

def rankedOccurrences (vectorResults keywordResults : List RetrievedChunk) : List Occurrence :=
  (firstOccurrences vectorResults keywordResults).insertionSort fun a b =>
    rrfSum rrfK vectorResults keywordResults b.id ≤ rrfSum rrfK vectorResults keywordResults a.id

def keptOccurrences (vectorResults keywordResults : List RetrievedChunk) : List Occurrence :=
  firstPerKey (fun o => o.chunk.sourceId) [] (rankedOccurrences vectorResults keywordResults)

section
variable {vectorResults keywordResults : List RetrievedChunk}

theorem map_fusedResult :
    reciprocalRankFusion vectorResults keywordResults rrfK =
      (rankedOccurrences vectorResults keywordResults).map
        (fusedResult vectorResults keywordResults rrfK) := by
  rw [reciprocalRankFusion_eq, rankedOccurrences]
  refine (List.map_insertionSort _ _ _ _ ?_).symm
  intro a _ b _
  rw [fusedResult_rrfScore, fusedResult_rrfScore]

theorem map_hybridEntry (evidenceId : UUID) (uuid4 : Nat → UUID) :
    (byScore (chunkTable uuid4 vectorResults keywordResults)).map (HybridEntry.withId evidenceId) =
      (rankedOccurrences vectorResults keywordResults).map
        (hybridEntry vectorResults keywordResults evidenceId) := by
  have hwith := List.map_insertionSort (fun a b : HybridEntry => b.rrfScore ≤ a.rrfScore)
    (fun a b : HybridEntry => b.rrfScore ≤ a.rrfScore) (HybridEntry.withId evidenceId)
    (chunkTable uuid4 vectorResults keywordResults).rows fun _ _ _ _ => Iff.rfl
  rw [byScore, hwith, rows_chunkTable, rankedOccurrences]
  refine (List.map_insertionSort _ _ _ _ ?_).symm
  intro a _ b _
  rw [hybridEntry_rrfScore, hybridEntry_rrfScore]

theorem chunkEvidence_hybridEntry {o : Occurrence} (evidenceId : UUID)
    (ho : o ∈ firstOccurrences vectorResults keywordResults)
    (hids : (vectorResults.map RetrievedChunk.chunkId).Nodup) :
    (hybridEntry vectorResults keywordResults evidenceId o).chunkEvidence =
      (fusedResult vectorResults keywordResults rrfK o).toEvidence evidenceId := by
  have hscore : (hybridEntry vectorResults keywordResults evidenceId o).vectorScore =
      (fusedResult vectorResults keywordResults rrfK o).vectorScore := by
    rw [hybridEntry_vectorScore evidenceId ho, fusedResult_vectorScore rrfK ho,
      lastResult_eq_firstResult o.id hids]
  have hmethod := @method_of_hybridEntry vectorResults keywordResults evidenceId o
  rw [hscore] at hmethod
  unfold HybridEntry.chunkEvidence FusionResult.toEvidence
  rw [Evidence.mk.injEq]
  refine ⟨?_, ?_, ?_, ?_, ?_, rfl, ?_, hmethod, hscore, rfl, ?_, rfl, rfl, ?_⟩
  · exact hybridEntry_frame (fun _ _ => rfl) evidenceId o
  · exact (hybridEntry_sourceId evidenceId o).trans (fusedResult_sourceId o).symm
  · exact (hybridEntry_frame (fun _ _ => rfl) evidenceId o).trans
      (fusedResult_frame (g := FusionResult.documentId) (fun _ _ => rfl) o).symm
  · rw [fusedResult_chunkId]
    exact hybridEntry_frame (fun _ _ => rfl) evidenceId o
  · exact (hybridEntry_frame (fun _ _ => rfl) evidenceId o).trans
      (fusedResult_frame (g := FusionResult.versionId) (fun _ _ => rfl) o).symm
  · exact (hybridEntry_frame (fun _ _ => rfl) evidenceId o).trans
      (fusedResult_frame (g := FusionResult.content) (fun _ _ => rfl) o).symm
  · exact hybridEntry_frame (fun _ _ => rfl) evidenceId o
  · exact (hybridEntry_frame (fun _ _ => rfl) evidenceId o).trans
      (fusedResult_frame (g := FusionResult.allowedPrincipals) (fun _ _ => rfl) o).symm

theorem hybridRrfFusion_no_graph (uuid4 : Nat → UUID) (order : SetOrder) :
    hybridRrfFusion uuid4 order vectorResults keywordResults [] =
      .ok ((firstPerKey HybridEntry.sourceId []
        (byScore (chunkTable uuid4 vectorResults keywordResults))).map
          HybridEntry.chunkEvidence) := by
  refine mapM_toEvidence ?_
  intro e he
  obtain ⟨o, -, heq⟩ := exists_of_mem_chunkTable (mem_byScore.mp (FirstPerKey.mem_imp he).1)
  rw [← heq]
  exact ⟨hybridEntry_frame (fun _ _ => rfl) _ o, hybridEntry_frame (fun _ _ => rfl) _ o⟩

/-- The fusion without graph evidence is the plain one, with the first result of each source. -/
theorem hybridRrfFusion_extends (uuid4 : Nat → UUID) (order : SetOrder) (evidenceId : UUID)
    (hids : (vectorResults.map RetrievedChunk.chunkId).Nodup) :
    ∃ out, hybridRrfFusion uuid4 order vectorResults keywordResults [] = .ok out ∧
      out.map (Evidence.withId evidenceId) =
        (firstPerKey FusionResult.sourceId []
          (reciprocalRankFusion vectorResults keywordResults rrfK)).map
            fun r => r.toEvidence evidenceId := by
  refine ⟨_, hybridRrfFusion_no_graph uuid4 order, ?_⟩
  have hhybrid : (firstPerKey HybridEntry.sourceId []
      (byScore (chunkTable uuid4 vectorResults keywordResults))).map (HybridEntry.withId evidenceId) =
        (keptOccurrences vectorResults keywordResults).map
          (hybridEntry vectorResults keywordResults evidenceId) := by
    have hmap := FirstPerKey.map (HybridEntry.withId evidenceId) HybridEntry.sourceId []
      (byScore (chunkTable uuid4 vectorResults keywordResults))
    rw [map_hybridEntry, FirstPerKey.map] at hmap
    simp only [hybridEntry_sourceId] at hmap
    exact hmap.symm
  have hplain : firstPerKey FusionResult.sourceId []
      (reciprocalRankFusion vectorResults keywordResults rrfK) =
        (keptOccurrences vectorResults keywordResults).map
          (fusedResult vectorResults keywordResults rrfK) := by
    rw [map_fusedResult, FirstPerKey.map]
    simp only [fusedResult_sourceId]
    rfl
  have herase : ∀ entries : List HybridEntry,
      (entries.map HybridEntry.chunkEvidence).map (Evidence.withId evidenceId) =
        (entries.map (HybridEntry.withId evidenceId)).map HybridEntry.chunkEvidence := by
    intro entries
    rw [List.map_map, List.map_map]
    rfl
  rw [herase, hhybrid, hplain, List.map_map, List.map_map]
  apply List.map_congr_left
  intro o ho
  have hfirst := (List.mem_insertionSort _).mp (FirstPerKey.mem_imp ho).1
  exact chunkEvidence_hybridEntry evidenceId hfirst hids

end

/-- Two chunks of one source, and one that both searches find. -/
theorem hybridRrfFusion_extends_overlap :
    ∃ out, hybridRrfFusion (BitVec.ofNat 128) listedSet
        [bushResult 1 10 (some 0x3FE0000000000000) none, bushResult 2 10 (some 0x3FF0000000000000) none]
        [bushResult 2 10 none (some 0x3FF0000000000000), bushResult 3 11 none (some 0x3FE0000000000000)]
        [] = .ok out ∧
      out.map (Evidence.withId 0) =
        (firstPerKey FusionResult.sourceId [] (reciprocalRankFusion
          [bushResult 1 10 (some 0x3FE0000000000000) none,
            bushResult 2 10 (some 0x3FF0000000000000) none]
          [bushResult 2 10 none (some 0x3FF0000000000000),
            bushResult 3 11 none (some 0x3FE0000000000000)] rrfK)).map fun r => r.toEvidence 0 :=
  hybridRrfFusion_extends _ _ 0 (by decide)

end GroundGraph.Retrieval

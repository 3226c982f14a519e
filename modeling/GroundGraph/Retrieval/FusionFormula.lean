import GroundGraph.Library.StableSort
import GroundGraph.Library.Tally
import GroundGraph.Retrieval.Fusion

/-! Reciprocal rank fusion against its formula. The two loops are one count over the places of the
chunks in both lists, so an entry has the fields of the first place of its chunk and the sum
over all of them.
-/

set_option autoImplicit false

namespace GroundGraph.Retrieval

/-- A chunk at its rank in the vector results, or in the keyword results. -/
structure Occurrence where
  chunk : RetrievedChunk
  rank : Nat
  vector : Bool

def Occurrence.id (o : Occurrence) : UUID := o.chunk.chunkId

def occurrences (vectorResults keywordResults : List RetrievedChunk) : List Occurrence :=
  ((ranked vectorResults).map fun r => ⟨r.1, r.2, true⟩) ++
    (ranked keywordResults).map fun r => ⟨r.1, r.2, false⟩

def firstOccurrences (vectorResults keywordResults : List RetrievedChunk) : List Occurrence :=
  firstPerKey Occurrence.id [] (occurrences vectorResults keywordResults)

def ranksOf (id : UUID) (results : List RetrievedChunk) : List Nat :=
  ((results.zipIdx 1).filter fun r => decide (r.1.chunkId = id)).map Prod.snd

/-- The sum of `1 / (k + rank)` over all the places of a chunk. -/
def rrfSum (k : Nat) (vectorResults keywordResults : List RetrievedChunk) (id : UUID) : Rat :=
  ((ranksOf id vectorResults ++ ranksOf id keywordResults).map fun rank : Nat =>
    1 / ((k : Rat) + (rank : Rat))).sum

theorem forall_mem_ranked {α : Type} {results : List α} {p : α → Prop} :
    (∀ r ∈ ranked results, p r.1) ↔ ∀ a ∈ results, p a := by
  conv_rhs => rw [← ranked_map_fst results]
  exact List.forall_mem_map.symm

section
variable (vectorResults keywordResults : List RetrievedChunk)

theorem occurrences_map_chunk :
    (occurrences vectorResults keywordResults).map Occurrence.chunk =
      vectorResults ++ keywordResults := by
  unfold occurrences
  rw [List.map_append, List.map_map, List.map_map]
  exact congrArg₂ (· ++ ·) (ranked_map_fst _) (ranked_map_fst _)

theorem occurrences_map_id :
    (occurrences vectorResults keywordResults).map Occurrence.id =
      (vectorResults ++ keywordResults).map RetrievedChunk.chunkId := by
  rw [← occurrences_map_chunk, List.map_map]
  rfl

theorem sum_occurrences (k : Nat) (id : UUID) :
    (((occurrences vectorResults keywordResults).filter fun o => decide (o.id = id)).map
      fun o => reciprocalRank k o.rank).sum = rrfSum k vectorResults keywordResults id := by
  unfold occurrences rrfSum ranksOf
  rw [List.filter_append, List.filter_map, List.filter_map, List.map_append, List.map_append,
    List.map_map, List.map_map, List.map_map, List.map_map]
  rfl

theorem find?_chunk {o : Occurrence}
    (ho : o ∈ firstOccurrences vectorResults keywordResults) :
    (vectorResults ++ keywordResults).find? (fun c => decide (c.chunkId = o.id)) = some o.chunk := by
  rw [← occurrences_map_chunk, List.find?_map]
  have hfirst := FirstPerKey.find?_of_mem ho
  exact congrArg (Option.map Occurrence.chunk) hfirst

end

/-- What the two loops of `reciprocal_rank_fusion` do with a chunk. -/
def fusionTally (k : Nat) : Tally FusionResult.chunkId Occurrence where
  start o := newFusionResult (if o.vector then o.chunk.vectorScore else none)
    (if o.vector then none else o.chunk.keywordScore) o.chunk
  add o e := { e with
    rrfScore := e.rrfScore + reciprocalRank k o.rank
    vectorScore := if o.vector then o.chunk.vectorScore else e.vectorScore
    keywordScore := if o.vector then e.keywordScore else o.chunk.keywordScore }
  key_add _ _ := rfl

def fusedResult (vectorResults keywordResults : List RetrievedChunk) (k : Nat) (o : Occurrence) :
    FusionResult :=
  (fusionTally k).total (occurrences vectorResults keywordResults) ((fusionTally k).start o)

theorem foldl_addResults (vectorResults keywordResults : List RetrievedChunk) (k : Nat) :
    (ranked keywordResults).foldl (addKeywordResult k)
        ((ranked vectorResults).foldl (addVectorResult k) .empty) =
      (occurrences vectorResults keywordResults).foldl (fusionTally k).step .empty := by
  unfold occurrences
  rw [List.foldl_append, List.foldl_map, List.foldl_map]
  rfl

theorem reciprocalRankFusion_eq (vectorResults keywordResults : List RetrievedChunk) (k : Nat) :
    reciprocalRankFusion vectorResults keywordResults k =
      ((firstOccurrences vectorResults keywordResults).map
        (fusedResult vectorResults keywordResults k)).insertionSort
        fun a b => b.rrfScore ≤ a.rrfScore := by
  have hrows := (fusionTally k).rows_foldl (occurrences vectorResults keywordResults)
  rw [← foldl_addResults] at hrows
  unfold reciprocalRankFusion
  simp only [hrows]
  rfl

section
variable {vectorResults keywordResults : List RetrievedChunk} {k : Nat}

theorem mem_reciprocalRankFusion {r : FusionResult} :
    r ∈ reciprocalRankFusion vectorResults keywordResults k ↔
      ∃ o ∈ firstOccurrences vectorResults keywordResults,
        fusedResult vectorResults keywordResults k o = r := by
  rw [reciprocalRankFusion_eq, List.mem_insertionSort, List.mem_map]

@[simp] theorem fusedResult_chunkId (o : Occurrence) :
    (fusedResult vectorResults keywordResults k o).chunkId = o.id :=
  (fusionTally k).key_total _ _

/-- The fields that neither loop writes to are those of the first result. -/
theorem fusedResult_frame {β : Type} {g : FusionResult → β}
    (hg : ∀ o e, g ((fusionTally k).add o e) = g e) (o : Occurrence) :
    g (fusedResult vectorResults keywordResults k o) = g ((fusionTally k).start o) :=
  (fusionTally k).total_frame hg _ _

@[simp] theorem fusedResult_sourceId (o : Occurrence) :
    (fusedResult vectorResults keywordResults k o).sourceId = o.chunk.sourceId :=
  fusedResult_frame (fun _ _ => rfl) o

theorem fusedResult_rrfScore (o : Occurrence) :
    (fusedResult vectorResults keywordResults k o).rrfScore =
      rrfSum k vectorResults keywordResults o.id := by
  have hsum := (fusionTally k).total_sum FusionResult.rrfScore
    (fun o => reciprocalRank k o.rank) (fun _ _ => rfl)
    (occurrences vectorResults keywordResults) ((fusionTally k).start o)
  exact hsum.trans ((zero_add _).trans (sum_occurrences _ _ k o.id))

end

/-- The place of the first result with this id, the vector results before the keyword results. -/
def firstPlace (vectorResults keywordResults : List RetrievedChunk) (id : UUID) : Nat :=
  ((vectorResults ++ keywordResults).map RetrievedChunk.chunkId).idxOf id

theorem firstOccurrences_inOrder (vectorResults keywordResults : List RetrievedChunk) :
    (firstOccurrences vectorResults keywordResults).Pairwise fun a b =>
      firstPlace vectorResults keywordResults a.id <
        firstPlace vectorResults keywordResults b.id := by
  have hfirst := FirstPerKey.pairwise_idxOf Occurrence.id (occurrences vectorResults keywordResults)
  rw [occurrences_map_id] at hfirst
  exact hfirst

structure FusedByFormula (k : Nat) (vectorResults keywordResults : List RetrievedChunk)
    (fused : List FusionResult) : Prop where
  once : (fused.map FusionResult.chunkId).Nodup
  union : ∀ id, id ∈ fused.map FusionResult.chunkId ↔
    id ∈ (vectorResults ++ keywordResults).map RetrievedChunk.chunkId
  score : ∀ r ∈ fused, r.rrfScore = rrfSum k vectorResults keywordResults r.chunkId
  order : fused.Pairwise (StableSort.Before FusionResult.rrfScore fun r =>
    firstPlace vectorResults keywordResults r.chunkId)
  fields : ∀ r ∈ fused, ∃ c,
    (vectorResults ++ keywordResults).find? (fun c => decide (c.chunkId = r.chunkId)) = some c ∧
      r.sourceId = c.sourceId ∧ r.documentId = c.documentId ∧ r.versionId = c.versionId ∧
      r.content = c.content ∧ r.allowedPrincipals = c.allowedPrincipals

theorem reciprocalRankFusion_formula (vectorResults keywordResults : List RetrievedChunk) (k : Nat) :
    FusedByFormula k vectorResults keywordResults
      (reciprocalRankFusion vectorResults keywordResults k) := by
  have hids : ((reciprocalRankFusion vectorResults keywordResults k).map FusionResult.chunkId).Perm
      ((firstOccurrences vectorResults keywordResults).map Occurrence.id) := by
    have hmap : ((firstOccurrences vectorResults keywordResults).map
        (fusedResult vectorResults keywordResults k)).map FusionResult.chunkId =
          (firstOccurrences vectorResults keywordResults).map Occurrence.id := by
      rw [List.map_map]
      exact List.map_congr_left fun o _ => fusedResult_chunkId o
    rw [reciprocalRankFusion_eq, ← hmap]
    exact (List.perm_insertionSort _ _).map _
  refine ⟨?once, ?union, ?score, ?order, ?fields⟩
  case once => exact hids.nodup_iff.mpr (FirstPerKey.keys_nodup _ _ _)
  case union =>
    intro id
    rw [hids.mem_iff, firstOccurrences, FirstPerKey.mem_map_key_iff, occurrences_map_id]
  case score =>
    intro r hr
    obtain ⟨o, -, rfl⟩ := mem_reciprocalRankFusion.mp hr
    rw [fusedResult_rrfScore, fusedResult_chunkId]
  case order =>
    rw [reciprocalRankFusion_eq]
    refine StableSort.pairwise_insertionSort (List.pairwise_map.mpr ?_)
    simp only [fusedResult_chunkId]
    exact firstOccurrences_inOrder vectorResults keywordResults
  case fields =>
    intro r hr
    obtain ⟨o, ho, rfl⟩ := mem_reciprocalRankFusion.mp hr
    refine ⟨o.chunk, ?_, fusedResult_frame (fun _ _ => rfl) o, fusedResult_frame (fun _ _ => rfl) o,
      fusedResult_frame (fun _ _ => rfl) o, fusedResult_frame (fun _ _ => rfl) o,
      fusedResult_frame (fun _ _ => rfl) o⟩
    rw [fusedResult_chunkId]
    exact find?_chunk _ _ ho

/-- Second in one list and first in the other. -/
example :
    (reciprocalRankFusion
      [⟨1, 10, none, none, [], none, none, []⟩, ⟨2, 10, none, none, [], none, none, []⟩]
      [⟨2, 10, none, none, [], none, none, []⟩] 60).map
        (fun r => (r.chunkId, r.rrfScore)) = [(2, 1 / 62 + 1 / 61), (1, 1 / 61)] := by
  decide +kernel

end GroundGraph.Retrieval

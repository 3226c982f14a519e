import GroundGraph.Retrieval.FusedEvidence
import GroundGraph.Retrieval.FusionAgreement
import GroundGraph.Retrieval.IndexCompatibility

/-! The label of the retrieval method. All three paths infer it from the recorded score of the
vector search, and take a score of zero for no score: an exact match has distance zero, and its
evidence is labelled as found by keyword.
-/

set_option autoImplicit false

namespace GroundGraph.Retrieval

/-- Labelled as found by vector exactly where the vector search found it. -/
def TruthfulLabel (vectorResults : List RetrievedChunk) (e : Evidence) : Prop :=
  e.retrievalMethod = .vector ↔ ∃ c ∈ vectorResults, e.chunkId = some c.chunkId

/-- The vector result that `pick` takes for the chunk, if there is one, has a score and not zero. -/
def NonzeroScore (pick : UUID → List RetrievedChunk → Option RetrievedChunk)
    (vectorResults : List RetrievedChunk) (e : Evidence) : Prop :=
  ∀ id, e.chunkId = some id → ∀ c, pick id vectorResults = some c → truthyScore c.vectorScore = true

theorem truthfulLabel_iff {pick : UUID → List RetrievedChunk → Option RetrievedChunk}
    (hpick : ∀ id results, (pick id results).isSome = true ↔ ∃ c ∈ results, c.chunkId = id)
    {vectorResults : List RetrievedChunk} {e : Evidence} {id : UUID} (hid : e.chunkId = some id)
    (hmethod : e.retrievalMethod =
      if truthyScore ((pick id vectorResults).bind RetrievedChunk.vectorScore) then .vector
      else .keyword) :
    TruthfulLabel vectorResults e ↔ NonzeroScore pick vectorResults e := by
  have hlabel : e.retrievalMethod = .vector ↔
      truthyScore ((pick id vectorResults).bind RetrievedChunk.vectorScore) = true := by
    rw [hmethod]
    split
    · rename_i htrue
      exact ⟨fun _ => htrue, fun _ => rfl⟩
    · rename_i hfalse
      refine ⟨?_, fun htrue => absurd htrue hfalse⟩
      rintro ⟨⟩
  have hfound : (∃ c ∈ vectorResults, e.chunkId = some c.chunkId) ↔
      (pick id vectorResults).isSome = true := by
    rw [hpick, hid]
    simp only [Option.some.injEq, eq_comm]
  have hscore : NonzeroScore pick vectorResults e ↔
      ∀ c, pick id vectorResults = some c → truthyScore c.vectorScore = true := by
    unfold NonzeroScore
    rw [hid]
    simp
  unfold TruthfulLabel
  rw [hlabel, hfound, hscore]
  cases pick id vectorResults with
  | none => simp [truthyScore]
  | some c => simp

namespace RetrievalServiceConfig

variable (svc : RetrievalServiceConfig) (req : HybridRequest)

/-- The evidence that `query` passes to the reranker. -/
def fusedEvidence (vectorResults keywordResults : List RetrievedChunk) : List Evidence :=
  (sliceTo (svc.finalLimit req) (reciprocalRankFusion vectorResults keywordResults rrfK)).mapIdx
    fun i r => r.toEvidence (svc.uuid4 i)

end RetrievalServiceConfig

section
variable {vectorResults keywordResults : List RetrievedChunk}

theorem mem_sliceTo {α : Type} {limit : Int} {items : List α} {a : α} (h : a ∈ sliceTo limit items) :
    a ∈ items := by
  unfold sliceTo at h
  split at h
  · exact List.mem_of_mem_take h
  · exact List.mem_of_mem_take h

theorem truthfulLabel_toEvidence {r : FusionResult} (evidenceId : UUID)
    (hr : r ∈ reciprocalRankFusion vectorResults keywordResults rrfK) :
    TruthfulLabel vectorResults (r.toEvidence evidenceId) ↔
      NonzeroScore lastResult vectorResults (r.toEvidence evidenceId) := by
  obtain ⟨o, ho, rfl⟩ := mem_reciprocalRankFusion.mp hr
  have hid : ((fusedResult vectorResults keywordResults rrfK o).toEvidence evidenceId).chunkId =
      some o.id := congrArg some (fusedResult_chunkId o)
  refine truthfulLabel_iff (fun _ _ => lastResult_isSome_iff) hid ?_
  rw [← fusedResult_vectorScore rrfK ho]
  rfl

theorem truthfulLabel_of_mem {limit : Int} {uuid4 : Nat → UUID} {e : Evidence}
    (he : e ∈ (sliceTo limit (reciprocalRankFusion vectorResults keywordResults rrfK)).mapIdx
      fun i r => r.toEvidence (uuid4 i)) :
    TruthfulLabel vectorResults e ↔ NonzeroScore lastResult vectorResults e := by
  obtain ⟨i, hi, rfl⟩ := List.mem_mapIdx.mp he
  exact truthfulLabel_toEvidence _ (mem_sliceTo (List.getElem_mem hi))

theorem truthfulLabel_hybrid {uuid4 : Nat → UUID} {order : SetOrder} {graphEvidence out : List Evidence}
    (hout : hybridRrfFusion uuid4 order vectorResults keywordResults graphEvidence = .ok out)
    {e : Evidence} (he : e ∈ out) (hgraph : e.retrievalMethod ≠ .graph) :
    TruthfulLabel vectorResults e ↔ NonzeroScore firstResult vectorResults e := by
  obtain ⟨t, -, hmerges, hbuilt⟩ := exists_entries hout
  obtain ⟨entry, hentry, hb⟩ := Correspondence.exists_left_of_mem hbuilt he
  rcases hmerges.cases (mem_kept_get? hentry) with hchunk | ⟨-, hfrom⟩
  · obtain ⟨o, ho, heq⟩ := exists_of_get?_chunkTable hchunk
    have hid : e.chunkId = some o.id := by
      rw [hb.chunkId, ← heq]
      exact hybridEntry_frame (fun _ _ => rfl) _ o
    refine truthfulLabel_iff (fun _ _ => firstResult_isSome_iff) hid ?_
    rw [hb.method, ← heq, method_of_hybridEntry, hybridEntry_vectorScore _ ho]
  · exact absurd (hb.method.trans hfrom.method_eq_graph) hgraph

end

/-- The label on the three paths: the plain fusion records the last score of a chunk in the vector
results, the fusion with graph evidence the first, and where it is zero the label is wrong. -/
theorem truthfulLabel_paths (vectorResults keywordResults : List RetrievedChunk) :
    (∀ (svc : RetrievalServiceConfig) req, ∀ e ∈ svc.fusedEvidence req vectorResults keywordResults,
      TruthfulLabel vectorResults e ↔ NonzeroScore lastResult vectorResults e) ∧
    (∀ (cfg : HybridRetrievalConfig) req p out, p.strategy = .vector →
      cfg.selectEvidence req p vectorResults keywordResults = .ok out → ∀ e ∈ out,
        TruthfulLabel vectorResults e ↔ NonzeroScore lastResult vectorResults e) ∧
    ∀ uuid4 order graphEvidence out,
      hybridRrfFusion uuid4 order vectorResults keywordResults graphEvidence = .ok out →
        ∀ e ∈ out, e.retrievalMethod ≠ .graph →
          (TruthfulLabel vectorResults e ↔ NonzeroScore firstResult vectorResults e) := by
  refine ⟨?_, ?_, ?_⟩
  · intro svc req e he
    exact truthfulLabel_of_mem he
  · intro cfg req p out hstrategy hout e he
    unfold HybridRetrievalConfig.selectEvidence at hout
    rw [hstrategy] at hout
    obtain rfl := Except.ok.inj hout
    exact truthfulLabel_of_mem he
  · intro uuid4 order graphEvidence out hout e he hgraph
    exact truthfulLabel_hybrid hout he hgraph

/-- An exact match: the vector search found it at distance zero. -/
theorem label_of_exact_match :
    (∃ out, hybridRrfFusion (BitVec.ofNat 128) listedSet [bushResult 1 10 (some 0) none] [] [] = .ok out ∧
      ∃ e ∈ out, e.retrievalMethod ≠ .graph ∧
        ¬ TruthfulLabel [bushResult 1 10 (some 0) none] e) ∧
      ∃ r ∈ reciprocalRankFusion [bushResult 1 10 (some 0) none] [] rrfK,
        ¬ TruthfulLabel [bushResult 1 10 (some 0) none] (r.toEvidence 0) := by
  have hfound : ∃ c ∈ [bushResult 1 10 (some 0) none], some (1 : UUID) = some c.chunkId :=
    ⟨_, List.mem_cons_self, rfl⟩
  refine ⟨⟨_, rfl, _, List.mem_cons_self, by decide, ?_⟩, _, List.mem_cons_self, ?_⟩
  · intro h
    cases h.mpr hfound
  · intro h
    cases h.mpr hfound

end GroundGraph.Retrieval

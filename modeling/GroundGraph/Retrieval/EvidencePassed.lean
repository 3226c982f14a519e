import GroundGraph.Extraction.Resolution
import GroundGraph.Retrieval.Hybrid

/-! Whether retrieved text reaches the answer generator. The strategies that look at the results
of the retrievers pass some of them on; the plan asks for the graph alone where there is no
entity to start from, and then nothing is passed.
-/

set_option autoImplicit false

namespace GroundGraph.Retrieval

open GroundGraph.Extraction GroundGraph.Knowledge GroundGraph.Neo4j

theorem sliceTo_eq_nil_iff {α : Type} {limit : Int} (hlimit : 1 ≤ limit) {items : List α} :
    sliceTo limit items = [] ↔ items = [] := by
  unfold sliceTo
  rw [if_pos (by omega), List.take_eq_nil_iff]
  constructor
  · rintro (hzero | hnil)
    · omega
    · exact hnil
  · exact Or.inr

variable {cfg : HybridRetrievalConfig} {req : HybridRequest}

theorem rerank_eq_nil_iff {evidence : List Evidence} {query : List Char} :
    cfg.rerank evidence query = [] ↔ evidence = [] := by
  unfold HybridRetrievalConfig.rerank
  split
  · rfl
  · rw [← List.length_eq_zero_iff, ← List.length_eq_zero_iff]
    simp

theorem selectStrategy_of_no_entities :
    (cfg.planOf req).strategy = .graph ↔ cfg.entitiesOf req = [] ∧
      (cfg.planOf req).questionType.aboutGraph :=
  selectStrategy_eq_graph_iff

/-- The plan names the graph alone only where there is no entity to start from. -/
theorem graphEvidence_of_graph (h : (cfg.planOf req).strategy = .graph) :
    cfg.graphEvidence req (cfg.planOf req) = .ok [] := by
  have hentities : (cfg.planOf req).entities = [] := (selectStrategy_of_no_entities.mp h).1
  unfold HybridRetrievalConfig.graphEvidence
  rw [if_neg fun hboth => hboth.2 hentities]

theorem gatherEvidence_of_graph (h : (cfg.planOf req).strategy = .graph)
    {vectorResults keywordResults : List RetrievedChunk}
    (hretrieved : cfg.retrieve req = .ok (vectorResults, keywordResults)) :
    cfg.gatherEvidence req = .ok [] := by
  have hselect : cfg.selectEvidence req (cfg.planOf req) vectorResults keywordResults = .ok [] := by
    unfold HybridRetrievalConfig.selectEvidence
    rw [h, graphEvidence_of_graph h]
    simp [bind, Except.bind, pure, Except.pure, sliceTo]
  unfold HybridRetrievalConfig.gatherEvidence
  rw [hretrieved]
  simp only [bind, Except.bind, hselect]
  rfl

theorem graphEvidence_nodup {p : RetrievalPlan} {evidence : List Evidence}
    (h : cfg.graphEvidence req p = .ok evidence) : (evidence.map Evidence.evidenceId).Nodup := by
  rcases HybridRetrievalConfig.graphEvidence_ok h with hreturned | ⟨-, rfl⟩
  · exact retrieveEvidence_nodup hreturned
  · exact List.nodup_nil

theorem FusedFrom.ne_nil {chunks : List RetrievedChunk} {graphEvidence out : List Evidence}
    (h : FusedFrom chunks graphEvidence out) (hchunks : chunks ≠ []) : out ≠ [] := by
  obtain ⟨c, hc⟩ := List.exists_mem_of_ne_nil chunks hchunks
  obtain ⟨e, he, -⟩ := h.chunk c hc
  exact List.ne_nil_of_mem he

theorem reciprocalRankFusion_ne_nil {vectorResults keywordResults : List RetrievedChunk}
    (hsome : vectorResults ++ keywordResults ≠ []) (k : Nat) :
    reciprocalRankFusion vectorResults keywordResults k ≠ [] := by
  obtain ⟨c, hc⟩ := List.exists_mem_of_ne_nil _ hsome
  obtain ⟨r, hr, -⟩ := exists_fused_iff.mpr ⟨c, hc, rfl⟩
  exact List.ne_nil_of_mem hr

def HybridRetrievalConfig.reached (cfg : HybridRetrievalConfig) (req : HybridRequest) :
    List FactWithNames :=
  allEntries cfg.graph (HybridRetrievalConfig.graphSearch req (cfg.planOf req)) cfg.fetches
    (cfg.resolveEntities (cfg.planOf req))

/-- No fact that is reached has the id of one of the chunks. -/
def HybridRetrievalConfig.ReachedApart (cfg : HybridRetrievalConfig) (req : HybridRequest)
    (chunks : List RetrievedChunk) : Prop :=
  ∀ r ∈ cfg.reached req, ∀ c ∈ chunks, c.chunkId ≠ r.fact.factId

/-- No fact that is reached is observed too far ahead to be scored. -/
def HybridRetrievalConfig.ReachedScored (cfg : HybridRetrievalConfig) (req : HybridRequest) : Prop :=
  ∀ r ∈ cfg.reached req, cfg.scoring.overflows r.fact = false

/-- Without an entity nothing is reached, and with one the graph is asked. -/
theorem retrieveEvidence_of_hybrid (hstrategy : (cfg.planOf req).strategy = .hybrid) :
    cfg.graphEvidence req (cfg.planOf req) =
      match retrieveEvidence cfg.scoring cfg.graph
        (HybridRetrievalConfig.graphSearch req (cfg.planOf req)) cfg.fetches
        (cfg.resolveEntities (cfg.planOf req)) with
      | some evidence => .ok evidence
      | none => .error .scoreOverflow := by
  unfold HybridRetrievalConfig.graphEvidence
  by_cases hentities : (cfg.planOf req).entities = []
  · have hresolved : cfg.resolveEntities (cfg.planOf req) = [] := by
      simp [HybridRetrievalConfig.resolveEntities, hentities]
    rw [if_neg fun hboth => hboth.2 hentities, hresolved]
    rfl
  · exact if_pos ⟨Or.inr hstrategy, hentities⟩

theorem noClash_iff {evidence : List Evidence} {chunks : List RetrievedChunk}
    (h : retrieveEvidence cfg.scoring cfg.graph
      (HybridRetrievalConfig.graphSearch req (cfg.planOf req)) cfg.fetches
      (cfg.resolveEntities (cfg.planOf req)) = some evidence) :
    NoClash chunks evidence ↔ cfg.ReachedApart req chunks := by
  unfold HybridRetrievalConfig.ReachedApart HybridRetrievalConfig.reached NoClash
  constructor
  · intro hno r hr
    obtain ⟨ev, hev, hid⟩ := evidence_of_entry h hr
    rw [← hid]
    exact hno ev hev
  · intro hapart ev hev
    obtain ⟨k, r, hfirst, rfl⟩ := (mem_retrieveEvidence h).mp hev
    exact hapart r (firstEntry_some hfirst).1

theorem selectEvidence_cases (hlimit : 1 ≤ cfg.finalLimit req)
    {vectorResults keywordResults : List RetrievedChunk}
    (hsome : vectorResults ++ keywordResults ≠ []) :
    (∃ evidence, cfg.selectEvidence req (cfg.planOf req) vectorResults keywordResults =
        .ok evidence ∧ evidence ≠ []) ↔
      (cfg.planOf req).strategy ≠ .graph ∧ ((cfg.planOf req).strategy = .hybrid →
        cfg.ReachedScored req ∧ cfg.ReachedApart req (vectorResults ++ keywordResults)) := by
  unfold HybridRetrievalConfig.selectEvidence
  cases hstrategy : (cfg.planOf req).strategy with
  | vector =>
    have hfused := reciprocalRankFusion_ne_nil hsome rrfK
    simp [sliceTo_eq_nil_iff hlimit, hfused]
  | graph =>
    simp [graphEvidence_of_graph hstrategy, sliceTo_eq_nil_iff hlimit, bind, Except.bind, pure,
      Except.pure]
  | hybrid =>
    have hscored : (retrieveEvidence cfg.scoring cfg.graph
        (HybridRetrievalConfig.graphSearch req (cfg.planOf req)) cfg.fetches
        (cfg.resolveEntities (cfg.planOf req))).isSome = true ↔ cfg.ReachedScored req :=
      retrieveEvidence_isSome_iff _ _ _
    simp only [retrieveEvidence_of_hybrid hstrategy, ← hscored]
    cases hreturned : retrieveEvidence cfg.scoring cfg.graph
        (HybridRetrievalConfig.graphSearch req (cfg.planOf req)) cfg.fetches
        (cfg.resolveEntities (cfg.planOf req)) with
    | none => simp [bind, Except.bind]
    | some graphEvidence =>
      rw [← noClash_iff hreturned]
      have hspec := hybridRrfFusion_spec cfg.uuid4 cfg.order vectorResults keywordResults
        (retrieveEvidence_nodup hreturned)
      cases hfused : hybridRrfFusion cfg.uuid4 cfg.order vectorResults keywordResults
          graphEvidence with
      | error e =>
        rw [hfused] at hspec
        simp [hspec, hfused, bind, Except.bind]
      | ok out =>
        rw [hfused] at hspec
        have hout := hspec.1.ne_nil hsome
        simp [sliceTo_eq_nil_iff hlimit, hout, hspec.2, hfused, bind, Except.bind]

/-- A chunk that was retrieved brings evidence to the generator exactly when the question is not
one about the graph in which no entity is found, and no fact that is to be fused with the chunks
is observed too far ahead to be scored or has the id of one. -/
theorem evidence_passed_iff (cfg : HybridRetrievalConfig) (req : HybridRequest)
    (vectorResults keywordResults : List RetrievedChunk)
    (hretrieved : cfg.retrieve req = .ok (vectorResults, keywordResults))
    (hsome : vectorResults ≠ [] ∨ keywordResults ≠ []) (hlimit : 1 ≤ cfg.finalLimit req) :
    (∃ evidence, cfg.gatherEvidence req = .ok evidence ∧ evidence ≠ []) ↔
      ¬ (cfg.entitiesOf req = [] ∧ (cfg.planOf req).questionType.aboutGraph) ∧
        ((cfg.planOf req).strategy = .hybrid →
          cfg.ReachedScored req ∧ cfg.ReachedApart req (vectorResults ++ keywordResults)) := by
  have hchunks : vectorResults ++ keywordResults ≠ [] := by
    simpa [or_iff_not_imp_left] using hsome
  rw [← selectStrategy_of_no_entities, ← selectEvidence_cases hlimit hchunks]
  unfold HybridRetrievalConfig.gatherEvidence
  rw [hretrieved]
  cases hselect : cfg.selectEvidence req (cfg.planOf req) vectorResults keywordResults with
  | error e => simp [bind, Except.bind, hselect]
  | ok evidence =>
    simp [bind, Except.bind, hselect, pure, Except.pure, rerank_eq_nil_iff, FirstPerKey.eq_nil_iff]

theorem unanswered_consistent : answerConsistent .insufficientEvidence none = true := rfl

def plainService : HybridRetrievalConfig where
  lowercase := ⟨List.map Char.toLower, fun _ => List.map_eq_nil_iff⟩
  extractEntities := fun _ _ _ => []
  entityOrder := fun _ => insertionOrder
  embedModel := ['m']
  embedOne := fun _ => []
  resolveActive := fun name => some
    { versionId := 5, indexName := name, version := ['1'], embeddingModel := ['m'],
      embeddingDimensions := 1, chunkerVersion := ['1'], createdAt := 0 }
  vectorSearch := fun _ _ _ _ => [toRetrieved none none backingRow]
  keywordSearch := fun _ _ _ => []
  graph := sampleGraph
  fetches := fun _ => storedOrder
  scoring := sampleScoring
  uuid4 := fun _ => 77
  order := listedSet
  scoreRelevance := fun _ _ => 0
  generate := fun _ _ _ => .ok
    { executionRunId := 1, status := .insufficientEvidence, confidenceBand := .low,
      answerStatusConsistency := unanswered_consistent }

def dependsQuestion : HybridRequest :=
  { question := "what depends on it?".toList, principal := "p", tenantId := "t" }

theorem plainService_retrieves : plainService.retrieve dependsQuestion =
    .ok ([toRetrieved none none backingRow], []) := rfl

theorem evidence_passed_iff_depends :
    (∃ evidence, plainService.gatherEvidence dependsQuestion = .ok evidence ∧ evidence ≠ []) ↔
      ¬ (plainService.entitiesOf dependsQuestion = [] ∧
          (plainService.planOf dependsQuestion).questionType.aboutGraph) ∧
        ((plainService.planOf dependsQuestion).strategy = .hybrid →
          plainService.ReachedScored dependsQuestion ∧
            plainService.ReachedApart dependsQuestion ([toRetrieved none none backingRow] ++ [])) :=
  evidence_passed_iff plainService dependsQuestion _ _ plainService_retrieves
    (Or.inl (List.cons_ne_nil _ _)) (by decide)

/-- Without an entity the question is answered from nothing, whatever text was found. -/
theorem not_evidence_passed : ¬ ∀ (cfg : HybridRetrievalConfig) (req : HybridRequest)
    (vectorResults keywordResults : List RetrievedChunk),
    cfg.retrieve req = .ok (vectorResults, keywordResults) →
    vectorResults ≠ [] ∨ keywordResults ≠ [] → 1 ≤ cfg.finalLimit req →
    ∃ evidence, cfg.gatherEvidence req = .ok evidence ∧ evidence ≠ [] := by
  intro h
  obtain ⟨evidence, hgather, hne⟩ := h plainService dependsQuestion _ _ plainService_retrieves
    (Or.inl (List.cons_ne_nil _ _)) (by decide)
  rw [gatherEvidence_of_graph (by decide) plainService_retrieves] at hgather
  exact hne (Except.ok.inj hgather).symm

end GroundGraph.Retrieval

import GroundGraph.Extraction.EntityResolver
import GroundGraph.Retrieval.HybridFusion
import GroundGraph.Retrieval.Planner
import GroundGraph.Retrieval.SourceDiversity
import GroundGraph.Versioning.IndexVersions

/-! The retrieval service: `query_with_evidence` of `application/retrieval/hybrid_retrieval.py`,
with the reranker of `infrastructure/openai/reranker.py`. The ports are functions of the
configuration; what they return is arbitrary.
-/

set_option autoImplicit false

namespace GroundGraph.Retrieval

open GroundGraph.Extraction GroundGraph.Knowledge GroundGraph.Neo4j

structure Settings where
  defaultIndexName : List Char := "default".toList
  vectorTopK : Int := 30
  keywordTopK : Int := 20
  finalEvidenceLimit : Int := 12

inductive QueryError where
  | tenantRequired
  | noActiveIndexVersion (indexName : List Char)
  | embeddingModelMismatch (index provider : List Char)
  | scoreOverflow
  | fusion (error : FusionError)
  | generation (text : List Char)
  deriving DecidableEq, Repr

structure HybridRetrievalConfig where
  settings : Settings := {}
  lowercase : Lowercase
  ontology : Ontology := ontologyV010
  /-- `_extract_entities`, whose resolver searches the graph with `find_entities`. -/
  extractEntities : (Nat → Option String → Option String → List CanonicalEntity) → List Char →
    String → List ResolvedEntity
  /-- The rows of the `n`-th of these searches. -/
  entityOrder : Nat → EntityOrder
  embedModel : List Char
  embedOne : List Char → List PyFloat
  resolveActive : List Char → Option Versioning.IndexVersion
  vectorSearch : List PyFloat → Int → ChunkFilter → UUID → List RetrievedChunk
  keywordSearch : List Char → Int → ChunkFilter → List RetrievedChunk
  graph : Graph
  fetches : Nat → Fetches
  scoring : Scoring
  uuid4 : Nat → UUID
  order : SetOrder
  /-- The score that `_score_relevance` gives, which is from 1.0 to 5.0. -/
  scoreRelevance : List Char → List Char → PyFloat
  generate : List Char → List Evidence → RetrievalPlan → Except QueryError QueryResponse

/-- The arguments of `query_with_evidence`. -/
structure HybridRequest where
  question : List Char
  principal : String
  tenantId : String
  indexName : Option (List Char) := none
  vectorTopK : Option Int := none
  finalLimit : Option Int := none

structure HybridRetrievalResult where
  response : QueryResponse
  evidence : List Evidence

/-- `value or default`. -/
def orDefault (value : Option Int) (default : Int) : Int :=
  match value with
  | none => default
  | some n => if n = 0 then default else n

def nameOrDefault (name : Option (List Char)) (default : List Char) : List Char :=
  match name with
  | none => default
  | some cs => if cs = [] then default else cs

/-- `items[:limit]`; a negative limit counts from the end. -/
def sliceTo {α : Type} (limit : Int) (items : List α) : List α :=
  if 0 ≤ limit then items.take limit.toNat else items.take (items.length - (-limit).toNat)

def ofPrincipal (req : HybridRequest) : ChunkFilter :=
  { tenantId := req.tenantId, allowedPrincipals := some [req.principal] }

namespace HybridRetrievalConfig

variable (cfg : HybridRetrievalConfig) (req : HybridRequest)

def entitiesOf : List ResolvedEntity :=
  cfg.extractEntities
    (fun n canonicalName entityType =>
      findEntities cfg.graph canonicalName entityType (cfg.entityOrder n))
    req.question req.tenantId

def planOf : RetrievalPlan :=
  plan cfg.lowercase cfg.ontology req.question (cfg.entitiesOf req)

def finalLimit : Int := orDefault req.finalLimit cfg.settings.finalEvidenceLimit

/-- The active index for the request, checked against the model of the provider. -/
def activeIndex : Except QueryError UUID :=
  let indexName := nameOrDefault req.indexName cfg.settings.defaultIndexName
  match cfg.resolveActive indexName with
  | none => .error (.noActiveIndexVersion indexName)
  | some active =>
    if active.embeddingModel ≠ cfg.embedModel then
      .error (.embeddingModelMismatch active.embeddingModel cfg.embedModel)
    else .ok active.versionId

def retrieve : Except QueryError (List RetrievedChunk × List RetrievedChunk) :=
  if req.tenantId = "" then .error .tenantRequired
  else
    (cfg.activeIndex req).map fun indexVersionId =>
      (cfg.vectorSearch (cfg.embedOne req.question)
          (orDefault req.vectorTopK cfg.settings.vectorTopK) (ofPrincipal req) indexVersionId,
        cfg.keywordSearch req.question cfg.settings.keywordTopK (ofPrincipal req))

def resolveEntities (p : RetrievalPlan) : List CanonicalEntity :=
  p.entities.filterMap fun e => getEntity cfg.graph e.entityId

def graphSearch (p : RetrievalPlan) : Search :=
  { predicates := some p.predicates, validAt := p.validAt, maxDepth := p.maxGraphDepth,
    tenantId := some req.tenantId, principal := some req.principal }

/-- `_retrieve_graph_evidence`, where the plan asks for it. -/
def graphEvidence (p : RetrievalPlan) : Except QueryError (List Evidence) :=
  if (p.strategy = .graph ∨ p.strategy = .hybrid) ∧ p.entities ≠ [] then
    match retrieveEvidence cfg.scoring cfg.graph (graphSearch req p) cfg.fetches
      (cfg.resolveEntities p) with
    | some evidence => .ok evidence
    | none => .error .scoreOverflow
  else .ok []

end HybridRetrievalConfig

def FusionResult.toEvidence (r : FusionResult) (evidenceId : UUID) : Evidence where
  evidenceId := evidenceId
  sourceId := r.sourceId
  documentId := r.documentId
  versionId := r.versionId
  chunkId := some r.chunkId
  content := r.content
  retrievalMethod := if truthyScore r.vectorScore then .vector else .keyword
  vectorScore := r.vectorScore
  allowedPrincipals := r.allowedPrincipals
  temporalBounds := absent_bounds

namespace HybridRetrievalConfig

variable (cfg : HybridRetrievalConfig) (req : HybridRequest)

/-- The strategies; only the first two look at the graph, and the second looks at nothing else. -/
def selectEvidence (p : RetrievalPlan) (vectorResults keywordResults : List RetrievedChunk) :
    Except QueryError (List Evidence) :=
  match p.strategy with
  | .hybrid => do
    let graphEvidence ← cfg.graphEvidence req p
    match hybridRrfFusion cfg.uuid4 cfg.order vectorResults keywordResults graphEvidence with
    | .ok fused => .ok (sliceTo (cfg.finalLimit req) fused)
    | .error e => .error (.fusion e)
  | .graph => do
    let graphEvidence ← cfg.graphEvidence req p
    pure (sliceTo (cfg.finalLimit req) graphEvidence)
  | .vector =>
    .ok ((sliceTo (cfg.finalLimit req) (reciprocalRankFusion vectorResults keywordResults rrfK)).mapIdx
      fun i r => r.toEvidence (cfg.uuid4 i))

/-- `CrossEncoderReranker.rerank`. Floats from 1.0 to 5.0 are in the order of their bits. -/
def rerank (evidence : List Evidence) (query : List Char) : List Evidence :=
  if evidence.length ≤ 1 then evidence
  else
    let scored := evidence.map fun ev => (ev, cfg.scoreRelevance query ev.content)
    (scored.insertionSort fun a b => b.2.toNat ≤ a.2.toNat).map fun s =>
      { s.1 with rerankScore := some s.2 }

/-- All up to the call of the generator: the evidence that it is passed. -/
def gatherEvidence : Except QueryError (List Evidence) := do
  let (vectorResults, keywordResults) ← cfg.retrieve req
  let allEvidence ← cfg.selectEvidence req (cfg.planOf req) vectorResults keywordResults
  pure (cfg.rerank (firstPerKey Evidence.evidenceId [] allEvidence) req.question)

def queryWithEvidence : Except QueryError HybridRetrievalResult := do
  let reranked ← cfg.gatherEvidence req
  let response ← cfg.generate req.question reranked (cfg.planOf req)
  pure ⟨response, reranked⟩

variable {cfg req}

theorem graphEvidence_congr {cfg' : HybridRetrievalConfig} {p : RetrievalPlan}
    (h : retrieveEvidence cfg.scoring cfg.graph (graphSearch req p) cfg.fetches
        (cfg.resolveEntities p) =
      retrieveEvidence cfg'.scoring cfg'.graph (graphSearch req p) cfg'.fetches
        (cfg'.resolveEntities p)) : cfg.graphEvidence req p = cfg'.graphEvidence req p := by
  unfold graphEvidence
  rw [h]

theorem graphEvidence_ok {p : RetrievalPlan} {evidence : List Evidence}
    (h : cfg.graphEvidence req p = .ok evidence) :
    retrieveEvidence cfg.scoring cfg.graph (graphSearch req p) cfg.fetches
        (cfg.resolveEntities p) = some evidence ∨
      ¬ ((p.strategy = .graph ∨ p.strategy = .hybrid) ∧ p.entities ≠ []) ∧ evidence = [] := by
  unfold graphEvidence at h
  split at h
  · split at h
    · rename_i hreturned
      exact Or.inl (Except.ok.inj h ▸ hreturned)
    · cases h
  · rename_i hnot
    exact Or.inr ⟨hnot, (Except.ok.inj h).symm⟩

end HybridRetrievalConfig

end GroundGraph.Retrieval

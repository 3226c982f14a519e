import GroundGraph.Retrieval.EvidencePassed

/-! The check of the active index against the provider of the embeddings: `_resolve_index_version`
of `application/retrieval/retrieval_service.py` and its three copies in `hybrid_retrieval.py`.
The first looks at the model and at the dimensions, the copies at the model alone.
-/

set_option autoImplicit false

namespace GroundGraph.Retrieval

structure EmbeddingProvider where
  model : List Char
  dimensions : Int
  embedOne : List Char → List PyFloat

structure IndexSetting where
  settings : Settings := {}
  embed : EmbeddingProvider
  resolveActive : List Char → Option Versioning.IndexVersion

/-- What `RetrievalService` raises; the first two of the index mismatches are one class. -/
inductive ServiceError where
  | tenantRequired
  | noActiveIndexVersion (indexName : List Char)
  | embeddingModelMismatch (versionId : UUID) (index provider : List Char)
  | embeddingDimensionsMismatch (versionId : UUID) (index provider : Int)
  | invalidPlan
  | generation (text : List Char)
  deriving DecidableEq

structure RetrievalServiceConfig extends IndexSetting where
  vectorSearch : List PyFloat → Int → ChunkFilter → UUID → List RetrievedChunk
  keywordSearch : List Char → Int → ChunkFilter → List RetrievedChunk
  uuid4 : Nat → UUID
  rerank : List Evidence → List Char → List Evidence
  generate : List Char → List Evidence → RetrievalPlan → Except ServiceError QueryResponse

namespace RetrievalServiceConfig

variable (svc : RetrievalServiceConfig) (req : HybridRequest)

def resolveIndexVersion (indexName : List Char) : Except ServiceError Versioning.IndexVersion :=
  match svc.resolveActive indexName with
  | none => .error (.noActiveIndexVersion indexName)
  | some idx =>
    if idx.embeddingModel ≠ svc.embed.model then
      .error (.embeddingModelMismatch idx.versionId idx.embeddingModel svc.embed.model)
    else if idx.embeddingDimensions ≠ svc.embed.dimensions then
      .error (.embeddingDimensionsMismatch idx.versionId idx.embeddingDimensions
        svc.embed.dimensions)
    else .ok idx

def vectorTopK : Int := orDefault req.vectorTopK svc.settings.vectorTopK

def finalLimit : Int := orDefault req.finalLimit svc.settings.finalEvidenceLimit

def retrieve : Except ServiceError (List RetrievedChunk × List RetrievedChunk) :=
  if req.tenantId = "" then .error .tenantRequired
  else
    (svc.resolveIndexVersion (nameOrDefault req.indexName svc.settings.defaultIndexName)).map
      fun active =>
        (svc.vectorSearch (svc.embed.embedOne req.question) (svc.vectorTopK req) (ofPrincipal req)
            active.versionId,
          svc.keywordSearch req.question svc.settings.keywordTopK (ofPrincipal req))

/-- The plan that the generator is told of; the model refuses limits out of range. -/
def planOf : Except ServiceError RetrievalPlan :=
  if h : (1 ≤ (svc.vectorTopK req).toNat ∧ (svc.vectorTopK req).toNat ≤ 50) ∧
      1 ≤ (svc.finalLimit req).toNat ∧ (svc.finalLimit req).toNat ≤ 30 then
    .ok
      { strategy := .vector
        questionType := .fact
        queryTexts := [req.question]
        vectorTopK := (svc.vectorTopK req).toNat
        finalEvidenceLimit := (svc.finalLimit req).toNat
        maxGraphDepth_le := by decide
        vectorTopK_range := h.1
        finalEvidenceLimit_range := h.2 }
  else .error .invalidPlan

def query : Except ServiceError QueryResponse := do
  let (vectorResults, keywordResults) ← svc.retrieve req
  let fused := reciprocalRankFusion vectorResults keywordResults rrfK
  let evidence := (sliceTo (svc.finalLimit req) fused).mapIdx fun i r => r.toEvidence (svc.uuid4 i)
  let reranked := svc.rerank evidence req.question
  let plan ← svc.planOf req
  svc.generate req.question reranked plan

end RetrievalServiceConfig

namespace HybridRetrievalConfig

variable (cfg : HybridRetrievalConfig) (req : HybridRequest)

def on (s : IndexSetting) : HybridRetrievalConfig :=
  { cfg with
    settings := s.settings
    embedModel := s.embed.model
    embedOne := s.embed.embedOne
    resolveActive := s.resolveActive }

/-- `query`, which returns the response without the evidence. -/
def query : Except QueryError QueryResponse := do
  let reranked ← cfg.gatherEvidence req
  cfg.generate req.question reranked (cfg.planOf req)

def resolveActiveIndexVersion (indexName : Option (List Char)) :
    Except QueryError (UUID × List Char) :=
  let resolvedName := nameOrDefault indexName cfg.settings.defaultIndexName
  match cfg.resolveActive resolvedName with
  | none => .error (.noActiveIndexVersion resolvedName)
  | some active =>
    if active.embeddingModel ≠ cfg.embedModel then
      .error (.embeddingModelMismatch active.embeddingModel cfg.embedModel)
    else .ok (active.versionId, active.embeddingModel)

end HybridRetrievalConfig

/-- The index cannot serve the request: there is none, or its vectors are of another kind. -/
def IndexSetting.Unfit (s : IndexSetting) (req : HybridRequest) : Prop :=
  ∀ active, s.resolveActive (nameOrDefault req.indexName s.settings.defaultIndexName) = some active →
    active.embeddingModel ≠ s.embed.model ∨ active.embeddingDimensions ≠ s.embed.dimensions

/-- The path ends with the error of the check, before a vector is computed or a search is sent. -/
def Refused {ε α β : Type} (check : Except ε α) (path : Except ε β) : Prop :=
  ∃ e, check = .error e ∧ path = .error e

/-- The four paths refuse an index that cannot serve the request, and no other. -/
structure RefuseAlike (svc : RetrievalServiceConfig) (cfg : HybridRetrievalConfig)
    (req : HybridRequest) : Prop where
  service : Refused (svc.retrieve req) (svc.query req) ↔ svc.Unfit req
  query : Refused (cfg.retrieve req) (cfg.query req) ↔ svc.Unfit req
  queryWithEvidence : Refused (cfg.retrieve req) (cfg.queryWithEvidence req) ↔ svc.Unfit req
  resolveActiveIndexVersion : Refused (cfg.resolveActiveIndexVersion req.indexName)
    (cfg.resolveActiveIndexVersion req.indexName) ↔ svc.Unfit req

section Checks

variable {svc : RetrievalServiceConfig} {cfg : HybridRetrievalConfig} {req : HybridRequest}

theorem refused_self_iff {ε α : Type} {check : Except ε α} :
    Refused check check ↔ ∃ e, check = .error e :=
  exists_congr fun _ => and_self_iff

theorem refused_bind_iff {ε α β : Type} {check : Except ε α} {rest : α → Except ε β} :
    Refused check (check >>= rest) ↔ ∃ e, check = .error e := by
  refine exists_congr fun e => and_iff_left_of_imp fun h => ?_
  rw [h]
  rfl

theorem service_refused_iff (htenant : req.tenantId ≠ "") :
    Refused (svc.retrieve req) (svc.query req) ↔ svc.Unfit req := by
  unfold RetrievalServiceConfig.query
  rw [refused_bind_iff]
  unfold RetrievalServiceConfig.retrieve IndexSetting.Unfit
  rw [if_neg htenant]
  unfold RetrievalServiceConfig.resolveIndexVersion
  cases svc.resolveActive (nameOrDefault req.indexName svc.settings.defaultIndexName) with
  | none => simp [Except.map]
  | some idx =>
    by_cases hmodel : idx.embeddingModel = svc.embed.model
    · by_cases hdims : idx.embeddingDimensions = svc.embed.dimensions
      · simp [Except.map, hmodel, hdims]
      · simp [Except.map, hmodel, hdims]
    · simp [Except.map, hmodel]

/-- The check of the copies. -/
def HybridRetrievalConfig.Mismatched (cfg : HybridRetrievalConfig) (indexName : Option (List Char)) :
    Prop :=
  ∀ active, cfg.resolveActive (nameOrDefault indexName cfg.settings.defaultIndexName) = some active →
    active.embeddingModel ≠ cfg.embedModel

theorem retrieve_error_iff (htenant : req.tenantId ≠ "") :
    (∃ e, cfg.retrieve req = .error e) ↔ cfg.Mismatched req.indexName := by
  unfold HybridRetrievalConfig.retrieve HybridRetrievalConfig.Mismatched
  rw [if_neg htenant]
  unfold HybridRetrievalConfig.activeIndex
  cases hactive : cfg.resolveActive (nameOrDefault req.indexName cfg.settings.defaultIndexName) with
  | none => simp [hactive, Except.map]
  | some active =>
    by_cases hmodel : active.embeddingModel = cfg.embedModel
    · simp [hactive, Except.map, hmodel]
    · simp [hactive, Except.map, hmodel]

theorem resolve_error_iff {indexName : Option (List Char)} :
    (∃ e, cfg.resolveActiveIndexVersion indexName = .error e) ↔ cfg.Mismatched indexName := by
  unfold HybridRetrievalConfig.resolveActiveIndexVersion HybridRetrievalConfig.Mismatched
  cases hactive : cfg.resolveActive (nameOrDefault indexName cfg.settings.defaultIndexName) with
  | none => simp [hactive]
  | some active =>
    by_cases hmodel : active.embeddingModel = cfg.embedModel
    · simp [hactive, hmodel]
    · simp [hactive, hmodel]

theorem query_refused_iff (htenant : req.tenantId ≠ "") :
    Refused (cfg.retrieve req) (cfg.query req) ↔ cfg.Mismatched req.indexName := by
  rw [← retrieve_error_iff htenant, ← @refused_bind_iff _ _ _ (cfg.retrieve req)]
  unfold HybridRetrievalConfig.query HybridRetrievalConfig.gatherEvidence
  rw [bind_assoc]

theorem queryWithEvidence_refused_iff (htenant : req.tenantId ≠ "") :
    Refused (cfg.retrieve req) (cfg.queryWithEvidence req) ↔ cfg.Mismatched req.indexName := by
  rw [← retrieve_error_iff htenant, ← @refused_bind_iff _ _ _ (cfg.retrieve req)]
  unfold HybridRetrievalConfig.queryWithEvidence HybridRetrievalConfig.gatherEvidence
  rw [bind_assoc]

theorem mismatched_on_iff :
    (cfg.on svc.toIndexSetting).Mismatched req.indexName ↔
      ∀ active, svc.resolveActive (nameOrDefault req.indexName svc.settings.defaultIndexName) =
        some active → active.embeddingModel ≠ svc.embed.model := Iff.rfl

end Checks

/-- On one index and one provider the four paths refuse the same requests exactly when there is
no active version, or its model is another, or its dimensions are those of the provider. -/
theorem refuseAlike_iff (svc : RetrievalServiceConfig) (cfg : HybridRetrievalConfig)
    (req : HybridRequest) (htenant : req.tenantId ≠ "") :
    RefuseAlike svc (cfg.on svc.toIndexSetting) req ↔
      ∀ active,
        svc.resolveActive (nameOrDefault req.indexName svc.settings.defaultIndexName) = some active →
          active.embeddingModel ≠ svc.embed.model ∨
            active.embeddingDimensions = svc.embed.dimensions := by
  constructor
  · rintro ⟨-, hquery, -, -⟩ active hactive
    rw [query_refused_iff htenant, mismatched_on_iff] at hquery
    by_cases hmodel : active.embeddingModel = svc.embed.model
    · by_contra hdims
      rw [not_or] at hdims
      have hunfit : svc.Unfit req := by
        intro active' hactive'
        obtain rfl := Option.some.inj (hactive.symm.trans hactive')
        exact Or.inr hdims.2
      exact hquery.mpr hunfit active hactive hmodel
    · exact Or.inl hmodel
  · intro hfits
    have hsame : (cfg.on svc.toIndexSetting).Mismatched req.indexName ↔ svc.Unfit req := by
      rw [mismatched_on_iff]
      constructor
      · intro hmodel active hactive
        exact Or.inl (hmodel active hactive)
      · intro hunfit active hactive
        rcases hfits active hactive with hmodel | hdims
        · exact hmodel
        · exact (hunfit active hactive).resolve_right (not_not_intro hdims)
    exact ⟨service_refused_iff htenant, (query_refused_iff htenant).trans hsame,
      (queryWithEvidence_refused_iff htenant).trans hsame,
      refused_self_iff.trans (resolve_error_iff.trans hsame)⟩

def serviceOn (dimensions : Int) : RetrievalServiceConfig where
  embed := ⟨['m'], 1, fun _ => []⟩
  resolveActive := fun name => some
    { versionId := 5, indexName := name, version := ['1'], embeddingModel := ['m'],
      embeddingDimensions := dimensions, chunkerVersion := ['1'], createdAt := 0 }
  vectorSearch := fun _ _ _ _ => []
  keywordSearch := fun _ _ _ => []
  uuid4 := fun _ => 77
  rerank := fun evidence _ => evidence
  generate := fun _ _ _ => .error (.generation [])

theorem refuseAlike_fails : ¬ ∀ (svc : RetrievalServiceConfig) (cfg : HybridRetrievalConfig)
    (req : HybridRequest), req.tenantId ≠ "" → RefuseAlike svc (cfg.on svc.toIndexSetting) req := by
  intro h
  have hquery := (h (serviceOn 2) plainService dependsQuestion (by decide)).query
  have hunfit : (serviceOn 2).Unfit dependsQuestion := by
    intro active hactive
    obtain rfl := Option.some.inj hactive
    exact Or.inr (by decide)
  obtain ⟨e, he, -⟩ := hquery.mpr hunfit
  cases he

theorem refuseAlike_sample :
    RefuseAlike (serviceOn 1) (plainService.on (serviceOn 1).toIndexSetting) dependsQuestion :=
  (refuseAlike_iff (serviceOn 1) plainService dependsQuestion (by decide)).mpr fun _ hactive =>
    Or.inr (by obtain rfl := Option.some.inj hactive; rfl)

end GroundGraph.Retrieval

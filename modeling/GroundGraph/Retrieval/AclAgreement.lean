import GroundGraph.Retrieval.ChunkSearch
import GroundGraph.Retrieval.GraphCoverage

/-! One query of `application/retrieval/hybrid_retrieval.py` asks three stores, each with
its own filter for the principal. Here the filters are compared on one ACL.
-/

set_option autoImplicit false

namespace GroundGraph.Retrieval

open GroundGraph.Knowledge GroundGraph.Neo4j

/-- What `query` and `query_with_evidence` pass down, once the plan and the active index
are known. -/
structure HybridQuery where
  question : List Char
  principal : String
  tenantId : String
  indexVersionId : UUID
  vectorTopK : Nat
  keywordTopK : Nat
  predicates : Option (List String) := none
  validAt : Option Instant := none
  maxGraphDepth : Int := 2
  seedEntities : List CanonicalEntity

def HybridQuery.chunkFilter (h : HybridQuery) : ChunkFilter :=
  { tenantId := h.tenantId, allowedPrincipals := some [h.principal] }

def HybridQuery.graphSearch (h : HybridQuery) : Search :=
  { predicates := h.predicates, validAt := h.validAt, maxDepth := h.maxGraphDepth,
    tenantId := some h.tenantId, principal := some h.principal }

/-- What the stores decide beside their filters. -/
structure StoreChoices where
  distance : ChunkEmbedding → PyFloat
  vectorOrder : RankOrder (ChunkEmbedding × ChunkRow)
  isMatch : List Char → Bool
  rank : ChunkRow → PyFloat
  keywordOrder : RankOrder ChunkRow
  fetches : Nat → Fetches
  scoring : Scoring

def HybridQuery.vectorResults (h : HybridQuery) (choices : StoreChoices) (store : ChunkStore) :
    Option (List RetrievedChunk) :=
  searchWithContent store choices.distance choices.vectorOrder h.vectorTopK h.chunkFilter
    (some h.indexVersionId)

def HybridQuery.keywordResults (h : HybridQuery) (choices : StoreChoices) (store : ChunkStore) :
    List RetrievedChunk :=
  keywordSearch store choices.isMatch choices.rank choices.keywordOrder h.question h.keywordTopK
    h.chunkFilter

def HybridQuery.graphEvidence (h : HybridQuery) (choices : StoreChoices) (g : Graph) :
    Option (List Evidence) :=
  retrieveEvidence choices.scoring g h.graphSearch choices.fetches h.seedEntities

theorem chunkFilter_admits_iff (h : HybridQuery) {r : ChunkRow} (hactive : r.isActive = true)
    (htenant : r.tenantId = h.tenantId) (hcurrent : r.currentVersionId = some r.versionId) :
    h.chunkFilter.admits r = true ↔ h.principal ∈ r.allowedPrincipals := by
  simp [ChunkFilter.admits, HybridQuery.chunkFilter, principalsCondition, sourceCondition, hactive,
    htenant, hcurrent]

theorem graphSearch_acl_iff (h : HybridQuery) (acl : List String) :
    aclCondition h.graphSearch.allowedPrincipals acl = true ↔
      h.principal = "" ∨ acl = [] ∨ h.principal ∈ acl := by
  by_cases hempty : h.principal = ""
  · simp [HybridQuery.graphSearch, Search.allowedPrincipals, hempty, aclCondition]
  · simp [HybridQuery.graphSearch, Search.allowedPrincipals, hempty, aclCondition, or_comm]

/-! ## Whether a store returns an item of which everything but the ACL is as it should be -/

/-- A chunk of an active source of the tenant, in its current version, that the index has
and the text matches; neither limit is reached. -/
structure ChunkInReach (h : HybridQuery) (choices : StoreChoices) (store : ChunkStore)
    (r : ChunkRow) : Prop where
  stored : store.chunks.get? r.chunkId = some r
  sourceActive : r.isActive = true
  tenant : r.tenantId = h.tenantId
  current : r.currentVersionId = some r.versionId
  tenantGiven : h.tenantId ≠ ""
  indexActive : store.activeIndex (some h.indexVersionId) = some h.indexVersionId
  embedded : ∃ e ∈ store.embeddings.rows, e.chunkId = r.chunkId ∧
    e.indexVersionId = h.indexVersionId
  vectorLimit : (store.embedded.filter (vectorAdmits h.chunkFilter h.indexVersionId)).length ≤
    h.vectorTopK
  question : PyText.strip h.question ≠ []
  isMatch : choices.isMatch r.content = true
  keywordLimit : (store.chunks.rows.filter
    (keywordAdmits h.chunkFilter choices.isMatch)).length ≤ h.keywordTopK

/-- A verified fact of the tenant, valid and with the predicate asked for, at a node that
the traversal visits and of which all rows come back; and no fact that is collected makes the
call raise. -/
structure FactInReach (h : HybridQuery) (choices : StoreChoices) (g : Graph) (f : KnowledgeFact) :
    Prop where
  verified : f.status = .verified
  tenant : f.tenantId = h.tenantId
  current : isTemporalValid f h.validAt = true
  predicate : textCondition h.graphSearch.predicate f.predicate = true
  node : ∃ row ∈ g.factRows, row.fact = f ∧
    ((Visits g h.graphSearch choices.fetches h.seedEntities row.subject ∧
        (g.factRows.filter (h.graphSearch.asSubject row.subject).admits).length ≤
          findFactsLimit) ∨
      (Visits g h.graphSearch choices.fetches h.seedEntities row.object ∧
        (g.factRows.filter (h.graphSearch.asObject row.object).admits).length ≤ findFactsLimit))
  scored : AllScored choices.scoring g h.graphSearch choices.fetches h.seedEntities

def HybridQuery.VectorReturns (h : HybridQuery) (choices : StoreChoices) (store : ChunkStore)
    (r : ChunkRow) : Prop :=
  ∃ found, h.vectorResults choices store = some found ∧ ∃ c ∈ found, c.chunkId = r.chunkId

def HybridQuery.KeywordReturns (h : HybridQuery) (choices : StoreChoices) (store : ChunkStore)
    (r : ChunkRow) : Prop :=
  ∃ c ∈ h.keywordResults choices store, c.chunkId = r.chunkId

def HybridQuery.GraphReturns (h : HybridQuery) (choices : StoreChoices) (g : Graph)
    (f : KnowledgeFact) : Prop :=
  ∃ evidence, h.graphEvidence choices g = some evidence ∧
    ∃ e ∈ evidence, e.evidenceId = f.factId

variable {h : HybridQuery} {choices : StoreChoices}

theorem vectorReturns_iff {store : ChunkStore} {r : ChunkRow}
    (hr : ChunkInReach h choices store r) :
    h.VectorReturns choices store r ↔ h.principal ∈ r.allowedPrincipals := by
  rw [← chunkFilter_admits_iff h hr.sourceActive hr.tenant hr.current]
  exact searchWithContent_returns_iff hr.tenantGiven hr.indexActive hr.vectorLimit hr.stored
    hr.embedded

theorem keywordReturns_iff {store : ChunkStore} {r : ChunkRow}
    (hr : ChunkInReach h choices store r) :
    h.KeywordReturns choices store r ↔ h.principal ∈ r.allowedPrincipals := by
  rw [← chunkFilter_admits_iff h hr.sourceActive hr.tenant hr.current]
  exact keywordSearch_returns_iff hr.question hr.keywordLimit hr.stored hr.isMatch

theorem graphReturns_of_acl {g : Graph} {f : KnowledgeFact} (hf : FactInReach h choices g f)
    (hacl : h.principal = "" ∨ f.allowedPrincipals = [] ∨ h.principal ∈ f.allowedPrincipals) :
    h.GraphReturns choices g f := by
  obtain ⟨row, hrow, rfl, hnode⟩ := hf.node
  have hacl' := (graphSearch_acl_iff h _).mpr hacl
  have hverified := verified_iff.mpr hf.verified
  have htenant : tenantCondition h.graphSearch.tenantId row.fact.tenantId = true := by
    simp [HybridQuery.graphSearch, tenantCondition, hf.tenant]
  suffices hentry : ∃ r ∈ allEntries g h.graphSearch choices.fetches h.seedEntities,
      r.fact.factId = row.fact.factId by
    obtain ⟨r, hr, hid⟩ := hentry
    unfold HybridQuery.GraphReturns
    rw [← hid]
    exact exists_evidence_of_entry hf.scored hr
  rcases hnode with ⟨hvisits, hlimit⟩ | ⟨hvisits, hlimit⟩
  · have hadmits : (h.graphSearch.asSubject row.subject).admits row = true := by
      simpa [FactFilter.admits, Search.asSubject, idCondition] using
        ⟨⟨⟨hf.predicate, hverified⟩, htenant⟩, hacl'⟩
    exact mem_allEntries_of_visits hrow hf.current (Or.inl ⟨hadmits, hlimit⟩) hvisits
  · have hadmits : (h.graphSearch.asObject row.object).admits row = true := by
      simpa [FactFilter.admits, Search.asObject, idCondition] using
        ⟨⟨⟨hf.predicate, hverified⟩, htenant⟩, hacl'⟩
    exact mem_allEntries_of_visits hrow hf.current (Or.inr ⟨hadmits, hlimit⟩) hvisits

theorem graphReturns_iff {g : Graph} {f : KnowledgeFact} (hf : FactInReach h choices g f) :
    h.GraphReturns choices g f ↔
      h.principal = "" ∨ f.allowedPrincipals = [] ∨ h.principal ∈ f.allowedPrincipals := by
  refine ⟨?_, graphReturns_of_acl hf⟩
  rintro ⟨evidence, hevidence, e, he, hid⟩
  by_cases hempty : h.principal = ""
  · exact Or.inl hempty
  · right
    obtain ⟨k, r, hfirst, rfl⟩ := (mem_retrieveEvidence hevidence).mp he
    have hruns : h.graphSearch.RunsFor h.tenantId h.principal := ⟨rfl, rfl, hempty⟩
    have hsound := allEntries_sound hruns choices.fetches h.seedEntities r (firstEntry_some hfirst).1
    obtain ⟨row, hrow, hfact, _⟩ := hf.node
    have hstored : g.facts.get? f.factId = some f := by
      rw [← hfact]
      exact (mem_factRows.mp hrow).2.2.1
    have hsame : r.fact.factId = f.factId := hid
    have hget := hsound.stored
    rw [hsame, hstored] at hget
    rw [Option.some.inj hget]
    exact hsound.visible.acl

/-- The three paths agree on the ACL `acl` for the principal `p`, whatever is queried. -/
def OneAcl (acl : List String) (p : String) : Prop :=
  ∀ (h : HybridQuery) (choices : StoreChoices) (store : ChunkStore) (g : Graph) (r : ChunkRow)
    (f : KnowledgeFact), h.principal = p → r.allowedPrincipals = acl → f.allowedPrincipals = acl →
    ChunkInReach h choices store r → FactInReach h choices g f →
      (h.VectorReturns choices store r ↔ h.GraphReturns choices g f) ∧
      (h.KeywordReturns choices store r ↔ h.GraphReturns choices g f)

/-! One chunk and one fact with the same ACL, both in reach. -/

def aclChunk (acl : List String) : ChunkRow :=
  { chunkId := 7, sourceId := 3, documentId := 4, versionId := 6, content := ['c']
    currentVersionId := some 6, isActive := true, tenantId := "t", allowedPrincipals := acl }

def aclStore (acl : List String) : ChunkStore :=
  { chunks := ⟨[aclChunk acl], List.nodup_singleton _⟩
    embeddings := ⟨[⟨7, 5⟩], List.nodup_singleton _⟩
    activeIndexes := [5] }

def aclFact (acl : List String) : KnowledgeFact where
  factId := 10
  subjectId := 1
  predicate := "knows"
  objectId := 2
  status := .verified
  confidence := half
  evidenceIds := [9]
  extractionMethod := .human
  ontologyVersion := "1"
  tenantId := "t"
  allowedPrincipals := acl
  confidence_unit := half_unit
  temporal := absent_bounds
  verified_evidence := verified_by_one
  observedAt := 0

def aclEntity (id : UUID) (name : String) : CanonicalEntity :=
  { entityId := id, entityType := "person", canonicalName := name }

def aclGraph (acl : List String) : Graph where
  entities := ⟨[aclEntity 1 "Ada", aclEntity 2 "Bob"], by decide⟩
  facts := ⟨[aclFact acl], List.nodup_singleton _⟩
  mentions := .empty
  chunks := []
  subjectOf := [(1, 10)]
  object := [(10, 2)]
  supersededBy := []
  mentionedIn := []

def aclQuery (p : String) : HybridQuery :=
  { question := ['c'], principal := p, tenantId := "t", indexVersionId := 5, vectorTopK := 10
    keywordTopK := 10, seedEntities := [aclEntity 1 "Ada"] }

def aclChoices : StoreChoices :=
  { distance := fun _ => 0
    vectorOrder := ⟨fun rows => rows, fun _ => .refl _⟩
    isMatch := fun _ => true
    rank := fun _ => 0
    keywordOrder := ⟨fun rows => rows, fun _ => .refl _⟩
    fetches := fun _ => ⟨fun _ => ⟨fun rows => rows, fun _ => .refl _⟩,
      fun _ => ⟨fun rows => rows, fun _ => .refl _⟩⟩
    scoring := ⟨fun _ => 0, fun _ _ _ => ['1']⟩ }

theorem aclChunk_inReach (acl : List String) (p : String) :
    ChunkInReach (aclQuery p) aclChoices (aclStore acl) (aclChunk acl) where
  stored := rfl
  sourceActive := rfl
  tenant := rfl
  current := rfl
  tenantGiven := by simp [aclQuery]
  indexActive := rfl
  embedded := ⟨⟨7, 5⟩, List.mem_singleton.mpr rfl, rfl, rfl⟩
  vectorLimit := (List.length_filter_le _ _).trans (show 1 ≤ 10 by decide)
  question := show PyText.strip ['c'] ≠ [] by decide
  isMatch := rfl
  keywordLimit := (List.length_filter_le _ _).trans (show 1 ≤ 10 by decide)

theorem aclFact_inReach (acl : List String) (p : String) :
    FactInReach (aclQuery p) aclChoices (aclGraph acl) (aclFact acl) where
  verified := rfl
  tenant := rfl
  current := rfl
  predicate := rfl
  node := by
    refine ⟨⟨1, aclFact acl, 2⟩, List.mem_singleton.mpr rfl, rfl, Or.inl ⟨Or.inl ⟨1, ?_⟩, ?_⟩⟩
    · exact seed_visited (aclGraph acl) _ 1 (show (1 : Int) ≤ 2 by decide)
    · exact (List.length_filter_le _ _).trans (show 1 ≤ 100 by decide)
  scored := by
    intro r hr
    obtain ⟨row, hrow, hfact, -⟩ := allEntries_fromRows _ _ r hr
    rw [← hfact, List.mem_singleton.mp hrow]
    exact show decide (stalenessOverflow ≤ 0 - 0) = false by decide

theorem acl_of_oneAcl {acl : List String} {p : String} (hone : OneAcl acl p) :
    p ∈ acl ∨ (p ≠ "" ∧ acl ≠ []) := by
  have hchunk := aclChunk_inReach acl p
  have hfact := aclFact_inReach acl p
  have hagree := (hone (aclQuery p) aclChoices (aclStore acl) (aclGraph acl) (aclChunk acl)
    (aclFact acl) rfl rfl rfl hchunk hfact).1
  rw [vectorReturns_iff hchunk, graphReturns_iff hfact] at hagree
  have hback : (p = "" ∨ acl = [] ∨ p ∈ acl) → p ∈ acl := hagree.mpr
  by_cases hmem : p ∈ acl
  · exact Or.inl hmem
  · exact Or.inr ⟨fun h => hmem (hback (Or.inl h)), fun h => hmem (hback (Or.inr (Or.inl h)))⟩

/-- The paths enforce one ACL exactly where the graph has no reason of its own to admit:
an empty principal, or an empty ACL. -/
theorem oneAcl_iff (acl : List String) (p : String) :
    OneAcl acl p ↔ p ∈ acl ∨ (p ≠ "" ∧ acl ≠ []) := by
  refine ⟨acl_of_oneAcl, ?_⟩
  rintro hcondition h choices store g r f rfl hr hf hchunk hfact
  have hgraph : h.GraphReturns choices g f ↔ h.principal ∈ acl := by
    rw [graphReturns_iff hfact, hf]
    rcases hcondition with hmem | ⟨hprincipal, hacl⟩
    · simp [hmem]
    · simp [hprincipal, hacl]
  rw [vectorReturns_iff hchunk, keywordReturns_iff hchunk, hgraph, hr]
  exact ⟨Iff.rfl, Iff.rfl⟩

/-- A fact without an ACL is shown by the graph to everybody, a chunk without one to nobody. -/
theorem not_oneAcl_empty : ¬ ∀ (acl : List String) (p : String), OneAcl acl p := by
  intro h
  have hcondition := acl_of_oneAcl (h [] "alice")
  simp at hcondition

end GroundGraph.Retrieval

import GroundGraph.Neo4j.Redelivery
import GroundGraph.Retrieval.ChunkSearch
import GroundGraph.Retrieval.Hybrid
import GroundGraph.Retrieval.ReaderSlice

/-! A query over the shared stores gives its reader what it would give over stores of his own:
the chunks that he may read, and the graph that only the events about his facts have built.
-/

set_option autoImplicit false

namespace GroundGraph.Retrieval

open GroundGraph.Knowledge GroundGraph.Neo4j

/-- What the database makes of a query and the rows that it admits. -/
structure SearchBackend where
  distance : List PyFloat → ChunkEmbedding → PyFloat
  nearest : List PyFloat → RankOrder (ChunkEmbedding × ChunkRow)
  isMatch : List Char → List Char → Bool
  rank : List Char → ChunkRow → PyFloat
  best : List Char → RankOrder ChunkRow

/-- The service with the two retrievers over PostgreSQL. The limits are positive. -/
def HybridRetrievalConfig.over (cfg : HybridRetrievalConfig) (backend : SearchBackend)
    (store : ChunkStore) (g : Graph) : HybridRetrievalConfig :=
  { cfg with
    vectorSearch := fun embedding topK filter indexVersionId =>
      (searchWithContent store (backend.distance embedding) (backend.nearest embedding) topK.toNat
        filter (some indexVersionId)).getD []
    keywordSearch := fun question topK filter =>
      Retrieval.keywordSearch store (backend.isMatch question) (backend.rank question)
        (backend.best question) question topK.toNat filter
    graph := g }

def Reader.readsChunk (rd : Reader) (r : ChunkRow) : Bool :=
  decide (r.tenantId = rd.tenantId) && decide (rd.principal ∈ r.allowedPrincipals)

def chunkPart (rd : Reader) (store : ChunkStore) : ChunkStore where
  chunks := store.chunks.select rd.readsChunk
  embeddings := store.embeddings.select fun e =>
    ((store.chunks.get? e.chunkId).filter rd.readsChunk).isSome
  activeIndexes := store.activeIndexes

structure HybridRequest.AskedBy (req : HybridRequest) (rd : Reader) : Prop where
  tenantId : req.tenantId = rd.tenantId
  principal : req.principal = rd.principal

section
variable {rd : Reader} {req : HybridRequest} {store : ChunkStore} {own : UUID → Bool} {g : Graph}

theorem HybridRequest.AskedBy.readable (h : req.AskedBy rd) {r : ChunkRow}
    (hadmits : (ofPrincipal req).admits r = true) : rd.readsChunk r = true := by
  simp only [ChunkFilter.admits, ofPrincipal, principalsCondition, overlap_singleton,
    Bool.and_eq_true, decide_eq_true_eq, h.tenantId, h.principal] at hadmits
  simp [Reader.readsChunk, hadmits.1.1.1.2, hadmits.1.2]

theorem embedded_chunkPart :
    (chunkPart rd store).embedded = store.embedded.filter fun row => rd.readsChunk row.2 := by
  simp only [ChunkStore.embedded, chunkPart, KeyedTable.select, List.filter_filterMap]
  rw [List.filterMap_filter]
  refine List.filterMap_congr fun e _ => ?_
  have hget := store.chunks.get?_select rd.readsChunk e.chunkId
  simp only [KeyedTable.select] at hget
  rw [hget]
  cases store.chunks.get? e.chunkId with
  | none => rfl
  | some r => cases hreads : rd.readsChunk r <;> simp [Option.filter, hreads]

theorem filter_of_implied {α : Type} {p q : α → Bool} (h : ∀ x, q x = true → p x = true)
    (xs : List α) : (xs.filter p).filter q = xs.filter q := by
  rw [List.filter_filter]
  refine List.filter_congr fun x _ => ?_
  cases hq : q x with
  | false => rfl
  | true => simp [h x hq]

theorem keywordSearch_chunkPart (h : req.AskedBy rd) (isMatch : List Char → Bool)
    (rank : ChunkRow → PyFloat) (order : RankOrder ChunkRow) (query : List Char) (topK : Nat) :
    keywordSearch (chunkPart rd store) isMatch rank order query topK (ofPrincipal req) =
      keywordSearch store isMatch rank order query topK (ofPrincipal req) := by
  have hsame : (chunkPart rd store).chunks.rows.filter (keywordAdmits (ofPrincipal req) isMatch) =
      store.chunks.rows.filter (keywordAdmits (ofPrincipal req) isMatch) := by
    refine filter_of_implied (fun r hr => h.readable ?_) store.chunks.rows
    simp only [keywordAdmits, Bool.and_eq_true] at hr
    exact hr.2
  simp only [keywordSearch, hsame]

theorem searchWithContent_chunkPart (h : req.AskedBy rd) (distance : ChunkEmbedding → PyFloat)
    (order : RankOrder (ChunkEmbedding × ChunkRow)) (topK : Nat) (indexVersionId : Option UUID) :
    searchWithContent (chunkPart rd store) distance order topK (ofPrincipal req) indexVersionId =
      searchWithContent store distance order topK (ofPrincipal req) indexVersionId := by
  have hsame : ∀ active,
      (chunkPart rd store).embedded.filter (vectorAdmits (ofPrincipal req) active) =
        store.embedded.filter (vectorAdmits (ofPrincipal req) active) := by
    intro active
    rw [embedded_chunkPart]
    refine filter_of_implied (fun row hrow => h.readable ?_) store.embedded
    simp only [vectorAdmits, Bool.and_eq_true] at hrow
    exact hrow.2
  have hactive : (chunkPart rd store).activeIndex = store.activeIndex := rfl
  simp only [searchWithContent, hsame, hactive]

theorem HybridRequest.AskedBy.runsFor (h : req.AskedBy rd) (p : RetrievalPlan) :
    (HybridRetrievalConfig.graphSearch req p).RunsFor rd.tenantId rd.principal :=
  ⟨congrArg some h.tenantId, congrArg some h.principal, rd.named⟩

theorem queryWithEvidence_parts (h : req.AskedBy rd) (hown : ReadableFacts rd own g)
    (cfg : HybridRetrievalConfig) (backend : SearchBackend) :
    (cfg.over backend (chunkPart rd store) (graphPart own g)).queryWithEvidence req =
      (cfg.over backend store g).queryWithEvidence req := by
  have hretrieve : (cfg.over backend (chunkPart rd store) (graphPart own g)).retrieve req =
      (cfg.over backend store g).retrieve req := by
    simp only [HybridRetrievalConfig.retrieve, HybridRetrievalConfig.over,
      searchWithContent_chunkPart h, keywordSearch_chunkPart h]
    rfl
  have hgraph : ∀ p,
      (cfg.over backend (chunkPart rd store) (graphPart own g)).graphEvidence req p =
        (cfg.over backend store g).graphEvidence req p := by
    intro p
    have hevidence := retrieveEvidence_graphPart (h.runsFor p) hown cfg.scoring cfg.fetches
      ((cfg.over backend store g).resolveEntities p)
    exact HybridRetrievalConfig.graphEvidence_congr hevidence
  have hselect : ∀ p vector keyword,
      (cfg.over backend (chunkPart rd store) (graphPart own g)).selectEvidence req p vector keyword =
        (cfg.over backend store g).selectEvidence req p vector keyword := by
    intro p vector keyword
    simp only [HybridRetrievalConfig.selectEvidence, hgraph]
    rfl
  simp only [HybridRetrievalConfig.queryWithEvidence, HybridRetrievalConfig.gatherEvidence,
    hretrieve, hselect]
  rfl

/-- Whatever events of others are projected, and in whatever order among his own, the reader is
answered as if there had been his own and the common ones only. -/
theorem private_view {co : Conversions} {chunks : List UUID} {as : List GraphAction}
    (hrun : (graphSystem co chunks).run (graphSystem co chunks).start as = some g)
    (hkeeps : ∀ a ∈ as, keepsReaders co rd own a = true) :
    ∃ g', (graphSystem co chunks).run (graphSystem co chunks).start
        (as.filter (concerns co own)) = some g' ∧
      ∀ (cfg : HybridRetrievalConfig) (backend : SearchBackend) (store : ChunkStore)
        (req : HybridRequest), req.AskedBy rd →
          (cfg.over backend store g).queryWithEvidence req =
            (cfg.over backend (chunkPart rd store) g').queryWithEvidence req := by
  have hstart : ReadableFacts rd own (graphSystem co chunks).start := by
    intro f hf
    cases hf
  obtain ⟨hown, hpart⟩ := (graph_slice co rd own chunks).run hstart hkeeps hrun
  rw [List.map_id] at hpart
  refine ⟨graphPart own g, hpart, fun cfg backend store req h => ?_⟩
  exact (queryWithEvidence_parts h hown cfg backend).symm

end

def factOfTenant (id : Nat) (tenant : String) : JsonObject :=
  [("fact_id", uuidText id), ("subject_id", uuidText 1), ("predicate", .str "knows"),
   ("object_id", uuidText 2), ("evidence_ids", .list [uuidText 9]), ("tenant_id", .str tenant),
   ("observed_at", .int 5)]

/-- Two tenants share two entities. -/
def twoTenants : List GraphAction :=
  [.project .entityResolved (entityPayload 1 "Ada") 0,
   .project .factCandidate (factOfTenant 3 "u") 0,
   .project .entityResolved (entityPayload 2 "Bob") 0,
   .project .factCandidate (factOfTenant 4 "t") 0,
   .updateFactStatus 3 "verified" none, .updateFactStatus 4 "verified" none,
   .project .factCandidate (factOfTenant 5 "u") 0, .updateFactStatus 3 "superseded" (some 5)]

/-- What the first of them never hears of is left out. -/
def ofTenant : List GraphAction :=
  [.project .entityResolved (entityPayload 1 "Ada") 0,
   .project .entityResolved (entityPayload 2 "Bob") 0,
   .project .factCandidate (factOfTenant 4 "t") 0, .updateFactStatus 4 "verified" none]

def ada : Reader := ⟨"t", "ada", by decide⟩

theorem private_view_twoTenants :
    ∃ g g', (graphSystem plainConversions []).run (graphSystem plainConversions []).start
        twoTenants = some g ∧
      (graphSystem plainConversions []).run (graphSystem plainConversions []).start
        ofTenant = some g' ∧
      ∀ (cfg : HybridRetrievalConfig) (backend : SearchBackend) (store : ChunkStore)
        (req : HybridRequest), req.AskedBy ada →
          (cfg.over backend store g).queryWithEvidence req =
            (cfg.over backend (chunkPart ada store) g').queryWithEvidence req := by
  have hsome : ((graphSystem plainConversions []).run (graphSystem plainConversions []).start
      twoTenants).isSome = true := by decide
  obtain ⟨g, hg⟩ := Option.isSome_iff_exists.mp hsome
  have hkeeps : ∀ a ∈ twoTenants,
      keepsReaders plainConversions ada (fun id => decide (id = 4)) a = true := by decide
  have hfilter : twoTenants.filter (concerns plainConversions fun id => decide (id = 4)) =
      ofTenant := by rfl
  obtain ⟨g', hg', hview⟩ := private_view hg hkeeps
  rw [hfilter] at hg'
  exact ⟨g, g', hg, hg', hview⟩

end GroundGraph.Retrieval

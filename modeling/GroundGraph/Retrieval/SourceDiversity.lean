import GroundGraph.Retrieval.GraphAgreement
import GroundGraph.Retrieval.GraphCoverage
import GroundGraph.Retrieval.HybridFusion

/-! Whether the fused evidence is diverse by source. The fusion keeps one item for each
`source_id`, and graph evidence carries there the id of the chunk that backs the fact, not that
of the source of the chunk.
-/

set_option autoImplicit false

namespace GroundGraph.Retrieval

open GroundGraph.Knowledge GroundGraph.Neo4j

def ChunkStore.sourceOf (store : ChunkStore) (chunkId : UUID) : Option UUID :=
  (store.chunks.get? chunkId).map ChunkRow.sourceId

def ChunkStore.IdsApart (store : ChunkStore) : Prop :=
  ∀ r ∈ store.chunks.rows, store.chunks.get? r.sourceId = none

/-- The evidence of the fact is the chunk that it was extracted from. -/
def BackedByChunk (store : ChunkStore) (f : KnowledgeFact) : Prop :=
  ∃ k, f.evidenceIds = [k] ∧ (store.sourceOf k).isSome = true

def backingChunk (g : Graph) (e : Evidence) : Option UUID :=
  (g.facts.get? e.evidenceId).bind fun f => f.evidenceIds.head?

/-- A graph item counts under the source of the chunk that backs its fact. -/
def ingestedSource (store : ChunkStore) (g : Graph) (e : Evidence) : Option UUID :=
  if e.retrievalMethod = .graph then (backingChunk g e).bind store.sourceOf else some e.sourceId

/-- No fact is backed by a chunk of a source that a retrieved chunk is of, and the facts that
are backed by chunks of one source are backed by one chunk. -/
structure SourcesApart (store : ChunkStore) (retrieved : List RetrievedChunk)
    (entries : List FactWithNames) : Prop where
  fromRetrieved : ∀ r ∈ entries, ∀ k ∈ r.fact.evidenceIds, ∀ c ∈ retrieved,
    store.sourceOf k ≠ some c.sourceId
  oneChunkEach : ∀ r ∈ entries, ∀ r' ∈ entries, ∀ k ∈ r.fact.evidenceIds,
    ∀ k' ∈ r'.fact.evidenceIds, store.sourceOf k = store.sourceOf k' → k = k'

section
variable {g : Graph} {q : Search} {store : ChunkStore} {sc : Scoring} {fetches : Nat → Fetches}
  {seedEntities : List CanonicalEntity} {retrieved : List RetrievedChunk}
  {evidence out : List Evidence}

def FromStore (store : ChunkStore) (c : RetrievedChunk) : Prop :=
  store.sourceOf c.chunkId = some c.sourceId

theorem ChunkStore.IdsApart.sourceOf_eq_none (h : store.IdsApart) {k s : UUID}
    (hk : store.sourceOf k = some s) : store.sourceOf s = none := by
  obtain ⟨r, hget, rfl⟩ := Option.map_eq_some_iff.mp hk
  unfold ChunkStore.sourceOf
  rw [h r (store.chunks.get?_some_iff.mp hget).1]
  rfl

theorem fromStore_toRetrieved {r : ChunkRow} (hr : store.chunks.get? r.chunkId = some r)
    (vectorScore keywordScore : Option PyFloat) :
    FromStore store (toRetrieved vectorScore keywordScore r) := by
  have hrow : store.chunks.get? (toRetrieved vectorScore keywordScore r).chunkId = some r := hr
  unfold FromStore ChunkStore.sourceOf
  rw [hrow]
  rfl

theorem searchWithContent_fromStore {distance : ChunkEmbedding → PyFloat}
    {order : RankOrder (ChunkEmbedding × ChunkRow)} {topK : Nat} {filter : ChunkFilter}
    {indexVersionId : Option UUID} {found : List RetrievedChunk}
    (hfound : searchWithContent store distance order topK filter indexVersionId = some found) :
    ∀ c ∈ found, FromStore store c := by
  intro c hc
  obtain ⟨r, hr, -, score, rfl⟩ := searchWithContent_admitted hfound hc
  exact fromStore_toRetrieved (store.chunks.mem_rows_iff.mp hr) _ _

theorem keywordSearch_fromStore {isMatch : List Char → Bool} {rank : ChunkRow → PyFloat}
    {order : RankOrder ChunkRow} {query : List Char} {topK : Nat} {filter : ChunkFilter} :
    ∀ c ∈ keywordSearch store isMatch rank order query topK filter, FromStore store c := by
  intro c hc
  obtain ⟨r, hr, -, score, rfl⟩ := keywordSearch_admitted hc
  exact fromStore_toRetrieved (store.chunks.mem_rows_iff.mp hr) _ _

structure GraphItem (store : ChunkStore) (g : Graph) (entries : List FactWithNames) (e : Evidence) :
    Prop where
  method : e.retrievalMethod = .graph
  backed : (store.sourceOf e.sourceId).isSome = true
  ingested : ingestedSource store g e = store.sourceOf e.sourceId
  entry : ∃ r ∈ entries, e.sourceId ∈ r.fact.evidenceIds

structure ChunkItem (retrieved : List RetrievedChunk) (e : Evidence) : Prop where
  method : e.retrievalMethod ≠ .graph
  chunk : ∃ c ∈ retrieved, e.sourceId = c.sourceId

theorem ChunkItem.ingested {e : Evidence} (h : ChunkItem retrieved e) :
    ingestedSource store g e = some e.sourceId := by
  unfold ingestedSource
  rw [if_neg h.method]

theorem FusedFrom.item_cases
    (hfused : FusedFrom retrieved evidence out)
    (hevidence : retrieveEvidence sc g q fetches seedEntities = some evidence)
    (hbacked : ∀ r ∈ allEntries g q fetches seedEntities, BackedByChunk store r.fact)
    {e : Evidence} (he : e ∈ out) :
    ChunkItem retrieved e ∨ GraphItem store g (allEntries g q fetches seedEntities) e := by
  obtain ⟨c, hc, hsource, hmethod⟩ | ⟨ev, hev, hid, hsource, hmethod⟩ := hfused.origin e he
  · exact Or.inl ⟨hmethod, c, hc, hsource⟩
  · obtain ⟨k, r, hfirst, rfl⟩ := (mem_retrieveEvidence hevidence).mp hev
    have hr := (firstEntry_some hfirst).1
    obtain ⟨chunkId, hids, hstored⟩ := hbacked r hr
    have hchunk : e.sourceId = chunkId := by
      rw [hsource]
      simp [toEvidence, hids]
    have hfact : g.facts.get? e.evidenceId = some r.fact := by
      rw [hid]
      exact allEntries_stored fetches seedEntities r hr
    refine Or.inr ⟨hmethod, by rwa [hchunk], ?_, r, hr, by simp [hchunk, hids]⟩
    simp [ingestedSource, hmethod, backingChunk, hfact, hids, hchunk]

theorem FusedFrom.exists_graph_item
    (hfused : FusedFrom retrieved evidence out)
    (hevidence : retrieveEvidence sc g q fetches seedEntities = some evidence)
    (hbacked : ∀ r ∈ allEntries g q fetches seedEntities, BackedByChunk store r.fact)
    {r : FactWithNames} (hr : r ∈ allEntries g q fetches seedEntities) {k : UUID}
    (hk : k ∈ r.fact.evidenceIds) : ∃ e ∈ out, e.sourceId = k := by
  obtain ⟨chunkId, hids, -⟩ := hbacked r hr
  rw [hids] at hk
  obtain ⟨ev, hev, hid⟩ := evidence_of_entry hevidence hr
  obtain ⟨e, he, hsource⟩ := hfused.graph ev hev
  obtain ⟨k', r', hfirst, rfl⟩ := (mem_retrieveEvidence hevidence).mp hev
  have hsame : r'.fact = r.fact := by
    have hr' := allEntries_stored fetches seedEntities r' (firstEntry_some hfirst).1
    have hr := allEntries_stored fetches seedEntities r hr
    have hid' : r'.fact.factId = r.fact.factId := hid
    rw [hid', hr] at hr'
    exact (Option.some.inj hr').symm
  refine ⟨e, he, hsource.trans ?_⟩
  simp [toEvidence, hsame, hids, List.mem_singleton.mp hk]

theorem BackedByChunk.stored {f : KnowledgeFact} (h : BackedByChunk store f) {k : UUID}
    (hk : k ∈ f.evidenceIds) : (store.sourceOf k).isSome = true := by
  obtain ⟨chunkId, hids, hstored⟩ := h
  rw [hids] at hk
  rwa [List.mem_singleton.mp hk]

/-- Where no source has the id of a chunk, an item with the `source_id` of a chunk is a graph
item. -/
theorem FusedFrom.ingested_of_stored
    (hfused : FusedFrom retrieved evidence out)
    (hevidence : retrieveEvidence sc g q fetches seedEntities = some evidence)
    (hbacked : ∀ r ∈ allEntries g q fetches seedEntities, BackedByChunk store r.fact)
    (hapart : store.IdsApart) (hretrieved : ∀ c ∈ retrieved, FromStore store c) {e : Evidence}
    (he : e ∈ out) (hstored : (store.sourceOf e.sourceId).isSome = true) :
    ingestedSource store g e = store.sourceOf e.sourceId := by
  rcases hfused.item_cases hevidence hbacked he with hitem | hitem
  · obtain ⟨c, hc, hsource⟩ := hitem.chunk
    rw [hsource, hapart.sourceOf_eq_none (hretrieved c hc)] at hstored
    cases hstored
  · exact hitem.ingested

theorem FusedFrom.ingested_of_retrieved
    (hfused : FusedFrom retrieved evidence out)
    (hevidence : retrieveEvidence sc g q fetches seedEntities = some evidence)
    (hbacked : ∀ r ∈ allEntries g q fetches seedEntities, BackedByChunk store r.fact)
    (hapart : store.IdsApart) (hretrieved : ∀ c ∈ retrieved, FromStore store c) {e : Evidence}
    (he : e ∈ out) {c : RetrievedChunk} (hc : c ∈ retrieved) (hsource : e.sourceId = c.sourceId) :
    ingestedSource store g e = some c.sourceId := by
  rcases hfused.item_cases hevidence hbacked he with hitem | hitem
  · rw [hitem.ingested, hsource]
  · have hstored := hitem.backed
    rw [hsource, hapart.sourceOf_eq_none (hretrieved c hc)] at hstored
    cases hstored

theorem FusedFrom.exists_chunk_item
    (hfused : FusedFrom retrieved evidence out)
    (hretrieved : ∀ c ∈ retrieved, FromStore store c) {c : RetrievedChunk} (hc : c ∈ retrieved) :
    ∃ e ∈ out, e.sourceId = c.sourceId := by
  obtain ⟨e, he, c', hc', hid, hsource⟩ := hfused.chunk c hc
  have hsame := hretrieved c' hc'
  unfold FromStore at hsame
  rw [hid, hretrieved c hc] at hsame
  exact ⟨e, he, hsource.trans (Option.some.inj hsame).symm⟩

theorem FusedFrom.apart_of_nodup
    (hfused : FusedFrom retrieved evidence out)
    (hevidence : retrieveEvidence sc g q fetches seedEntities = some evidence)
    (hbacked : ∀ r ∈ allEntries g q fetches seedEntities, BackedByChunk store r.fact)
    (hapart : store.IdsApart) (hretrieved : ∀ c ∈ retrieved, FromStore store c)
    (hnodup : (out.map (ingestedSource store g)).Nodup) :
    SourcesApart store retrieved (allEntries g q fetches seedEntities) := by
  have hinj := List.inj_on_of_nodup_map hnodup
  constructor
  · intro r hr k hk c hc heq
    obtain ⟨e, he, rfl⟩ := hfused.exists_graph_item hevidence hbacked hr hk
    obtain ⟨e', he', hsource⟩ := hfused.exists_chunk_item hretrieved hc
    have hstored := (hbacked r hr).stored hk
    have hcount := hfused.ingested_of_stored hevidence hbacked hapart hretrieved he hstored
    have hcount' := hfused.ingested_of_retrieved hevidence hbacked hapart hretrieved he' hc hsource
    have hsingle : e = e' := hinj he he' (by rw [hcount, hcount', heq])
    -- the one item would have the id of a chunk and of a source
    rw [hsingle, hsource, hapart.sourceOf_eq_none (hretrieved c hc)] at hstored
    cases hstored
  · intro r hr r' hr' k hk k' hk' heq
    obtain ⟨e, he, rfl⟩ := hfused.exists_graph_item hevidence hbacked hr hk
    obtain ⟨e', he', rfl⟩ := hfused.exists_graph_item hevidence hbacked hr' hk'
    have hcount := hfused.ingested_of_stored hevidence hbacked hapart hretrieved he ((hbacked r hr).stored hk)
    have hcount' := hfused.ingested_of_stored hevidence hbacked hapart hretrieved he'
      ((hbacked r' hr').stored hk')
    have hsingle : e = e' := hinj he he' (by rw [hcount, hcount', heq])
    rw [hsingle]

theorem FusedFrom.nodup_of_apart
    (hfused : FusedFrom retrieved evidence out)
    (hevidence : retrieveEvidence sc g q fetches seedEntities = some evidence)
    (hbacked : ∀ r ∈ allEntries g q fetches seedEntities, BackedByChunk store r.fact)
    (h : SourcesApart store retrieved (allEntries g q fetches seedEntities)) :
    (out.map (ingestedSource store g)).Nodup := by
  have hsource : ∀ e ∈ out, ∀ e' ∈ out,
      ingestedSource store g e = ingestedSource store g e' → e.sourceId = e'.sourceId := by
    intro e he e' he' heq
    rcases hfused.item_cases hevidence hbacked he with hitem | hitem <;>
      rcases hfused.item_cases hevidence hbacked he' with hitem' | hitem' <;>
      rw [hitem.ingested, hitem'.ingested] at heq
    · exact Option.some.inj heq
    · obtain ⟨c, hc, hc'⟩ := hitem.chunk
      obtain ⟨r, hr, hk⟩ := hitem'.entry
      exact absurd (heq.symm.trans (by rw [hc'])) (h.fromRetrieved r hr _ hk c hc)
    · obtain ⟨c, hc, hc'⟩ := hitem'.chunk
      obtain ⟨r, hr, hk⟩ := hitem.entry
      exact absurd (heq.trans (by rw [hc'])) (h.fromRetrieved r hr _ hk c hc)
    · obtain ⟨r, hr, hk⟩ := hitem.entry
      obtain ⟨r', hr', hk'⟩ := hitem'.entry
      exact h.oneChunkEach r hr r' hr' _ hk _ hk' heq
  refine List.Nodup.map_on ?_ (List.Nodup.of_map _ hfused.oneEach)
  intro e he e' he' heq
  exact List.inj_on_of_nodup_map hfused.oneEach he he' (hsource e he e' he' heq)

end

/-- The fused evidence has one item for each ingested source when the chunks that back the facts
are of sources of which no chunk was retrieved, and are one for each source. Unless a source
has the id of a chunk it is so only then. -/
theorem fused_diverse_iff (store : ChunkStore) (sc : Scoring) (g : Graph) (q : Search)
    (fetches : Nat → Fetches) (seedEntities : List CanonicalEntity) (evidence : List Evidence)
    (hevidence : retrieveEvidence sc g q fetches seedEntities = some evidence)
    (vectorResults keywordResults : List RetrievedChunk)
    (hretrieved : ∀ c ∈ vectorResults ++ keywordResults, FromStore store c)
    (hbacked : ∀ r ∈ allEntries g q fetches seedEntities, BackedByChunk store r.fact)
    (uuid4 : Nat → UUID) (order : SetOrder) (out : List Evidence)
    (hout : hybridRrfFusion uuid4 order vectorResults keywordResults evidence = .ok out) :
    (SourcesApart store (vectorResults ++ keywordResults) (allEntries g q fetches seedEntities) →
        (out.map (ingestedSource store g)).Nodup) ∧
      (store.IdsApart → (out.map (ingestedSource store g)).Nodup →
        SourcesApart store (vectorResults ++ keywordResults)
          (allEntries g q fetches seedEntities)) := by
  have hspec := hybridRrfFusion_spec uuid4 order vectorResults keywordResults
    (retrieveEvidence_nodup hevidence)
  rw [hout] at hspec
  exact ⟨hspec.1.nodup_of_apart hevidence hbacked,
    fun hapart hnodup => hspec.1.apart_of_nodup hevidence hbacked hapart hretrieved hnodup⟩

def backingRow : ChunkRow :=
  { chunkId := 9, sourceId := 3, documentId := 4, versionId := 6, content := ['c']
    currentVersionId := some 6, isActive := true, tenantId := "t", allowedPrincipals := ["p"] }

def backingStore : ChunkStore :=
  { chunks := ⟨[backingRow], List.nodup_singleton _⟩, embeddings := .empty, activeIndexes := [] }

def adaEvidence : List Evidence :=
  (retrieveEvidence sampleScoring sampleGraph sampleSearch (fun _ => storedOrder)
    [sampleEntity 1 "Ada"]).getD []

theorem retrieveEvidence_ada : retrieveEvidence sampleScoring sampleGraph sampleSearch
    (fun _ => storedOrder) [sampleEntity 1 "Ada"] = some adaEvidence := rfl

def backingFusion : Except FusionError (List Evidence) :=
  hybridRrfFusion (fun _ => 77) listedSet [toRetrieved none none backingRow] [] adaEvidence

theorem backingFusion_sources : ∃ out, backingFusion = .ok out ∧
    out.map (ingestedSource backingStore sampleGraph) = [some 3, some 3] := by
  have hsources : backingFusion.toOption.map (fun out =>
      out.map (ingestedSource backingStore sampleGraph)) = some [some 3, some 3] := by
    decide +kernel
  cases hout : backingFusion with
  | error e => simp [hout, Except.toOption] at hsources
  | ok out =>
    rw [hout] at hsources
    exact ⟨out, rfl, Option.some.inj hsources⟩

theorem backingStore_idsApart : backingStore.IdsApart := by
  intro r hr
  obtain rfl := List.mem_singleton.mp hr
  rfl

theorem backingRow_fromStore :
    ∀ c ∈ [toRetrieved none none backingRow] ++ [], FromStore backingStore c := by
  intro c hc
  obtain rfl := List.mem_singleton.mp hc
  exact fromStore_toRetrieved rfl _ _

theorem sampleFact_backed : ∀ r ∈ allEntries sampleGraph sampleSearch (fun _ => storedOrder)
    [sampleEntity 1 "Ada"], BackedByChunk backingStore r.fact := by
  intro r hr
  have hids : ∀ ids ∈ (allEntries sampleGraph sampleSearch (fun _ => storedOrder)
      [sampleEntity 1 "Ada"]).map fun r => r.fact.evidenceIds, ids = [9] := by decide
  exact ⟨9, hids _ (List.mem_map_of_mem hr), rfl⟩

theorem fused_diverse_iff_shared : ∃ out, backingFusion = .ok out ∧
    (SourcesApart backingStore ([toRetrieved none none backingRow] ++ [])
        (allEntries sampleGraph sampleSearch (fun _ => storedOrder) [sampleEntity 1 "Ada"]) →
      (out.map (ingestedSource backingStore sampleGraph)).Nodup) ∧
    ((out.map (ingestedSource backingStore sampleGraph)).Nodup →
      SourcesApart backingStore ([toRetrieved none none backingRow] ++ [])
        (allEntries sampleGraph sampleSearch (fun _ => storedOrder) [sampleEntity 1 "Ada"])) := by
  obtain ⟨out, hout, -⟩ := backingFusion_sources
  obtain ⟨henough, hneeded⟩ := fused_diverse_iff backingStore sampleScoring sampleGraph
    sampleSearch (fun _ => storedOrder) [sampleEntity 1 "Ada"] _ retrieveEvidence_ada _ _
    backingRow_fromStore sampleFact_backed (fun _ => 77) listedSet out hout
  exact ⟨out, hout, henough, hneeded backingStore_idsApart⟩

/-- A retrieved chunk and the fact that was extracted from it both stay. -/
theorem not_fused_diverse : ¬ ∀ (store : ChunkStore) (g : Graph) (q : Search)
    (fetches : Nat → Fetches) (seedEntities : List CanonicalEntity)
    (vectorResults keywordResults : List RetrievedChunk) (evidence out : List Evidence),
    store.IdsApart →
    (∀ c ∈ vectorResults ++ keywordResults, FromStore store c) →
    (∀ r ∈ allEntries g q fetches seedEntities, BackedByChunk store r.fact) →
    retrieveEvidence sampleScoring g q fetches seedEntities = some evidence →
    hybridRrfFusion (fun _ => 77) listedSet vectorResults keywordResults evidence = .ok out →
    (out.map (ingestedSource store g)).Nodup := by
  intro h
  obtain ⟨out, hout, hsources⟩ := backingFusion_sources
  have hnodup := h backingStore sampleGraph sampleSearch (fun _ => storedOrder)
    [sampleEntity 1 "Ada"] _ _ _ out backingStore_idsApart backingRow_fromStore sampleFact_backed
    retrieveEvidence_ada hout
  rw [hsources] at hnodup
  exact absurd hnodup (by decide)

end GroundGraph.Retrieval

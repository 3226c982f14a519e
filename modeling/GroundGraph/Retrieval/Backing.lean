import GroundGraph.Library.Transaction
import GroundGraph.Retrieval.MethodLabels
import GroundGraph.Retrieval.PrivateView

/-! What stands behind the evidence that a query gathers: on each of the strategies, through
fusion, cut, deduplication and reranking, a piece of evidence is still one live chunk, or one
verified fact, of the stores that were asked, and one that the reader may see.
-/

set_option autoImplicit false

namespace GroundGraph.Retrieval

open GroundGraph.Knowledge GroundGraph.Neo4j

/-- A chunk of the current version of an active source, with the reader among its principals. -/
structure ReadableChunk (store : ChunkStore) (rd : Reader) (r : ChunkRow) : Prop where
  stored : store.chunks.get? r.chunkId = some r
  active : r.isActive = true
  current : r.currentVersionId = some r.versionId
  readable : rd.readsChunk r = true

/-- The evidence has all its fields from the chunk, but for scores and labels. -/
structure ShowsChunk (r : ChunkRow) (ev : Evidence) : Prop where
  chunkId : ev.chunkId = some r.chunkId
  sourceId : ev.sourceId = r.sourceId
  documentId : ev.documentId = some r.documentId
  versionId : ev.versionId = some r.versionId
  content : ev.content = r.content
  allowedPrincipals : ev.allowedPrincipals = r.allowedPrincipals

/-- The evidence is about the fact with its id, and the facts on its path can be seen as well. -/
structure ShowsFact (g : Graph) (rd : Reader) (f : KnowledgeFact) (ev : Evidence) : Prop where
  stored : g.facts.get? ev.evidenceId = some f
  visible : Visible rd.tenantId rd.principal none f
  path : ∀ id ∈ ev.graphPathFactIds, Shown g rd.tenantId rd.principal none id
  versionId : ev.versionId = none
  structuredRecordId : ev.structuredRecordId = none
  content : ∃ before after, ev.content = before ++ ' ' :: (f.predicate.toList ++ ' ' :: after)
  allowedPrincipals : ev.allowedPrincipals = f.allowedPrincipals

inductive Backed (store : ChunkStore) (g : Graph) (rd : Reader) (ev : Evidence) : Prop where
  | chunk (r : ChunkRow) (readable : ReadableChunk store rd r) (shows : ShowsChunk r ev)
  | fact (f : KnowledgeFact) (shows : ShowsFact g rd f ev)

def Retrieved (store : ChunkStore) (rd : Reader) (c : RetrievedChunk) : Prop :=
  ∃ r, ReadableChunk store rd r ∧ ∃ vectorScore keywordScore,
    c = toRetrieved vectorScore keywordScore r

section
variable {store : ChunkStore} {g : Graph} {rd : Reader} {req : HybridRequest}

theorem ReadableChunk.of_admits (h : req.AskedBy rd) {r : ChunkRow} (hr : r ∈ store.chunks.rows)
    (hadmits : (ofPrincipal req).admits r = true) : ReadableChunk store rd r := by
  have hreads := h.readable hadmits
  simp only [ChunkFilter.admits, Bool.and_eq_true, decide_eq_true_eq] at hadmits
  exact ⟨store.chunks.mem_rows_iff.mp hr, hadmits.1.1.1.1, hadmits.1.1.2, hreads⟩

theorem retrieved_of_vector (h : req.AskedBy rd) {distance : ChunkEmbedding → PyFloat}
    {order : RankOrder (ChunkEmbedding × ChunkRow)} {topK : Nat} {indexVersionId : Option UUID}
    {c : RetrievedChunk}
    (hc : c ∈ (searchWithContent store distance order topK (ofPrincipal req)
      indexVersionId).getD []) : Retrieved store rd c := by
  cases hfound : searchWithContent store distance order topK (ofPrincipal req) indexVersionId with
  | none =>
    rw [hfound] at hc
    cases hc
  | some found =>
    rw [hfound] at hc
    obtain ⟨r, hr, hadmits, score, rfl⟩ := searchWithContent_admitted hfound hc
    exact ⟨r, .of_admits h hr hadmits, _, _, rfl⟩

theorem retrieve_retrieved (h : req.AskedBy rd) {cfg : HybridRetrievalConfig}
    {backend : SearchBackend} {vectorResults keywordResults : List RetrievedChunk}
    (hretrieve : (cfg.over backend store g).retrieve req = .ok (vectorResults, keywordResults)) :
    ∀ c ∈ vectorResults ++ keywordResults, Retrieved store rd c := by
  unfold HybridRetrievalConfig.retrieve at hretrieve
  split at hretrieve
  · cases hretrieve
  · cases hindex : (cfg.over backend store g).activeIndex req with
    | error e =>
      rw [hindex] at hretrieve
      cases hretrieve
    | ok indexVersionId =>
      rw [hindex] at hretrieve
      obtain ⟨rfl, rfl⟩ := Prod.mk.inj (Except.ok.inj hretrieve)
      intro c hc
      rcases List.mem_append.mp hc with hc | hc
      · exact retrieved_of_vector h hc
      · obtain ⟨r, hr, hadmits, score, rfl⟩ := keywordSearch_admitted hc
        exact ⟨r, .of_admits h hr hadmits, _, _, rfl⟩

theorem backed_of_graph {q : Search} (hq : q.RunsFor rd.tenantId rd.principal)
    (hvalidAt : q.validAt = none) {sc : Scoring} {fetches : Nat → Fetches}
    {seedEntities : List CanonicalEntity} {evidence : List Evidence}
    (hevidence : retrieveEvidence sc g q fetches seedEntities = some evidence) {ev : Evidence}
    (hev : ev ∈ evidence) : ∃ f, ShowsFact g rd f ev := by
  obtain ⟨k, r, hfirst, rfl⟩ := (mem_retrieveEvidence hevidence).mp hev
  have hsound := allEntries_sound hq fetches seedEntities r (firstEntry_some hfirst).1
  rw [hvalidAt] at hsound
  exact ⟨r.fact, hsound.stored, hsound.visible, hsound.path, rfl, rfl, ⟨_, _, rfl⟩, rfl⟩

variable {vectorResults keywordResults : List RetrievedChunk}

theorem chunk_of_mem_firstOccurrences {o : Occurrence}
    (ho : o ∈ firstOccurrences vectorResults keywordResults) :
    o.chunk ∈ vectorResults ++ keywordResults := by
  rw [← occurrences_map_chunk]
  exact List.mem_map_of_mem (FirstPerKey.mem_imp ho).1

theorem showsChunk_fused {o : Occurrence} {r : ChunkRow} {vectorScore keywordScore : Option PyFloat}
    (ho : o.chunk = toRetrieved vectorScore keywordScore r) (k : Nat) (evidenceId : UUID) :
    ShowsChunk r ((fusedResult vectorResults keywordResults k o).toEvidence evidenceId) := by
  have hframe : ∀ {β : Type} (g : FusionResult → β), (∀ o e, g ((fusionTally k).add o e) = g e) →
      g (fusedResult vectorResults keywordResults k o) = g ((fusionTally k).start o) :=
    fun g hg => fusedResult_frame hg o
  have hid : o.id = r.chunkId := congrArg RetrievedChunk.chunkId ho
  refine ⟨?_, ?_, ?_, ?_, ?_, ?_⟩
  · exact congrArg some ((fusedResult_chunkId o).trans hid)
  · exact (fusedResult_sourceId o).trans (congrArg RetrievedChunk.sourceId ho)
  · exact (hframe FusionResult.documentId fun _ _ => rfl).trans
      (congrArg RetrievedChunk.documentId ho)
  · exact (hframe FusionResult.versionId fun _ _ => rfl).trans
      (congrArg RetrievedChunk.versionId ho)
  · exact (hframe FusionResult.content fun _ _ => rfl).trans (congrArg RetrievedChunk.content ho)
  · exact (hframe FusionResult.allowedPrincipals fun _ _ => rfl).trans
      (congrArg RetrievedChunk.allowedPrincipals ho)

theorem backed_fused (hall : ∀ c ∈ vectorResults ++ keywordResults, Retrieved store rd c) {k : Nat}
    {r : FusionResult} (hr : r ∈ reciprocalRankFusion vectorResults keywordResults k)
    (evidenceId : UUID) : Backed store g rd (r.toEvidence evidenceId) := by
  obtain ⟨o, ho, rfl⟩ := mem_reciprocalRankFusion.mp hr
  obtain ⟨row, hreadable, _, _, hchunk⟩ := hall _ (chunk_of_mem_firstOccurrences ho)
  exact .chunk row hreadable (showsChunk_fused hchunk k evidenceId)

theorem toEvidence_ok {e : HybridEntry} {item : Evidence} (h : e.toEvidence = .ok item) :
    ∃ bounds, item =
      { evidenceId := e.evidenceId, sourceId := e.sourceId, documentId := e.documentId
        chunkId := e.chunkId, versionId := e.versionId, content := e.content
        retrievalMethod := determineRetrievalMethod e, vectorScore := e.vectorScore
        graphPathFactIds := e.graphPathFactIds, validFrom := e.validFrom, validTo := e.validTo
        allowedPrincipals := e.allowedPrincipals, temporalBounds := bounds } := by
  unfold HybridEntry.toEvidence at h
  split at h
  · exact ⟨_, (Except.ok.inj h).symm⟩
  · cases h

theorem exists_entry_of_mem {uuid4 : Nat → UUID} {order : SetOrder} {graphEvidence out : List Evidence}
    (h : hybridRrfFusion uuid4 order vectorResults keywordResults graphEvidence = .ok out)
    {item : Evidence} (hitem : item ∈ out) :
    ∃ t e, Merges order (chunkTable uuid4 vectorResults keywordResults) (ranked graphEvidence) t ∧
      t.get? e.key = some e ∧ e.toEvidence = .ok item := by
  have hspec := @scoreTable_spec uuid4 order vectorResults keywordResults graphEvidence
  cases hscores : scoreTable uuid4 order vectorResults keywordResults graphEvidence with
  | error err =>
    rw [hybridRrfFusion_of_error hscores] at h
    cases h
  | ok t =>
    rw [hscores] at hspec
    rw [hybridRrfFusion_of_ok hscores] at h
    obtain ⟨e, he, hbuilt⟩ := Correspondence.exists_left_of_mem (Correspondence.of_mapM h) hitem
    exact ⟨t, e, hspec.2, mem_kept_get? he, hbuilt⟩

theorem showsChunk_entry {o : Occurrence} {r : ChunkRow} {vectorScore keywordScore : Option PyFloat}
    (ho : o.chunk = toRetrieved vectorScore keywordScore r) {evidenceId : UUID} {item : Evidence}
    (hitem : (hybridEntry vectorResults keywordResults evidenceId o).toEvidence = .ok item) :
    ShowsChunk r item := by
  have hframe : ∀ {β : Type} (g : HybridEntry → β),
      (∀ (e : HybridEntry) score, g { e with rrfScore := score } = g e) →
        g (hybridEntry vectorResults keywordResults evidenceId o) =
          g ((hybridTally evidenceId).start o) :=
    fun g hg => hybridEntry_frame hg evidenceId o
  obtain ⟨_, rfl⟩ := toEvidence_ok hitem
  refine ⟨?_, ?_, ?_, ?_, ?_, ?_⟩
  · exact (hframe HybridEntry.chunkId fun _ _ => rfl).trans
      (congrArg (fun c => some (RetrievedChunk.chunkId c)) ho)
  · exact (hframe HybridEntry.sourceId fun _ _ => rfl).trans (congrArg RetrievedChunk.sourceId ho)
  · exact (hframe HybridEntry.documentId fun _ _ => rfl).trans
      (congrArg RetrievedChunk.documentId ho)
  · exact (hframe HybridEntry.versionId fun _ _ => rfl).trans
      (congrArg RetrievedChunk.versionId ho)
  · exact (hframe HybridEntry.content fun _ _ => rfl).trans (congrArg RetrievedChunk.content ho)
  · exact (hframe HybridEntry.allowedPrincipals fun _ _ => rfl).trans
      (congrArg RetrievedChunk.allowedPrincipals ho)

theorem ShowsFact.graphEntry {f : KnowledgeFact} {ev item : Evidence} (h : ShowsFact g rd f ev)
    {rank : Nat} (hitem : (graphEntry ev rank).toEvidence = .ok item) : ShowsFact g rd f item := by
  obtain ⟨_, rfl⟩ := toEvidence_ok hitem
  exact ⟨h.stored, h.visible, h.path, rfl, rfl, h.content, h.allowedPrincipals⟩

theorem backed_hybrid {uuid4 : Nat → UUID} {order : SetOrder} {graphEvidence out : List Evidence}
    (hout : hybridRrfFusion uuid4 order vectorResults keywordResults graphEvidence = .ok out)
    (hall : ∀ c ∈ vectorResults ++ keywordResults, Retrieved store rd c)
    (hgraph : ∀ ev ∈ graphEvidence, ∃ f, ShowsFact g rd f ev)
    (hids : (graphEvidence.map Evidence.evidenceId).Nodup) {item : Evidence} (hitem : item ∈ out) :
    Backed store g rd item := by
  obtain ⟨t, e, hmerges, hget, hbuilt⟩ := exists_entry_of_mem hout hitem
  cases hchunk : (chunkTable uuid4 vectorResults keywordResults).get? e.key with
  | some e' =>
    rw [hmerges, hchunk, Option.some_or] at hget
    obtain rfl := Option.some.inj hget
    obtain ⟨o, ho, heq⟩ := exists_of_get?_chunkTable hchunk
    obtain ⟨row, hreadable, _, _, hrow⟩ := hall _ (chunk_of_mem_firstOccurrences ho)
    rw [← heq] at hbuilt
    exact .chunk row hreadable (showsChunk_entry hrow hbuilt)
  | none =>
    obtain ⟨ev, hev, rank, rfl⟩ := hmerges.exists_graphEntry hids hget hchunk
    obtain ⟨f, hf⟩ := hgraph ev hev
    exact .fact f (hf.graphEntry hbuilt)

theorem graphEvidence_shows (h : req.AskedBy rd) {cfg : HybridRetrievalConfig}
    {backend : SearchBackend} {evidence : List Evidence}
    (hevidence : (cfg.over backend store g).graphEvidence req
      ((cfg.over backend store g).planOf req) = .ok evidence) :
    ∀ ev ∈ evidence, ∃ f, ShowsFact g rd f ev := by
  intro ev hev
  rcases HybridRetrievalConfig.graphEvidence_ok hevidence with hreturned | ⟨-, rfl⟩
  · exact backed_of_graph (h.runsFor _) rfl hreturned hev
  · cases hev

theorem selectEvidence_backed (h : req.AskedBy rd) {cfg : HybridRetrievalConfig}
    {backend : SearchBackend} (hall : ∀ c ∈ vectorResults ++ keywordResults, Retrieved store rd c)
    {out : List Evidence}
    (hout : (cfg.over backend store g).selectEvidence req ((cfg.over backend store g).planOf req)
      vectorResults keywordResults = .ok out) : ∀ ev ∈ out, Backed store g rd ev := by
  intro ev hev
  unfold HybridRetrievalConfig.selectEvidence at hout
  split at hout
  · obtain ⟨graphEvidence, hevidence, hrest⟩ := Except.bind_ok_iff.mp hout
    split at hrest
    · rename_i fused hfused
      obtain rfl := Except.ok.inj hrest
      exact backed_hybrid hfused hall (graphEvidence_shows h hevidence)
        (graphEvidence_nodup hevidence) (mem_sliceTo hev)
    · cases hrest
  · obtain ⟨graphEvidence, hevidence, hrest⟩ := Except.bind_ok_iff.mp hout
    obtain rfl := Except.ok.inj hrest
    obtain ⟨f, hf⟩ := graphEvidence_shows h hevidence ev (mem_sliceTo hev)
    exact .fact f hf
  · obtain rfl := Except.ok.inj hout
    obtain ⟨i, hi, rfl⟩ := List.mem_mapIdx.mp hev
    exact backed_fused hall (mem_sliceTo (List.getElem_mem hi)) _

theorem Backed.withRerankScore {ev : Evidence} (h : Backed store g rd ev) (score : PyFloat) :
    Backed store g rd { ev with rerankScore := some score } := by
  cases h with
  | chunk r hreadable hshows =>
    exact .chunk r hreadable ⟨hshows.chunkId, hshows.sourceId, hshows.documentId, hshows.versionId,
      hshows.content, hshows.allowedPrincipals⟩
  | fact f hshows =>
    exact .fact f ⟨hshows.stored, hshows.visible, hshows.path, hshows.versionId,
      hshows.structuredRecordId, hshows.content, hshows.allowedPrincipals⟩

theorem rerank_backed {cfg : HybridRetrievalConfig} {evidence : List Evidence} {query : List Char}
    (h : ∀ ev ∈ evidence, Backed store g rd ev) :
    ∀ ev ∈ cfg.rerank evidence query, Backed store g rd ev := by
  intro ev hev
  unfold HybridRetrievalConfig.rerank at hev
  split at hev
  · exact h ev hev
  · obtain ⟨scored, hscored, rfl⟩ := List.mem_map.mp hev
    obtain ⟨x, hx, rfl⟩ := List.mem_map.mp ((List.mem_insertionSort _).mp hscored)
    exact (h x hx).withRerankScore _

theorem gatherEvidence_backed (h : req.AskedBy rd) {cfg : HybridRetrievalConfig}
    {backend : SearchBackend} {evidence : List Evidence}
    (hgather : (cfg.over backend store g).gatherEvidence req = .ok evidence) :
    ∀ ev ∈ evidence, Backed store g rd ev := by
  unfold HybridRetrievalConfig.gatherEvidence at hgather
  cases hretrieve : (cfg.over backend store g).retrieve req with
  | error e =>
    rw [hretrieve] at hgather
    cases hgather
  | ok results =>
    obtain ⟨vectorResults, keywordResults⟩ := results
    rw [hretrieve] at hgather
    cases hselect : (cfg.over backend store g).selectEvidence req
        ((cfg.over backend store g).planOf req) vectorResults keywordResults with
    | error e =>
      simp only [bind, Except.bind, hselect] at hgather
      cases hgather
    | ok selected =>
      simp only [bind, Except.bind, hselect] at hgather
      obtain rfl := Except.ok.inj hgather
      have hbacked := selectEvidence_backed h (retrieve_retrieved h hretrieve) hselect
      exact rerank_backed fun ev hev => hbacked ev (FirstPerKey.mem_imp hev).1

end

end GroundGraph.Retrieval

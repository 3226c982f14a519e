import GroundGraph.Ingestion.Register
import GroundGraph.Retrieval.Exposure

/-! From the files to the searches. Whatever calls, deletions and deactivations interleave, the two
searches see the chunks of what was last written to each file, and see all of them.
-/

set_option autoImplicit false

namespace GroundGraph.Retrieval

open GroundGraph.Ingestion AtomicRegister
open Transaction (noFaults)

/-- The found chunk was cut from the content that the register of its file holds. -/
def FromRegister (svc : IngestionService) (s : IngestState)
    (contents : FilePlace → Option (List Char)) (c : RetrievedChunk) : Prop :=
  ∃ p checksum, contents p = some checksum ∧ c.sourceId = p.sourceId ∧
    ∃ acq draws d v content metadata, acq.key = p.key checksum ∧
      (acq, ⟨d, v, true, acq.source.tenantId⟩) ∈ s.answers ∧
      parse svc acq = .ok (content, metadata) ∧
      ∃ k ∈ documentChunks svc acq draws d v content, c.chunkId = k.chunkId ∧ c.content = k.content

structure ChunkFilter.Reads (q : ChunkFilter) (source : SourceRow) : Prop where
  tenantId : source.tenantId = q.tenantId
  principals : principalsCondition q.allowedPrincipals source.allowedPrincipals = true
  sources : sourceCondition q.sourceIds source.sourceId = true

structure Searches (svc : IngestionService) (s : IngestState)
    (contents : FilePlace → Option (List Char)) : Prop where
  vector : ∀ embeddings activeIndexes distance order topK q indexVersionId found,
    searchWithContent (chunkStore s.db embeddings activeIndexes) distance order topK q
        indexVersionId = some found →
      ∀ c ∈ found, FromRegister svc s contents c
  keyword : ∀ embeddings activeIndexes isMatch rank order query topK q,
    ∀ c ∈ keywordSearch (chunkStore s.db embeddings activeIndexes) isMatch rank order query topK q,
      FromRegister svc s contents c
  /-- Nothing that a register holds is missing where the limit is not reached. -/
  complete : ∀ embeddings activeIndexes isMatch rank order query topK q p,
    ∀ k ∈ s.db.shown p, PyText.strip query ≠ [] →
      ((chunkStore s.db embeddings activeIndexes).chunks.rows.filter
        (keywordAdmits q isMatch)).length ≤ topK →
      isMatch k.content = true →
      (∀ source, s.db.sources.get? p.sourceId = some source → q.Reads source) →
        ∃ c ∈ keywordSearch (chunkStore s.db embeddings activeIndexes) isMatch rank order query topK
          q, c.chunkId = k.chunkId

section
variable {svc : IngestionService} {s : IngestState} {contents : FilePlace → Option (List Char)}
  {embeddings : KeyedTable fun e : ChunkEmbedding => (e.chunkId, e.indexVersionId)}
  {activeIndexes : List UUID} {q : ChunkFilter} {r : ChunkRow}

theorem shown_of_admitted (hr : r ∈ (chunkStore s.db embeddings activeIndexes).chunks.rows)
    (hadmits : q.admits r = true) : ∃ p, r.sourceId = p.sourceId ∧
      ∃ k ∈ s.db.shown p, r.chunkId = k.chunkId ∧ r.content = k.content := by
  obtain ⟨k, hk, hjoin⟩ := List.mem_filterMap.mp hr
  obtain ⟨-, hlive⟩ := joinedRow_some hjoin
  obtain ⟨d, hd, hjoin⟩ := Option.bind_eq_some_iff.mp hjoin
  obtain ⟨source, hsource, rfl⟩ := Option.map_eq_some_iff.mp hjoin
  obtain ⟨hdoc, hid⟩ := s.db.documents.get?_some_iff.mp hd
  simp only [ChunkFilter.admits, Bool.and_eq_true, decide_eq_true_eq] at hadmits
  have hshown : ShownAt s.db d.filePlace k :=
    ⟨hlive hadmits.1.1.1.1 hadmits.1.1.2, d, hdoc, hid, rfl⟩
  exact ⟨d.filePlace, rfl, k, mem_shown.mpr ⟨hk, hshown⟩, rfl, rfl⟩

theorem admitted_of_shown
    (embeddings : KeyedTable fun e : ChunkEmbedding => (e.chunkId, e.indexVersionId))
    (activeIndexes : List UUID) {p : FilePlace} {k : Chunk} (hk : k ∈ s.db.shown p)
    (hreads : ∀ source, s.db.sources.get? p.sourceId = some source → q.Reads source) :
    ∃ r ∈ (chunkStore s.db embeddings activeIndexes).chunks.rows,
      q.admits r = true ∧ r.chunkId = k.chunkId ∧ r.content = k.content := by
  obtain ⟨hmem, hlive, d, hd, hid, rfl⟩ := mem_shown.mp hk
  obtain ⟨hpointer, source, hsource, hsid, hactive⟩ := (live_iff hd hid).mp hlive
  have hget : s.db.sources.get? d.sourceId = some source :=
    s.db.sources.get?_some_iff.mpr ⟨hsource, hsid⟩
  have hdoc : s.db.documents.get? k.documentId = some d :=
    s.db.documents.get?_some_iff.mpr ⟨hd, hid⟩
  obtain ⟨htenant, hprincipals, hsources⟩ := hreads source hget
  rw [hsid] at hsources
  refine ⟨_, List.mem_filterMap.mpr ⟨k, hmem, by rw [joinedRow, hdoc, Option.bind_some, hget]; rfl⟩,
    ?_, rfl, rfl⟩
  simp [ChunkFilter.admits, hactive, htenant, hpointer, hprincipals, hsources]

theorem fromRegister_of_shown (h : Shows svc s contents) {c : RetrievedChunk} {p : FilePlace}
    {k : Chunk} (hk : k ∈ s.db.shown p) (hsource : c.sourceId = p.sourceId)
    (hid : c.chunkId = k.chunkId) (hcontent : c.content = k.content) :
    FromRegister svc s contents c := by
  obtain ⟨-, hlive, d, hd, hdid, hp⟩ := mem_shown.mp hk
  have hactive : SourceActive s.db p.sourceId := by
    rw [← hp]
    exact ((live_iff hd hdid).mp hlive).2
  cases hholds : contents p with
  | none =>
    rw [h.empty p hholds] at hk
    cases hk
  | some checksum =>
    obtain ⟨acq, draws, d', v, content, metadata, hkey, hanswered, hparse, hshown⟩ :=
      h.held p checksum hholds hactive
    rw [hshown] at hk
    exact ⟨p, checksum, hholds, hsource, acq, draws, d', v, content, metadata, hkey, hanswered,
      hparse, k, hk, hid, hcontent⟩

theorem searches_of_shows (h : Shows svc s contents) : Searches svc s contents where
  vector := by
    intro embeddings activeIndexes distance order topK q indexVersionId found hfound c hc
    obtain ⟨r, hr, hadmits, score, rfl⟩ := searchWithContent_admitted hfound hc
    obtain ⟨p, hsource, k, hk, hid, hcontent⟩ := shown_of_admitted hr hadmits
    exact fromRegister_of_shown h hk hsource hid hcontent
  keyword := by
    intro embeddings activeIndexes isMatch rank order query topK q c hc
    obtain ⟨r, hr, hadmits, score, rfl⟩ := keywordSearch_admitted hc
    obtain ⟨p, hsource, k, hk, hid, hcontent⟩ := shown_of_admitted hr hadmits
    exact fromRegister_of_shown h hk hsource hid hcontent
  complete := by
    intro embeddings activeIndexes isMatch rank order query topK q p k hk hquery hlimit hmatch
      hreads
    obtain ⟨r, hr, hadmits, hid, hcontent⟩ := admitted_of_shown embeddings activeIndexes hk hreads
    have hstored := (chunkStore s.db embeddings activeIndexes).chunks.mem_rows_iff.mp hr
    rw [← hid]
    exact (keywordSearch_returns_iff hquery hlimit hstored (by rwa [hcontent])).mpr hadmits

end

/-- However ingestions, deletions and deactivations interleave, the document store does what
registers do that are written at one moment each, and what the searches see of the files of the
active sources is what the registers hold. -/
theorem searches_registers (svc : IngestionService) (sources : KeyedTable SourceRow.sourceId)
    {as : List IngestAction} {s : IngestState}
    (hrun : (ingestSystem svc sources).run (ingestSystem svc sources).start as = some s) :
    ∃ r, registers.run registers.start ((ingestSystem svc sources).trace (registerEvents svc)
        (ingestSystem svc sources).start as) = some r ∧
      Follows s r ∧ Shows svc s r.contents ∧ Searches svc s r.contents := by
  obtain ⟨r, hr, hfollows, hshows⟩ := exists_registers hrun
  exact ⟨r, hr, hfollows, hshows, searches_of_shows hshows⟩

/-- Two calls for one file; between their writes the document is deleted. -/
def deletedBetween : List IngestAction :=
  [.begin sampleCall sampleFiles noFaults, .begin sampleCall sampleFiles noFaults,
    .lookUp 0 noFaults, .lookUp 1 noFaults, .write 0 sampleDraws noFaults,
    .deleteDocument 2 noFaults,
    .write 0 { sampleDraws with documentId := 22, versionId := 23 } noFaults]

def deletedBetweenEvents : List (Event FilePlace (List Char)) :=
  let p : FilePlace := ⟨1, "/srv/docs/a.md"⟩
  let checksum := sampleSha256 [35, 32, 65, 10]
  [.call p checksum, .call p checksum, .effect 0, .answer 0, .remove p, .effect 0, .answer 0]

theorem searches_registers_deletedBetween :
    ∃ s, (ingestSystem sampleService sampleSources).run
        (ingestSystem sampleService sampleSources).start deletedBetween = some s ∧
      (s.answers.map fun a => (a.2.versionId, a.2.createdNewVersion)) = [(3, true), (3, false)] ∧
      ∃ r, registers.run registers.start deletedBetweenEvents = some r ∧
        Follows s r ∧ Shows sampleService s r.contents ∧ Searches sampleService s r.contents := by
  have hview : ((ingestSystem sampleService sampleSources).run
      (ingestSystem sampleService sampleSources).start deletedBetween).map
        (fun s => s.answers.map fun a => (a.2.versionId, a.2.createdNewVersion)) =
          some [(3, true), (3, false)] := by
    decide +kernel
  have htrace : (ingestSystem sampleService sampleSources).trace (registerEvents sampleService)
      (ingestSystem sampleService sampleSources).start deletedBetween = deletedBetweenEvents := by
    decide +kernel
  obtain ⟨s, hs, hanswers⟩ := Option.map_eq_some_iff.mp hview
  obtain ⟨r, hr, hrest⟩ := searches_registers sampleService sampleSources hs
  rw [htrace] at hr
  exact ⟨s, hs, hanswers, r, hr, hrest⟩

end GroundGraph.Retrieval

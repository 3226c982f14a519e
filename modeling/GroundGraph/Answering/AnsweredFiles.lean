import GroundGraph.Answering.Provenance
import GroundGraph.Ingestion.StoredFiles
import GroundGraph.Retrieval.RemovedContent

/-! From the answer of a workflow back to the files. Ingestion and the graph go on while the
workflow retries; each citation leads to a chunk that was cut from the file of a finished call, or
to a fact that was extracted from such a chunk.
-/

set_option autoImplicit false

namespace GroundGraph.Answering

open GroundGraph.Ingestion GroundGraph.Knowledge GroundGraph.Neo4j GroundGraph.Retrieval
open Transaction (noFaults)

/-- The execution searches the database and the graph of this state. -/
structure Execution.Sees (x : Execution) (s : ContentState) : Prop where
  store : ∃ embeddings activeIndexes, x.store = chunkStore s.db embeddings activeIndexes
  graph : x.graph = s.graph

/-- The call that read the file of the chunk, with what the object store has of it. -/
structure FileOf (svc : IngestionService) (sources : KeyedTable SourceRow.sourceId)
    (s : ContentState) (k : Chunk) (acq : Acquired) : Prop where
  chunk : k ∈ s.db.chunks.rows
  cut : CutFrom svc s.ingest acq k
  filed : Filed svc sources s.ingest.world.objects acq

/-- The locator names a live chunk, and its file is of a source that the reader may read; or the
citation is of a fact that the reader may see, with a chunk for its evidence. -/
inductive FromFile (svc : IngestionService) (sources : KeyedTable SourceRow.sourceId)
    (s : ContentState) (rd : Reader) (c : Citation) : Prop where
  | chunk (k : Chunk) (acq : Acquired) (file : FileOf svc sources s k acq) (live : Live s.db k)
      (locator : c.locator = strUuid k.chunkId ++ '@' :: strUuid k.versionId)
      (tenantId : acq.source.tenantId = rd.tenantId)
      (principal : rd.principal ∈ acq.source.allowedPrincipals)
      (allowedPrincipals : c.allowedPrincipals = k.allowedPrincipals)
  | fact (f : KnowledgeFact) (k : Chunk) (acq : Acquired) (file : FileOf svc sources s k acq)
      (stored : s.graph.facts.get? c.evidenceId = some f)
      (visible : Visible rd.tenantId rd.principal none f) (evidenceIds : f.evidenceIds = [k.chunkId])
      (allowedPrincipals : c.allowedPrincipals = f.allowedPrincipals)

section
variable {svc : IngestionService} {co : Conversions} {sources : KeyedTable SourceRow.sourceId}
  {chunks : List UUID} {s : ContentState} {rd : Reader}

theorem joinedRow_source {k : Chunk} {acq : Acquired} {r : ChunkRow}
    (hfiles : FilesInv svc sources s.ingest) (hfile : FileOf svc sources s k acq)
    (hjoin : joinedRow s.db k = some r) :
    r.tenantId = acq.source.tenantId ∧ r.allowedPrincipals = acq.source.allowedPrincipals := by
  obtain ⟨d, hd, hjoin⟩ := Option.bind_eq_some_iff.mp hjoin
  obtain ⟨row, hrow, rfl⟩ := Option.map_eq_some_iff.mp hjoin
  obtain ⟨hdoc, hdid⟩ := s.db.documents.get?_some_iff.mp hd
  obtain ⟨hsource, hsid⟩ := s.db.sources.get?_some_iff.mp hrow
  have hplace : d.place = acq.key.place k.documentId :=
    place_eq_of_documentId (mem_places_iff.mpr ⟨d, hdoc, rfl⟩) hfile.cut.stored.1 hdid
  have hcall : d.sourceId = acq.call.sourceId := congrArg Place.sourceId hplace
  have hregistered : row.registration ∈ registrations sources := by
    rw [← hfiles.registered]
    exact List.mem_map_of_mem hsource
  have hsame : row.registration = acq.source.registration :=
    registration_eq hregistered hfile.filed.registered
      (show row.sourceId = acq.source.sourceId by rw [hfile.filed.sourceId, hsid, hcall])
  exact ⟨congrArg Registration.tenantId hsame, congrArg Registration.allowedPrincipals hsame⟩

theorem contentInv_reachable (h : (contentSystem svc co sources chunks).Reachable s) :
    ContentInv svc s ∧ FilesInv svc sources s.ingest :=
  (contentSystem svc co sources chunks).reachable_invariant
    (I := fun s => ContentInv svc s ∧ FilesInv svc sources s.ingest)
    ⟨contentInv_start svc co sources chunks, filesInv_start svc sources⟩
    (fun s a t hs hstep => by
      refine ⟨hs.1.step hstep, ?_⟩
      cases a with
      | ingest a =>
        obtain ⟨j, hj, rfl⟩ := Option.map_eq_some_iff.mp hstep
        exact hs.2.step hs.1.ingest a hj
      | graph a =>
        have hstep : contentStep svc co s (.graph a) = some t := hstep
        simp only [contentStep] at hstep
        split at hstep
        · obtain ⟨g, -, rfl⟩ := Option.map_eq_some_iff.mp hstep
          exact hs.2
        · cases hstep) h

theorem exists_fileOf (h : (contentSystem svc co sources chunks).Reachable s) {k : Chunk}
    (hk : k ∈ s.db.chunks.rows) : ∃ acq, FileOf svc sources s k acq := by
  obtain ⟨hinv, hfiles⟩ := contentInv_reachable h
  obtain ⟨acq, hcut⟩ := chunk_cutFrom hinv.ingest hk
  exact ⟨acq, hk, hcut, hfiles.answers _ hcut.answered⟩

theorem LeadsTo.fromFile {c : Citation} (h : (contentSystem svc co sources chunks).Reachable s)
    {embeddings : KeyedTable fun e : ChunkEmbedding => (e.chunkId, e.indexVersionId)}
    {activeIndexes : List UUID}
    (hleads : LeadsTo (chunkStore s.db embeddings activeIndexes) s.graph rd c) :
    FromFile svc sources s rd c := by
  obtain ⟨hinv, hfiles⟩ := contentInv_reachable h
  cases hleads with
  | chunk r hreadable hlocator hprincipals =>
    obtain ⟨hrow, -⟩ := (chunkStore s.db embeddings activeIndexes).chunks.get?_some_iff.mp
      hreadable.stored
    obtain ⟨k, hk, hjoin⟩ := List.mem_filterMap.mp hrow
    obtain ⟨acq, hfile⟩ := exists_fileOf h hk
    obtain ⟨htenant, hallowed⟩ := joinedRow_source hfiles hfile hjoin
    obtain ⟨hid, hlive⟩ := joinedRow_some hjoin
    have hversion : r.versionId = k.versionId := by
      obtain ⟨d, -, hjoin⟩ := Option.bind_eq_some_iff.mp hjoin
      obtain ⟨row, -, rfl⟩ := Option.map_eq_some_iff.mp hjoin
      rfl
    have hreads := hreadable.readable
    simp only [Reader.readsChunk, Bool.and_eq_true, decide_eq_true_eq] at hreads
    refine .chunk k acq hfile (hlive hreadable.active hreadable.current) ?_ ?_ ?_ ?_
    · rw [hlocator, hid, hversion]
    · rw [← htenant]
      exact hreads.1
    · rw [← hallowed]
      exact hreads.2
    · rw [hprincipals, hallowed, hfile.cut.allowedPrincipals]
  | fact f hstored hvisible hlocator hprincipals =>
    obtain ⟨k, hk, hids⟩ := hinv.extracted f (s.graph.facts.get?_some_iff.mp hstored).1
    obtain ⟨acq, hfile⟩ := exists_fileOf h hk
    exact .fact f k acq hfile hstored hvisible hids hprincipals

end

theorem answer_from_files {svc : IngestionService} {co : Conversions}
    {sources : KeyedTable SourceRow.sourceId} {chunks : List UUID} {rd : Reader}
    {req : HybridRequest} (h : req.AskedBy rd) (executionRunId : UUID) (maxRetries : Nat)
    (executions : Nat → Execution) (states : Nat → ContentState)
    (hreach : ∀ i, (contentSystem svc co sources chunks).Reachable (states i))
    (hsees : ∀ i, (executions i).Sees (states i)) :
    let run := graphRun executionRunId maxRetries fun i => (executions i).outcome req
    (finalResponse run.state).status = .answered →
      ∀ c ∈ (finalResponse run.state).citations,
        FromFile svc sources (states (run.executions - 1)) rd c := by
  intro run hanswered c hc
  obtain ⟨evidence, hgather, hattested⟩ :=
    answered_attested req executionRunId maxRetries executions hanswered
  obtain ⟨ev, hcites⟩ := hattested.evidence c hc
  have hbacked := gatherEvidence_backed h hgather ev hcites.listed
  obtain ⟨⟨embeddings, activeIndexes, hstore⟩, hgraph⟩ := hsees (run.executions - 1)
  rw [hstore, hgraph] at hbacked
  exact (hcites.leadsTo hbacked).fromFile (hreach _)

def filingActions : List ContentAction :=
  [.ingest (.begin sampleCall sampleFiles noFaults), .ingest (.lookUp 0 noFaults),
    .ingest (.write 0 sampleDraws noFaults)]

theorem filing_runs : ((contentSystem sampleService plainConversions sampleSources []).run
    (contentSystem sampleService plainConversions sampleSources []).start
      filingActions).isSome = true := by
  decide +kernel

def filedState : ContentState :=
  ((contentSystem sampleService plainConversions sampleSources []).run
    (contentSystem sampleService plainConversions sampleSources []).start filingActions).get filing_runs

def filedExecution : Execution where
  cfg := plainService
  backend := anyMatch
  store := chunkStore filedState.db .empty []
  graph := filedState.graph
  llm := citingModel
  uuid4 := BitVec.ofNat 128
  text := fun _ => "no index".toList

def teamMember : Reader := ⟨"acme", "team", by decide⟩

def teamQuestion : HybridRequest :=
  { question := "is it?".toList, principal := "team", tenantId := "acme" }

theorem answer_from_files_team :
    let run := graphRun 1 0 fun _ => filedExecution.outcome teamQuestion
    (finalResponse run.state).citations.map Citation.evidenceId = [77] ∧
      ∀ c ∈ (finalResponse run.state).citations,
        FromFile sampleService sampleSources filedState teamMember c := by
  intro run
  have hreach : (contentSystem sampleService plainConversions sampleSources []).Reachable filedState :=
    ⟨filingActions, (Option.some_get filing_runs).symm⟩
  have hanswered : (finalResponse run.state).status = .answered := by decide +kernel
  exact ⟨by decide +kernel, answer_from_files ⟨rfl, rfl⟩ 1 0 (fun _ => filedExecution)
    (fun _ => filedState) (fun _ => hreach) (fun _ => ⟨⟨_, _, rfl⟩, rfl⟩) hanswered⟩

end GroundGraph.Answering

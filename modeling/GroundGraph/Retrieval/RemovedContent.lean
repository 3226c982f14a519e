import GroundGraph.Neo4j.Redelivery
import GroundGraph.Neo4j.Supersession
import GroundGraph.Retrieval.Exposure

/-! Ingestion and the graph together. Chunks come and go with the version, the document and the
source that they are of; the facts extracted from them have a status of their own, which no
step of the ingestion looks at.
-/

set_option autoImplicit false

namespace GroundGraph.Retrieval

open GroundGraph.Ingestion GroundGraph.Knowledge GroundGraph.Neo4j
open GroundGraph.Outbox (OutboxEventType)
open Transaction (noFaults)

structure ContentState where
  ingest : IngestState
  graph : Graph

def ContentState.db (s : ContentState) : DocumentDb := s.ingest.db

inductive ContentAction where
  | ingest (a : IngestAction)
  | graph (a : GraphAction)

instance (db : DocumentDb) (f : KnowledgeFact) : Decidable (ExtractedFrom db f) :=
  inferInstanceAs (Decidable (∃ c ∈ db.chunks.rows, f.evidenceIds = [c.chunkId]))

/-- Only facts that were extracted from a stored chunk are projected. -/
def fromExtraction (co : Conversions) (db : DocumentDb) : GraphAction → Bool
  | .project .factCandidate payload now =>
    match factOfPayload co payload now with
    | .ok f => decide (ExtractedFrom db f)
    | .error _ => true
  | _ => true

def contentStep (svc : IngestionService) (co : Conversions) (s : ContentState) :
    ContentAction → Option ContentState
  | .ingest a => (ingestStep svc s.ingest a).map fun ingest => { s with ingest := ingest }
  | .graph a =>
    if fromExtraction co s.db a then
      (graphStep co s.graph a).map fun graph => { s with graph := graph }
    else none

def contentSystem (svc : IngestionService) (co : Conversions)
    (sources : KeyedTable SourceRow.sourceId) (chunks : List UUID) :
    LabelledSystem ContentState ContentAction where
  start := ⟨(ingestSystem svc sources).start, .empty chunks⟩
  step := contentStep svc co

def LinkedBy (g : Graph) (f : KnowledgeFact) : Prop :=
  (g.hasEntity f.subjectId = true ∨ ∃ s, (s, f.factId) ∈ g.subjectOf) ∧
    ((g.hasEntity f.subjectId && g.hasEntity f.objectId) = true ∨ ∃ o, (f.factId, o) ∈ g.object)

/-- The step of the ingestion takes out no chunk that a fact which can be found is extracted
from, and a fact becomes findable only while its chunk is live. -/
def InAccord (svc : IngestionService) (co : Conversions) (s : ContentState) : ContentAction → Prop
  | .ingest a => ∀ f, Exposed s.graph f → ∀ c ∈ s.db.chunks.rows, c.chunkId ∈ f.evidenceIds →
      ¬ Retires svc s.ingest a c
  | .graph (.project .factCandidate payload now) =>
    ∀ f, factOfPayload co payload now = .ok f → f.status = .verified → LinkedBy s.graph f →
      ∀ k ∈ f.evidenceIds, LiveId s.db k
  | .graph (.project _ _ _) => True
  | .graph (.updateFactStatus factId status supersededBy) =>
    Accepted s.graph factId status supersededBy → status = "verified" →
      ∀ f, s.graph.facts.get? factId = some f → Linked s.graph factId →
        ∀ k ∈ f.evidenceIds, LiveId s.db k

structure ContentInv (svc : IngestionService) (s : ContentState) : Prop where
  ingest : IngestInv svc s.ingest
  bound : EdgesBound s.graph
  extracted : ∀ f ∈ s.graph.facts.rows, ExtractedFrom s.db f

variable {svc : IngestionService} {co : Conversions} {s t : ContentState}

theorem liveId_ingest_iff {a : IngestAction} {i j : IngestState} (hi : IngestInv svc i)
    (hstep : ingestStep svc i a = some j) {c : Chunk} (hc : c ∈ i.db.chunks.rows)
    (hlive : Live i.db c) : LiveId j.db c.chunkId ↔ ¬ Retires svc i a c := by
  rw [← ingestStep_live_iff hi hstep hlive]
  have hkept := j.db.chunks.mem_rows_iff.mp (ingestStep_keeps_chunk hi hstep hc)
  simp [LiveId, hkept]

theorem ingest_backed_iff {a : IngestAction} {i j : IngestState} {g : Graph} (hi : IngestInv svc i)
    (hstep : ingestStep svc i a = some j) (h : BackedByLive i.db g) :
    BackedByLive j.db g ↔ InAccord svc co ⟨i, g⟩ (.ingest a) := by
  constructor
  · intro hafter f hf c hc hk
    obtain ⟨c', hget, hlive⟩ := h f hf _ hk
    obtain rfl : c = c' := by
      rw [i.db.chunks.mem_rows_iff.mp hc] at hget
      exact Option.some.inj hget
    exact (liveId_ingest_iff hi hstep hc hlive).mp (hafter f hf _ hk)
  · intro haccord f hf k hk
    obtain ⟨c, hget, hlive⟩ := h f hf k hk
    obtain ⟨hc, rfl⟩ := i.db.chunks.get?_some_iff.mp hget
    exact (liveId_ingest_iff hi hstep hc hlive).mpr (haccord f hf c hc hk)

theorem backed_upsert_iff {db : DocumentDb} {g g' : Graph} {f : KnowledgeFact}
    (hfacts : g'.facts = g.facts.upsert f)
    (hlinked : ∀ id, id ≠ f.factId → (Linked g' id ↔ Linked g id)) (h : BackedByLive db g) :
    BackedByLive db g' ↔
      (f.status = .verified → Linked g' f.factId → ∀ k ∈ f.evidenceIds, LiveId db k) := by
  have hget : ∀ id, g'.facts.get? id = if id = f.factId then some f else g.facts.get? id :=
    fun id => by rw [hfacts, KeyedTable.get?_upsert]
  constructor
  · intro hafter hverified hlink
    exact hafter f ⟨by rw [hget, if_pos rfl], hverified, hlink⟩
  · rintro hnew x ⟨hstored, hverified, hlink⟩
    rw [hget] at hstored
    by_cases hid : x.factId = f.factId
    · rw [if_pos hid] at hstored
      obtain rfl := Option.some.inj hstored
      exact hnew hverified hlink
    · rw [if_neg hid] at hstored
      exact h x ⟨hstored, hverified, (hlinked _ hid).mp hlink⟩

theorem linked_createFact_iff {g : Graph} {f : KnowledgeFact} {id : UUID} :
    Linked ((createFact g f).apply g) id ↔ if id = f.factId then LinkedBy g f else Linked g id := by
  have hsubject : (∃ s, (s, id) ∈ ((createFact g f).apply g).subjectOf) ↔
      (id = f.factId ∧ g.hasEntity f.subjectId = true) ∨ ∃ s, (s, id) ∈ g.subjectOf := by
    simp only [createFact, GraphWrite.apply]
    by_cases hfound : g.hasEntity f.subjectId = true
    · simp [hfound, or_comm, exists_or]
    · simp [hfound]
  have hobject : (∃ o, (id, o) ∈ ((createFact g f).apply g).object) ↔
      (id = f.factId ∧ (g.hasEntity f.subjectId && g.hasEntity f.objectId) = true) ∨
        ∃ o, (id, o) ∈ g.object := by
    simp only [createFact, GraphWrite.apply]
    by_cases hfound : (g.hasEntity f.subjectId && g.hasEntity f.objectId) = true
    · simp [hfound, or_comm, exists_or]
    · simp [hfound]
  unfold Linked LinkedBy
  rw [hsubject, hobject]
  by_cases hid : id = f.factId
  · simp [hid]
  · simp [hid]

theorem createFact_backed_iff {db : DocumentDb} {g : Graph} {f : KnowledgeFact}
    (h : BackedByLive db g) : BackedByLive db ((createFact g f).apply g) ↔
      (f.status = .verified → LinkedBy g f → ∀ k ∈ f.evidenceIds, LiveId db k) := by
  rw [backed_upsert_iff rfl (fun id hne => ?_) h, linked_createFact_iff, if_pos rfl]
  rw [linked_createFact_iff, if_neg hne]

theorem update_backed_iff {db : DocumentDb} {g g' : Graph} {factId : UUID} {status : String}
    {supersededBy : Option UUID} (hupdate : updateFactStatus g factId status supersededBy = some g')
    (h : BackedByLive db g) : BackedByLive db g' ↔
      (status = "verified" → ∀ f, g.facts.get? factId = some f → Linked g factId →
        ∀ k ∈ f.evidenceIds, LiveId db k) := by
  obtain ⟨fact, a, updated, hfact, rfl, hupdated, hfacts, -, hsubject, hobject⟩ :=
    updateFactStatus_some hupdate
  obtain ⟨hid, hstatus⟩ := KnowledgeFact.withStatus?_some hupdated
  have hkey : updated.factId = factId := hid.trans (g.facts.get?_some_iff.mp hfact).2
  have hlinked : ∀ id, Linked g' id ↔ Linked g id := fun id => by
    unfold Linked
    rw [hsubject, hobject]
  have htext : updated.status = .verified ↔ a.text = "verified" := by
    rw [hstatus]
    cases a <;> simp [FactStatus.text]
  rw [backed_upsert_iff hfacts (fun id _ => hlinked id) h, htext, hlinked, hkey,
    KnowledgeFact.withStatus?_evidenceIds hupdated]
  simp [hfact]

theorem inAccord_project_iff {eventType : OutboxEventType} {payload : JsonObject} {now : Instant} :
    InAccord svc co s (.graph (.project eventType payload now)) ↔
      (eventType = .factCandidate → ∀ f, factOfPayload co payload now = .ok f →
        f.status = .verified → LinkedBy s.graph f → ∀ k ∈ f.evidenceIds, LiveId s.db k) := by
  cases eventType <;> simp [InAccord]

theorem graph_backed_iff {a : GraphAction} {i : IngestState} {g g' : Graph}
    (hstep : graphStep co g a = some g') (h : BackedByLive i.db g) :
    BackedByLive i.db g' ↔ InAccord svc co ⟨i, g⟩ (.graph a) := by
  cases a with
  | updateFactStatus factId status supersededBy =>
    simp only [InAccord, accepted_iff]
    obtain ⟨hupdate, rfl⟩ | hupdate := graphStep_update_cases hstep
    · simp [h, hupdate]
    · rw [update_backed_iff hupdate h]
      simp [hupdate, ContentState.db]
  | project eventType payload now =>
    obtain ⟨e, herror, rfl⟩ | ⟨write, hwrite, rfl⟩ := graphStep_project_cases hstep
    · refine iff_of_true h (inAccord_project_iff.mpr ?_)
      rintro rfl f hf
      exact absurd hf (projectEvent_fact_error herror f)
    · obtain ⟨rfl, -, hother⟩ | ⟨m, rfl, rfl⟩ | ⟨e, rfl, rfl, -⟩ | ⟨f, rfl, rfl, hf⟩ :=
        projectEvent_ok hwrite
      · refine iff_of_true h (inAccord_project_iff.mpr fun hfact => absurd hfact hother)
      · have hsame : BackedByLive i.db ((createMention g m).apply g) :=
          fun f hf => h f ⟨hf.stored, hf.verified, hf.linked⟩
        exact iff_of_true hsame trivial
      · have hsame : BackedByLive i.db ((createEntity e).apply g) :=
          fun f hf => h f ⟨hf.stored, hf.verified, hf.linked⟩
        exact iff_of_true hsame trivial
      · rw [createFact_backed_iff h]
        simp [InAccord, hf, ContentState.db]

theorem ExtractedFrom.mono {db db' : DocumentDb} {f : KnowledgeFact}
    (h : ExtractedFrom db f) (hkeep : ∀ c ∈ db.chunks.rows, c ∈ db'.chunks.rows) :
    ExtractedFrom db' f := by
  obtain ⟨c, hc, hids⟩ := h
  exact ⟨c, hkeep c hc, hids⟩

theorem extracted_graphStep {a : GraphAction} {db : DocumentDb} {g g' : Graph}
    (h : ∀ f ∈ g.facts.rows, ExtractedFrom db f) (hfrom : fromExtraction co db a = true)
    (hstep : graphStep co g a = some g') : ∀ f ∈ g'.facts.rows, ExtractedFrom db f := by
  cases a with
  | updateFactStatus factId status supersededBy =>
    obtain ⟨-, rfl⟩ | hupdate := graphStep_update_cases hstep
    · exact h
    · obtain ⟨fact, a, updated, hfact, -, hupdated, hfacts, -⟩ := updateFactStatus_some hupdate
      intro f hf
      rw [hfacts] at hf
      rcases KeyedTable.mem_upsert hf with hf | rfl
      · exact h f hf
      · have hold := h fact (g.facts.get?_some_iff.mp hfact).1
        unfold ExtractedFrom
        rw [KnowledgeFact.withStatus?_evidenceIds hupdated]
        exact hold
  | project eventType payload now =>
    obtain ⟨e, -, rfl⟩ | ⟨write, hwrite, rfl⟩ := graphStep_project_cases hstep
    · exact h
    · obtain ⟨rfl, -⟩ | ⟨m, rfl, -⟩ | ⟨e, rfl, -⟩ | ⟨f, rfl, rfl, hf⟩ := projectEvent_ok hwrite
      · exact h
      · exact h
      · exact h
      · intro x hx
        rcases KeyedTable.mem_upsert hx with hx | rfl
        · exact h x hx
        · simp only [fromExtraction, hf, decide_eq_true_eq] at hfrom
          exact hfrom

theorem ContentInv.step {a : ContentAction} (hs : ContentInv svc s)
    (hstep : contentStep svc co s a = some t) : ContentInv svc t := by
  cases a with
  | ingest a =>
    obtain ⟨j, hj, rfl⟩ := Option.map_eq_some_iff.mp hstep
    refine ⟨hs.ingest.step a hj, hs.bound, fun f hf => ?_⟩
    exact (hs.extracted f hf).mono fun c hc => ingestStep_keeps_chunk hs.ingest hj hc
  | graph a =>
    simp only [contentStep] at hstep
    split at hstep
    · rename_i hfrom
      obtain ⟨g, hg, rfl⟩ := Option.map_eq_some_iff.mp hstep
      exact ⟨hs.ingest, graphStep_edgesBound _ _ _ hs.bound hg,
        extracted_graphStep hs.extracted hfrom hg⟩
    · cases hstep

theorem contentInv_start (svc : IngestionService) (co : Conversions)
    (sources : KeyedTable SourceRow.sourceId) (chunks : List UUID) :
    ContentInv svc (contentSystem svc co sources chunks).start :=
  ⟨ingestInv_start svc sources, ⟨List.forall_mem_nil _, List.forall_mem_nil _⟩,
    List.forall_mem_nil _⟩

/-- A step keeps removed content out of the searches exactly when it is in accord. -/
theorem contentStep_nothingRemoved_iff {a : ContentAction} (hs : ContentInv svc s)
    (h : NothingRemoved s.db s.graph) (hstep : contentStep svc co s a = some t) :
    NothingRemoved t.db t.graph ↔ InAccord svc co s a := by
  have ht := hs.step hstep
  rw [nothingRemoved_iff ht.bound ht.extracted]
  rw [nothingRemoved_iff hs.bound hs.extracted] at h
  cases a with
  | ingest a =>
    obtain ⟨j, hj, rfl⟩ := Option.map_eq_some_iff.mp hstep
    exact ingest_backed_iff hs.ingest hj h
  | graph a =>
    simp only [contentStep] at hstep
    split at hstep
    · obtain ⟨g, hg, rfl⟩ := Option.map_eq_some_iff.mp hstep
      exact graph_backed_iff hg h
    · cases hstep

/-- Removed content stays out of every search throughout a run exactly when every step that is
taken is in accord. -/
theorem nothingRemoved_throughout_iff (svc : IngestionService) (co : Conversions)
    (sources : KeyedTable SourceRow.sourceId) (chunks : List UUID) (actions : List ContentAction) :
    (∀ s ∈ (contentSystem svc co sources chunks).states (contentSystem svc co sources chunks).start
        actions, NothingRemoved s.db s.graph) ↔
      (contentSystem svc co sources chunks).Along
        (fun s a => (contentStep svc co s a).isSome = true → InAccord svc co s a)
        (contentSystem svc co sources chunks).start actions := by
  have hstart := contentInv_start svc co sources chunks
  refine (contentSystem svc co sources chunks).holds_throughout_iff_of_refused
    (fun _ _ _ hs hstep => hs.step hstep) (fun s a hnone => ?_) (fun s a t hs h hstep => ?_) actions
    hstart ?_
  · have hrefused : contentStep svc co s a = none := hnone
    simp [hrefused]
  · have htaken : contentStep svc co s a = some t := hstep
    rw [contentStep_nothingRemoved_iff hs h hstep]
    simp [htaken]
  · rw [nothingRemoved_iff hstart.bound hstart.extracted]
    rintro f ⟨hstored, -⟩
    cases hstored

def extractedPayload (chunkId : Nat) : JsonObject :=
  [("fact_id", uuidText 1), ("subject_id", uuidText 2), ("predicate", .str "knows"),
   ("object_id", uuidText 3), ("evidence_ids", .list [uuidText chunkId]), ("tenant_id", .str "t"),
   ("observed_at", .int 5)]

/-- A file is ingested, a fact from its only chunk is projected and verified, and the source of
the file is deactivated. -/
def removalActions : List ContentAction :=
  [.ingest (.begin sampleCall sampleFiles noFaults), .ingest (.lookUp 0 noFaults),
    .ingest (.write 0 sampleDraws noFaults),
    .graph (.project .entityResolved (entityPayload 2 "Ada") 0),
    .graph (.project .entityResolved (entityPayload 3 "Bob") 0),
    .graph (.project .factCandidate (extractedPayload 6) 0),
    .graph (.updateFactStatus 1 "verified" none), .ingest (.deactivateSource 1 20 noFaults)]

def staysExposed (s : ContentState) : Bool :=
  s.graph.facts.rows.map (fun f => (f.factId, f.status, f.evidenceIds)) = [(1, .verified, [6])] ∧
    s.graph.subjectOf = [(2, 1)] ∧ s.graph.object = [(1, 3)] ∧
    s.db.sources.rows.map SourceRow.isActive = [false]

theorem not_backedByLive_of_staysExposed (h : staysExposed s = true) :
    ¬ BackedByLive s.db s.graph := by
  simp only [staysExposed, decide_eq_true_eq] at h
  obtain ⟨hfacts, hsubject, hobject, hsources⟩ := h
  obtain ⟨f, hrows, hf⟩ := List.map_eq_singleton_iff.mp hfacts
  simp only [Prod.mk.injEq] at hf
  obtain ⟨hid, hstatus, hids⟩ := hf
  have hmem : f ∈ s.graph.facts.rows := by
    rw [hrows]
    exact List.mem_singleton_self f
  have hlinked : Linked s.graph f.factId := by
    rw [hid]
    exact ⟨⟨2, by rw [hsubject]; exact List.mem_singleton_self _⟩,
      ⟨3, by rw [hobject]; exact List.mem_singleton_self _⟩⟩
  intro hbacked
  obtain ⟨c, -, d, -, -, -, source, hsource, -, hactive⟩ :=
    hbacked f ⟨s.graph.facts.mem_rows_iff.mp hmem, hstatus, hlinked⟩ 6 (by simp [hids])
  have hall := List.mem_map_of_mem (f := SourceRow.isActive) hsource
  rw [hsources, hactive] at hall
  simp at hall

/-- Nothing in the graph hears of the source. -/
theorem not_nothingRemoved :
    ¬ ∀ s, (contentSystem sampleService plainConversions sampleSources []).Reachable s →
      NothingRemoved s.db s.graph := by
  intro h
  have hrun : ((contentSystem sampleService plainConversions sampleSources []).run
      (contentSystem sampleService plainConversions sampleSources []).start removalActions).any
        staysExposed = true := by
    decide +kernel
  obtain ⟨s, hs, hexposed⟩ := (Option.any_eq_true _ _).mp hrun
  have hreach : (contentSystem sampleService plainConversions sampleSources []).Reachable s :=
    ⟨removalActions, hs⟩
  have hinv : ContentInv sampleService s :=
    (contentSystem sampleService plainConversions sampleSources []).reachable_invariant
      (contentInv_start _ _ _ _) (fun _ _ _ hi hstep => hi.step hstep) hreach
  exact not_backedByLive_of_staysExposed hexposed
    ((nothingRemoved_iff hinv.bound hinv.extracted).mp (h s hreach))

end GroundGraph.Retrieval

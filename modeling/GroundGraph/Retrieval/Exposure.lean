import GroundGraph.Ingestion.LiveChunks
import GroundGraph.Neo4j.Projection
import GroundGraph.Retrieval.ChunkSearch
import GroundGraph.Retrieval.GraphCoverage
import Mathlib.Data.Set.Finite.Lattice

/-! What the three retrieval paths can show of one state of both stores. The two searches join
a chunk with its document and its source and admit live chunks only; the graph shows every
verified fact that is linked to its entities, whatever became of the chunk that backs it.
-/

set_option autoImplicit false

namespace GroundGraph.Retrieval

open GroundGraph.Ingestion GroundGraph.Knowledge GroundGraph.Neo4j

def joinedRow (db : DocumentDb) (c : Chunk) : Option ChunkRow :=
  (db.documents.get? c.documentId).bind fun d =>
    (db.sources.get? d.sourceId).map fun s =>
      { chunkId := c.chunkId
        sourceId := d.sourceId
        documentId := c.documentId
        versionId := c.versionId
        content := c.content
        currentVersionId := d.currentVersionId
        isActive := s.isActive
        tenantId := s.tenantId
        allowedPrincipals := s.allowedPrincipals }

variable {db : DocumentDb} {g : Graph}

theorem joinedRow_some {c : Chunk} {r : ChunkRow} (h : joinedRow db c = some r) :
    r.chunkId = c.chunkId ∧
      (r.isActive = true → r.currentVersionId = some r.versionId → Live db c) := by
  obtain ⟨d, hd, h⟩ := Option.bind_eq_some_iff.mp h
  obtain ⟨s, hs, rfl⟩ := Option.map_eq_some_iff.mp h
  obtain ⟨hdoc, hid⟩ := db.documents.get?_some_iff.mp hd
  obtain ⟨hsource, hsid⟩ := db.sources.get?_some_iff.mp hs
  refine ⟨rfl, fun hactive hcurrent => ⟨d, hdoc, hid, hcurrent, s, hsource, hsid, hactive⟩⟩

theorem joined_sublist (db : DocumentDb) (cs : List Chunk) :
    ((cs.filterMap (joinedRow db)).map ChunkRow.chunkId).Sublist (cs.map Chunk.chunkId) := by
  induction cs with
  | nil => exact .slnil
  | cons c cs ih =>
    cases hjoin : joinedRow db c with
    | none =>
      rw [List.filterMap_cons_none hjoin]
      exact ih.cons _
    | some r =>
      rw [List.filterMap_cons_some hjoin, List.map_cons, List.map_cons, (joinedRow_some hjoin).1]
      exact ih.cons_cons _

/-- What the retrievers see of the database, beside the embeddings and the index versions. -/
def chunkStore (db : DocumentDb)
    (embeddings : KeyedTable fun e : ChunkEmbedding => (e.chunkId, e.indexVersionId))
    (activeIndexes : List UUID) : ChunkStore where
  chunks := ⟨db.chunks.rows.filterMap (joinedRow db),
    (joined_sublist db db.chunks.rows).nodup db.chunks.unique⟩
  embeddings := embeddings
  activeIndexes := activeIndexes

def LiveId (db : DocumentDb) (k : UUID) : Prop := ∃ c, db.chunks.get? k = some c ∧ Live db c

def OnlyRemoved (db : DocumentDb) (ids : List UUID) : Prop :=
  ids ≠ [] ∧ ∀ k ∈ ids, ∃ c, db.chunks.get? k = some c ∧ ¬ Live db c

def evidenceIdsOf (g : Graph) (e : Evidence) : List UUID :=
  ((g.facts.get? e.evidenceId).map fun f => f.evidenceIds).getD []

/-- No search, of whatever kind, returns anything that only removed chunks are behind. -/
structure NothingRemoved (db : DocumentDb) (g : Graph) : Prop where
  vector : ∀ embeddings activeIndexes distance order topK q indexVersionId found,
    searchWithContent (chunkStore db embeddings activeIndexes) distance order topK q
        indexVersionId = some found →
      ∀ c ∈ found, ¬ OnlyRemoved db [c.chunkId]
  keyword : ∀ embeddings activeIndexes isMatch rank order query topK q,
    ∀ c ∈ keywordSearch (chunkStore db embeddings activeIndexes) isMatch rank order query topK q,
      ¬ OnlyRemoved db [c.chunkId]
  graph : ∀ sc q fetches seedEntities evidence,
    retrieveEvidence sc g q fetches seedEntities = some evidence →
      ∀ e ∈ evidence, ¬ OnlyRemoved db (evidenceIdsOf g e)

theorem live_of_admitted {q : ChunkFilter} {r : ChunkRow}
    {embeddings : KeyedTable fun e : ChunkEmbedding => (e.chunkId, e.indexVersionId)}
    {activeIndexes : List UUID} (hr : r ∈ (chunkStore db embeddings activeIndexes).chunks.rows)
    (hadmits : q.admits r = true) : LiveId db r.chunkId := by
  obtain ⟨c, hc, hjoin⟩ := List.mem_filterMap.mp hr
  obtain ⟨hid, hlive⟩ := joinedRow_some hjoin
  simp only [ChunkFilter.admits, Bool.and_eq_true, decide_eq_true_eq] at hadmits
  refine ⟨c, ?_, hlive hadmits.1.1.1.1 hadmits.1.1.2⟩
  rw [hid]
  exact db.chunks.mem_rows_iff.mp hc

theorem LiveId.not_onlyRemoved {k : UUID} (h : LiveId db k) : ¬ OnlyRemoved db [k] := by
  rintro ⟨-, hall⟩
  obtain ⟨c, hc, hlive⟩ := h
  obtain ⟨c', hc', hdead⟩ := hall k List.mem_cons_self
  rw [hc] at hc'
  exact hdead (Option.some.inj hc' ▸ hlive)

def Linked (g : Graph) (factId : UUID) : Prop :=
  (∃ s, (s, factId) ∈ g.subjectOf) ∧ ∃ o, (factId, o) ∈ g.object

structure Exposed (g : Graph) (f : KnowledgeFact) : Prop where
  stored : g.facts.get? f.factId = some f
  verified : f.status = .verified
  linked : Linked g f.factId

theorem exposed_iff (hg : EdgesBound g) {f : KnowledgeFact} :
    Exposed g f ↔ ∃ row ∈ g.factRows, row.fact = f ∧ row.fact.status = .verified := by
  constructor
  · rintro ⟨hstored, hverified, ⟨s, hs⟩, o, ho⟩
    exact ⟨⟨s, f, o⟩, mem_factRows.mpr ⟨hs, ho, hstored, hg.subjectOf _ hs, hg.object _ ho⟩, rfl,
      hverified⟩
  · rintro ⟨row, hrow, rfl, hverified⟩
    obtain ⟨hs, ho, hstored, -⟩ := mem_factRows.mp hrow
    exact ⟨hstored, hverified, ⟨_, hs⟩, _, ho⟩

def factFirst (factId : UUID) : RowOrder where
  arrange rows := rows.filter (fun row => decide (row.fact.factId = factId)) ++
    rows.filter fun row => !decide (row.fact.factId = factId)
  perm rows := List.filter_append_perm _ rows

theorem mem_findFacts_factFirst {filter : FactFilter} {row : FactRow} (hrow : row ∈ g.factRows)
    (hadmits : filter.admits row = true) :
    row.fact ∈ findFacts g filter (factFirst row.fact.factId) := by
  have hmem : row ∈ (g.factRows.filter filter.admits).filter
      fun r => decide (r.fact.factId = row.fact.factId) := by
    simp [hrow, hadmits]
  obtain ⟨first, rest, hsplit⟩ := List.exists_cons_of_ne_nil (List.ne_nil_of_mem hmem)
  have hfirst : first ∈ (g.factRows.filter filter.admits).filter
      fun r => decide (r.fact.factId = row.fact.factId) := by
    rw [hsplit]
    exact List.mem_cons_self
  simp only [List.mem_filter, decide_eq_true_eq] at hfirst
  have hsame : first.fact = row.fact := by
    have hstored := (mem_factRows.mp hfirst.1.1).2.2.1
    rw [hfirst.2, (mem_factRows.mp hrow).2.2.1] at hstored
    exact (Option.some.inj hstored).symm
  rw [← hsame]
  refine List.mem_map_of_mem ?_
  simp only [factFirst, hsame, hsplit, List.cons_append, findFactsLimit, List.take_succ_cons]
  exact List.mem_cons_self

def openSearch : Search := { maxDepth := 1 }

theorem exists_lateScoring (g : Graph) : ∃ sc : Scoring, ∀ f ∈ g.facts.rows,
    sc.overflows f = false := by
  obtain ⟨t, ht⟩ := (List.finite_toSet (g.facts.rows.map KnowledgeFact.observedAt)).bddAbove
  refine ⟨⟨fun _ => t, fun _ _ _ => []⟩, fun f hf => ?_⟩
  have hle : f.observedAt ≤ t := ht (List.mem_map_of_mem hf)
  exact decide_eq_false (not_le.mpr ((Int.sub_nonpos_of_le hle).trans_lt (by decide)))

theorem Exposed.retrieved (hg : EdgesBound g) {f : KnowledgeFact} (hf : Exposed g f) :
    ∃ sc fetches seedEntities evidence,
      retrieveEvidence sc g openSearch fetches seedEntities = some evidence ∧
        ∃ e ∈ evidence, e.evidenceId = f.factId := by
  obtain ⟨row, hrow, rfl, hverified⟩ := (exposed_iff hg).mp hf
  obtain ⟨-, -, -, hsubject, -⟩ := mem_factRows.mp hrow
  obtain ⟨entity, hentity⟩ := Option.isSome_iff_exists.mp hsubject
  have hid : entity.entityId = row.subject := (g.entities.get?_some_iff.mp hentity).2
  have hadmits : (openSearch.asSubject row.subject).admits row = true := by
    simp [FactFilter.admits, Search.asSubject, openSearch, idCondition, textCondition,
      Search.predicate, tenantCondition, Search.allowedPrincipals, aclCondition, hverified,
      FactStatus.text]
  let fetches : Fetches :=
    ⟨fun _ => factFirst row.fact.factId, fun _ => factFirst row.fact.factId⟩
  have hlisted : Listed row.fact.factId (traverse g openSearch fetches row.subject) :=
    listed_of_seed (show (1 : Int) ≤ openSearch.maxDepth by decide)
      (mem_findFacts_factFirst hrow hadmits) rfl
  obtain ⟨r, hr, hfact⟩ := hlisted
  rw [← hid] at hr
  obtain ⟨sc, hlate⟩ := exists_lateScoring g
  have hscored : AllScored sc g openSearch (fun _ => fetches) [entity] := fun r hr =>
    hlate r.fact (g.facts.get?_some_iff.mp (allEntries_stored _ _ r hr)).1
  rw [← hfact]
  exact ⟨sc, fun _ => fetches, [entity],
    exists_evidence_of_entry hscored (List.mem_append_left _ hr)⟩

def ExtractedFrom (db : DocumentDb) (f : KnowledgeFact) : Prop :=
  ∃ c ∈ db.chunks.rows, f.evidenceIds = [c.chunkId]

/-- The chunks behind every fact that some traversal returns are live. -/
def BackedByLive (db : DocumentDb) (g : Graph) : Prop :=
  ∀ f, Exposed g f → ∀ k ∈ f.evidenceIds, LiveId db k

theorem ExtractedFrom.onlyRemoved_iff {f : KnowledgeFact} (h : ExtractedFrom db f) :
    OnlyRemoved db f.evidenceIds ↔ ¬ ∀ k ∈ f.evidenceIds, LiveId db k := by
  obtain ⟨c, hc, hids⟩ := h
  have hget := db.chunks.mem_rows_iff.mp hc
  simp [OnlyRemoved, LiveId, hids, hget]

theorem nothingRemoved_iff (hg : EdgesBound g) (hfrom : ∀ f ∈ g.facts.rows, ExtractedFrom db f) :
    NothingRemoved db g ↔ BackedByLive db g := by
  constructor
  · intro h f hf
    obtain ⟨sc, fetches, seedEntities, evidence, hevidence, e, he, hid⟩ := hf.retrieved hg
    have hids : evidenceIdsOf g e = f.evidenceIds := by
      simp [evidenceIdsOf, hid, hf.stored]
    have hnot := h.graph _ _ _ _ _ hevidence e he
    rw [hids, (hfrom f (g.facts.get?_some_iff.mp hf.stored).1).onlyRemoved_iff, not_not] at hnot
    exact hnot
  · intro h
    refine ⟨?_, ?_, ?_⟩
    · intro _ _ _ _ _ _ _ found hfound c hc
      obtain ⟨r, hr, hadmits, score, rfl⟩ := searchWithContent_admitted hfound hc
      exact (live_of_admitted hr hadmits).not_onlyRemoved
    · intro _ _ _ _ _ _ _ _ c hc
      obtain ⟨r, hr, hadmits, score, rfl⟩ := keywordSearch_admitted hc
      exact (live_of_admitted hr hadmits).not_onlyRemoved
    · intro sc q fetches seedEntities evidence hevidence e he
      obtain ⟨k, r, hfirst, rfl⟩ := (mem_retrieveEvidence hevidence).mp he
      have hexposed := (exposed_iff hg).mpr
        (allEntries_fromRows fetches seedEntities r (firstEntry_some hfirst).1)
      have hids : evidenceIdsOf g (toEvidence sc r) = r.fact.evidenceIds := by
        simp [evidenceIdsOf, toEvidence, hexposed.stored]
      rw [hids, (hfrom r.fact (g.facts.get?_some_iff.mp hexposed.stored).1).onlyRemoved_iff, not_not]
      exact h r.fact hexposed

end GroundGraph.Retrieval

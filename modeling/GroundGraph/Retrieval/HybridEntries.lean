import GroundGraph.Retrieval.FusionFormula

/-! The entries of the chunks in the fusion with graph evidence. The first two loops of
`hybrid_rrf_fusion` and those of `reciprocal_rank_fusion` count over the same occurrences, and
the former write to the fused score only. What is not dropped becomes an item.
-/

set_option autoImplicit false

namespace GroundGraph.Retrieval

/-- What the loops over the chunks do, with `evidenceId` as the id that a new entry draws. -/
def hybridTally (evidenceId : UUID) : Tally HybridEntry.key Occurrence where
  start o := chunkEntry evidenceId (if o.vector then o.chunk.vectorScore else none)
    (if o.vector then none else o.chunk.keywordScore) o.chunk
  add o e := { e with rrfScore := e.rrfScore + reciprocalRank rrfK o.rank }
  key_add _ _ := rfl

def addOccurrence (uuid4 : Nat → UUID) (t : HybridTable) (o : Occurrence) : HybridTable :=
  (hybridTally (uuid4 t.rows.length)).step t o

theorem chunkTable_eq (uuid4 : Nat → UUID) (vectorResults keywordResults : List RetrievedChunk) :
    chunkTable uuid4 vectorResults keywordResults =
      (occurrences vectorResults keywordResults).foldl (addOccurrence uuid4) .empty := by
  unfold occurrences
  rw [List.foldl_append, List.foldl_map, List.foldl_map]
  rfl

def HybridEntry.withId (evidenceId : UUID) (e : HybridEntry) : HybridEntry :=
  { e with evidenceId := evidenceId }

/-- The entry that an occurrence opens, after the loops over the chunks. -/
def hybridEntry (vectorResults keywordResults : List RetrievedChunk) (evidenceId : UUID)
    (o : Occurrence) : HybridEntry :=
  (hybridTally evidenceId).total (occurrences vectorResults keywordResults)
    ((hybridTally evidenceId).start o)

section
variable (evidenceId : UUID)

theorem hybridTally_keyOf (o : Occurrence) : (hybridTally evidenceId).keyOf o = o.id := rfl

theorem withId_addTo (id : UUID) (o : Occurrence) (e : HybridEntry) :
    ((hybridTally id).addTo o e).withId evidenceId =
      (hybridTally evidenceId).addTo o (e.withId evidenceId) := by
  change (if o.id = e.key then _ else e).withId evidenceId = if o.id = e.key then _ else _
  split
  · rfl
  · rfl

theorem rows_addOccurrence (uuid4 : Nat → UUID) {t t' : HybridTable}
    (h : t'.rows = t.rows.map (HybridEntry.withId evidenceId)) (o : Occurrence) :
    ((hybridTally evidenceId).step t' o).rows =
      (addOccurrence uuid4 t o).rows.map (HybridEntry.withId evidenceId) := by
  have hkeys : t'.rows.map HybridEntry.key = t.rows.map HybridEntry.key := by
    rw [h, List.map_map]
    rfl
  unfold addOccurrence
  rw [Tally.rows_step, Tally.rows_step, hkeys, h, List.map_append, List.map_map, List.map_map]
  congr 1
  · exact List.map_congr_left fun e _ => (withId_addTo evidenceId _ o e).symm
  · rw [hybridTally_keyOf, hybridTally_keyOf]
    by_cases hold : o.id ∈ t.rows.map HybridEntry.key
    · rw [if_pos hold, if_pos hold]
      rfl
    · rw [if_neg hold, if_neg hold]
      rfl

theorem rows_foldl_addOccurrence (uuid4 : Nat → UUID) (os : List Occurrence) {t t' : HybridTable}
    (h : t'.rows = t.rows.map (HybridEntry.withId evidenceId)) :
    (os.foldl (hybridTally evidenceId).step t').rows =
      (os.foldl (addOccurrence uuid4) t).rows.map (HybridEntry.withId evidenceId) := by
  induction os generalizing t t' with
  | nil => exact h
  | cons o os ih => exact ih (rows_addOccurrence evidenceId uuid4 h o)

end

section
variable {vectorResults keywordResults : List RetrievedChunk}

theorem rows_chunkTable (evidenceId : UUID) (uuid4 : Nat → UUID) :
    (chunkTable uuid4 vectorResults keywordResults).rows.map (HybridEntry.withId evidenceId) =
      (firstOccurrences vectorResults keywordResults).map
        (hybridEntry vectorResults keywordResults evidenceId) := by
  have hempty : (.empty : HybridTable).rows =
      (.empty : HybridTable).rows.map (HybridEntry.withId evidenceId) := rfl
  rw [chunkTable_eq, ← rows_foldl_addOccurrence evidenceId uuid4 _ hempty]
  exact (hybridTally evidenceId).rows_foldl _

theorem exists_of_mem_chunkTable {uuid4 : Nat → UUID} {e : HybridEntry}
    (he : e ∈ (chunkTable uuid4 vectorResults keywordResults).rows) :
    ∃ o ∈ firstOccurrences vectorResults keywordResults,
      hybridEntry vectorResults keywordResults e.evidenceId o = e := by
  have hmem := List.mem_map_of_mem (f := HybridEntry.withId e.evidenceId) he
  rw [rows_chunkTable] at hmem
  exact List.mem_map.mp hmem

@[simp] theorem hybridEntry_key (evidenceId : UUID) (o : Occurrence) :
    (hybridEntry vectorResults keywordResults evidenceId o).key = o.id :=
  (hybridTally evidenceId).key_total _ _

theorem hybridEntry_frame {β : Type} {g : HybridEntry → β}
    (hg : ∀ (e : HybridEntry) score, g { e with rrfScore := score } = g e) (evidenceId : UUID)
    (o : Occurrence) :
    g (hybridEntry vectorResults keywordResults evidenceId o) =
      g ((hybridTally evidenceId).start o) :=
  (hybridTally evidenceId).total_frame (fun _ e => hg e _) _ _

@[simp] theorem hybridEntry_sourceId (evidenceId : UUID) (o : Occurrence) :
    (hybridEntry vectorResults keywordResults evidenceId o).sourceId = o.chunk.sourceId :=
  hybridEntry_frame (fun _ _ => rfl) evidenceId o

theorem hybridEntry_rrfScore (evidenceId : UUID) (o : Occurrence) :
    (hybridEntry vectorResults keywordResults evidenceId o).rrfScore =
      rrfSum rrfK vectorResults keywordResults o.id := by
  have hsum := (hybridTally evidenceId).total_sum HybridEntry.rrfScore
    (fun o => reciprocalRank rrfK o.rank) (fun _ _ => rfl)
    (occurrences vectorResults keywordResults) ((hybridTally evidenceId).start o)
  exact hsum.trans ((zero_add _).trans (sum_occurrences _ _ rrfK o.id))

end

theorem method_of_hybridEntry {vectorResults keywordResults : List RetrievedChunk} (evidenceId : UUID)
    (o : Occurrence) :
    determineRetrievalMethod (hybridEntry vectorResults keywordResults evidenceId o) =
      if truthyScore (hybridEntry vectorResults keywordResults evidenceId o).vectorScore then .vector
      else .keyword := by
  have hgraph : (hybridEntry vectorResults keywordResults evidenceId o).graphScore = none :=
    hybridEntry_frame (fun _ _ => rfl) evidenceId o
  rw [determineRetrievalMethod, hgraph]
  exact if_neg Bool.false_ne_true

section
variable {uuid4 : Nat → UUID} {vectorResults keywordResults : List RetrievedChunk}

theorem get?_chunkTable_none_iff {id : UUID} :
    (chunkTable uuid4 vectorResults keywordResults).get? id = none ↔
      ∀ c ∈ vectorResults ++ keywordResults, c.chunkId ≠ id := by
  have hkeys : (chunkTable uuid4 vectorResults keywordResults).rows.map HybridEntry.key =
      (firstOccurrences vectorResults keywordResults).map Occurrence.id := by
    have hrows := congrArg (List.map HybridEntry.key)
      (@rows_chunkTable vectorResults keywordResults 0 uuid4)
    rw [List.map_map, List.map_map] at hrows
    refine hrows.trans (List.map_congr_left fun o _ => ?_)
    exact hybridEntry_key 0 o
  rw [KeyedTable.get?_none_iff, hkeys, firstOccurrences, FirstPerKey.mem_map_key_iff,
    occurrences_map_id]
  simp only [List.mem_map, not_exists, not_and, ne_eq]

theorem exists_of_get?_chunkTable {k : UUID} {e : HybridEntry}
    (h : (chunkTable uuid4 vectorResults keywordResults).get? k = some e) :
    ∃ o ∈ firstOccurrences vectorResults keywordResults,
      hybridEntry vectorResults keywordResults e.evidenceId o = e :=
  exists_of_mem_chunkTable ((KeyedTable.get?_some_iff _).mp h).1

theorem graphScore_of_get?_chunkTable {k : UUID} {e : HybridEntry}
    (h : (chunkTable uuid4 vectorResults keywordResults).get? k = some e) : e.graphScore = none := by
  obtain ⟨o, -, heq⟩ := exists_of_get?_chunkTable h
  rw [← heq]
  exact hybridEntry_frame (fun _ _ => rfl) _ o

end

structure ItemOf (e : HybridEntry) (item : Evidence) : Prop where
  evidenceId : item.evidenceId = e.evidenceId
  sourceId : item.sourceId = e.sourceId
  method : item.retrievalMethod = determineRetrievalMethod e

theorem exists_toEvidence {e : HybridEntry}
    (h : ∀ f t, e.validFrom = some f → e.validTo = some t → f < t) :
    ∃ item, e.toEvidence = .ok item ∧ ItemOf e item := by
  have hbounds : ∀ f ∈ e.validFrom, ∀ t ∈ e.validTo, f < t := fun f hf t ht => h f t hf ht
  unfold HybridEntry.toEvidence
  rw [dif_pos hbounds]
  exact ⟨_, rfl, ⟨rfl, rfl, rfl⟩⟩

structure ItemsOf (entries : List HybridEntry) (out : List Evidence) : Prop where
  sources : out.map Evidence.sourceId = entries.map HybridEntry.sourceId
  origin : ∀ item ∈ out, ∃ e ∈ entries, ItemOf e item

theorem exists_mapM_toEvidence {entries : List HybridEntry}
    (h : ∀ e ∈ entries, ∃ item, e.toEvidence = .ok item ∧ ItemOf e item) :
    ∃ out, entries.mapM HybridEntry.toEvidence = .ok out ∧ ItemsOf entries out := by
  induction entries with
  | nil => exact ⟨[], rfl, rfl, List.forall_mem_nil _⟩
  | cons e entries ih =>
    obtain ⟨item, hitem, hof⟩ := h e List.mem_cons_self
    obtain ⟨out, hout, hrest⟩ := ih fun e' he' => h e' (List.mem_cons_of_mem _ he')
    refine ⟨item :: out, ?_, ?_, ?_⟩
    · rw [List.mapM_cons, hitem, hout]
      rfl
    · rw [List.map_cons, List.map_cons, hof.sourceId, hrest.sources]
    · intro i hi
      rcases List.mem_cons.mp hi with rfl | hi
      · exact ⟨e, List.mem_cons_self, hof⟩
      · obtain ⟨e', he', hof'⟩ := hrest.origin i hi
        exact ⟨e', List.mem_cons_of_mem _ he', hof'⟩

theorem mem_byScore {t : HybridTable} {e : HybridEntry} : e ∈ byScore t ↔ e ∈ t.rows :=
  (List.perm_insertionSort _ _).mem_iff

theorem mem_kept_get? {t : HybridTable} {e : HybridEntry}
    (he : e ∈ firstPerKey HybridEntry.sourceId [] (byScore t)) : t.get? e.key = some e :=
  t.get?_some_iff.mpr ⟨mem_byScore.mp (FirstPerKey.mem_imp he).1, rfl⟩

end GroundGraph.Retrieval

import GroundGraph.Ingestion.SourceRegistry
import GroundGraph.Retrieval.Exposure

/-! A source that is deactivated stays so, whatever is registered and ingested afterwards: its files
are still stored, with their chunks, and no search returns them.
-/

set_option autoImplicit false

namespace GroundGraph.Retrieval

open GroundGraph.Ingestion

def Deactivated (sources : KeyedTable SourceRow.sourceId) (sourceId : UUID) : Prop :=
  ∃ r, sources.get? sourceId = some r ∧ r.isActive = false

structure Hidden (db : DocumentDb) (sourceId : UUID) : Prop where
  vector : ∀ embeddings activeIndexes distance order topK q indexVersionId found,
    searchWithContent (chunkStore db embeddings activeIndexes) distance order topK q
        indexVersionId = some found →
      ∀ c ∈ found, c.sourceId ≠ sourceId
  keyword : ∀ embeddings activeIndexes isMatch rank order query topK q,
    ∀ c ∈ keywordSearch (chunkStore db embeddings activeIndexes) isMatch rank order query topK q,
      c.sourceId ≠ sourceId

/-- What has come of a source that was deactivated in the first state. -/
structure StaysOut (s t : RegistryState) (sourceId : UUID) : Prop where
  deactivated : Deactivated t.registry.sources sourceId
  /-- Who registers it anew is told. -/
  returned : ∃ new, t.answers = s.answers ++ new ∧
    ∀ a ∈ new, a.source.source.sourceId = sourceId → a.source.source.isActive = false
  hidden : Hidden t.ingest.db sourceId

section
variable {svc : IngestionService} {s t : RegistryState} {sourceId : UUID} {db : DocumentDb}
  {embeddings : KeyedTable fun e : ChunkEmbedding => (e.chunkId, e.indexVersionId)}
  {activeIndexes : List UUID}

theorem inactive_of_joined {r : ChunkRow} (h : Deactivated db.sources sourceId)
    (hr : r ∈ (chunkStore db embeddings activeIndexes).chunks.rows) (hid : r.sourceId = sourceId) :
    r.isActive = false := by
  obtain ⟨c, -, hjoin⟩ := List.mem_filterMap.mp hr
  obtain ⟨d, -, hjoin⟩ := Option.bind_eq_some_iff.mp hjoin
  obtain ⟨source, hsource, rfl⟩ := Option.map_eq_some_iff.mp hjoin
  obtain ⟨x, hx, hinactive⟩ := h
  rw [show d.sourceId = sourceId from hid, hx] at hsource
  obtain rfl := Option.some.inj hsource
  exact hinactive

theorem source_of_admitted {r : ChunkRow} {q : ChunkFilter} (h : Deactivated db.sources sourceId)
    (hr : r ∈ (chunkStore db embeddings activeIndexes).chunks.rows) (hadmits : q.admits r = true) :
    r.sourceId ≠ sourceId := by
  intro hid
  have hinactive := inactive_of_joined h hr hid
  simp only [ChunkFilter.admits, Bool.and_eq_true, decide_eq_true_eq] at hadmits
  rw [hinactive] at hadmits
  simp at hadmits

theorem Deactivated.hidden (h : Deactivated db.sources sourceId) : Hidden db sourceId where
  vector := by
    intro embeddings activeIndexes distance order topK q indexVersionId found hfound c hc
    obtain ⟨r, hr, hadmits, score, rfl⟩ := searchWithContent_admitted hfound hc
    exact source_of_admitted h hr hadmits
  keyword := by
    intro embeddings activeIndexes isMatch rank order query topK q c hc
    obtain ⟨r, hr, hadmits, score, rfl⟩ := keywordSearch_admitted hc
    exact source_of_admitted h hr hadmits

structure KeepsOut (sourceId : UUID) (s t : RegistryState) : Prop where
  deactivated : Deactivated s.registry.sources sourceId → Deactivated t.registry.sources sourceId
  returned : ∃ new, t.answers = s.answers ++ new ∧ (Deactivated s.registry.sources sourceId →
    ∀ a ∈ new, a.source.source.sourceId = sourceId → a.source.source.isActive = false)

theorem KeepsOut.quiet (hdeactivated : Deactivated s.registry.sources sourceId →
    Deactivated t.registry.sources sourceId) (hanswers : t.answers = s.answers) :
    KeepsOut sourceId s t :=
  ⟨hdeactivated, [], by simp [hanswers], fun _ => List.forall_mem_nil _⟩

theorem KeepsOut.trans {u : RegistryState} (h : KeepsOut sourceId s t) (h' : KeepsOut sourceId t u) :
    KeepsOut sourceId s u := by
  obtain ⟨hdeactivated, new, hnew, hsays⟩ := h
  obtain ⟨hdeactivated', new', hnew', hsays'⟩ := h'
  refine ⟨hdeactivated' ∘ hdeactivated, new ++ new', by simp [hnew', hnew], fun hs a ha => ?_⟩
  rcases List.mem_append.mp ha with ha | ha
  · exact hsays hs a ha
  · exact hsays' (hdeactivated hs) a ha

theorem keepsOut_insert {call : RegisterCall} {drawn : UUID} {fault : Option IngestError}
    (hstep : registryStep svc s (.insert call drawn fault) = some t) : KeepsOut sourceId s t := by
  simp only [registryStep] at hstep
  split at hstep
  · obtain rfl := Option.some.inj hstep
    exact .quiet id rfl
  · rename_i source hsource
    split at hstep
    · rename_i stored g hinsert
      obtain rfl := Option.some.inj hstep
      cases insertSource_inserted hinsert with
      | created absent hsources hcolumns hstored =>
        refine ⟨?_, _, rfl, ?_⟩
        · rintro ⟨r, hr, hinactive⟩
          exact ⟨r, KeyedTable.get?_of_insert? hsources hr, hinactive⟩
        · rintro ⟨r, hr, -⟩ a ha hid
          rw [List.mem_singleton.mp ha] at hid
          have hsame : stored.source.sourceId = source.source.sourceId :=
            congrArg Registration.sourceId (registeredToDomain_ok hstored).1
          -- the id that was drawn is new
          obtain ⟨hnew, -⟩ := KeyedTable.insert?_some_iff.mp hsources
          refine absurd ?_ hnew
          rw [show (newSourceRow source).sourceId = sourceId from hsame.symm.trans hid]
          obtain ⟨hmem, hr⟩ := s.registry.sources.get?_some_iff.mp hr
          exact List.mem_map.mpr ⟨r, hmem, hr⟩
    · obtain rfl := Option.some.inj hstep
      exact .quiet id rfl
    · obtain rfl := Option.some.inj hstep
      exact .quiet id rfl

theorem keepsOut_select {i : Nat} {fault : Option IngestError}
    (hstep : registryStep svc s (.select i fault) = some t) : KeepsOut sourceId s t := by
  simp only [registryStep] at hstep
  split at hstep
  · cases hstep
  · split at hstep
    · rename_i stored hselect
      obtain rfl := Option.some.inj hstep
      refine ⟨id, _, rfl, ?_⟩
      rintro ⟨x, hx, hinactive⟩ a ha hid
      rw [List.mem_singleton.mp ha] at hid ⊢
      obtain ⟨r, c, hrow, -, hdomain⟩ := selectSource_row hselect
      obtain ⟨hregistration, hactive, -⟩ := registeredToDomain_ok hdomain
      have hr := (mem_registryRows.mp hrow).1
      rw [← show stored.source.sourceId = r.sourceId from
        congrArg Registration.sourceId hregistration, hid, hx] at hr
      obtain rfl := Option.some.inj hr
      exact hactive.trans hinactive
    · obtain rfl := Option.some.inj hstep
      exact .quiet id rfl

theorem keepsOut_step (hi : RegistryInv svc s) {a : RegistryAction}
    (hstep : registryStep svc s a = some t) : KeepsOut sourceId s t := by
  cases a with
  | insert call drawn fault => exact keepsOut_insert hstep
  | select i fault => exact keepsOut_select hstep
  | ingest a =>
    obtain ⟨j, hj, rfl⟩ := Option.map_eq_some_iff.mp hstep
    refine .quiet ?_ rfl
    rintro ⟨r, hr, hinactive⟩
    obtain ⟨r', hr', -, hstays⟩ := (ingestStep_sources hi.ingest hj).get? hr
    exact ⟨r', hr', hstays hinactive⟩

end

theorem deactivation_final {svc : IngestionService} {s t : RegistryState} {sourceId : UUID}
    (hs : (registrySystem svc).Reachable s) (h : Deactivated s.registry.sources sourceId)
    {actions : List RegistryAction} (hrun : (registrySystem svc).run s actions = some t) :
    StaysOut s t sourceId := by
  have hkeeps : KeepsOut sourceId s t :=
    (registrySystem svc).run_relates (I := RegistryInv svc) (R := KeepsOut sourceId)
      (fun _ => .quiet id rfl) (fun _ _ _ => KeepsOut.trans) (fun _ a _ hi hstep => hi.step a hstep)
      (fun _ _ _ hi hstep => keepsOut_step hi hstep) (registryInv_reachable hs) hrun
  obtain ⟨new, hnew, hsays⟩ := hkeeps.returned
  have hdeactivated := hkeeps.deactivated h
  exact ⟨hdeactivated, ⟨new, hnew, hsays h⟩, hdeactivated.hidden⟩

def closingActions : List RegistryAction :=
  [.insert (registerFilesystemSource "/srv/docs" "internal" "acme" ["team"]) 1 none,
    .ingest (.deactivateSource 1 20 Transaction.noFaults)]

def laterActions : List RegistryAction :=
  [.insert (registerFilesystemSource "/srv/docs" "internal" "acme" ["team"]) 2 none, .select 0 none,
    .ingest (.begin sampleCall sampleFiles Transaction.noFaults),
    .ingest (.lookUp 0 Transaction.noFaults), .ingest (.write 0 sampleDraws Transaction.noFaults)]

theorem closing_then_later :
    (((registrySystem sampleService).run (registrySystem sampleService).start closingActions).bind
      fun s => ((registrySystem sampleService).run s laterActions).map fun t =>
        (((s.registry.sources.get? 1).map SourceRow.isActive), t.answers.length,
          t.ingest.db.chunks.rows.map Chunk.chunkId)) = some (some false, 2, [6]) := by
  decide +kernel

theorem deactivation_final_later :
    ∃ s t : RegistryState, t.ingest.db.chunks.rows.map Chunk.chunkId = [6] ∧ StaysOut s t 1 := by
  obtain ⟨s, hs, hlater⟩ := Option.bind_eq_some_iff.mp closing_then_later
  obtain ⟨t, ht, hpair⟩ := Option.map_eq_some_iff.mp hlater
  simp only [Prod.mk.injEq] at hpair
  obtain ⟨hinactive, -, hchunks⟩ := hpair
  obtain ⟨r, hr, hfalse⟩ := Option.map_eq_some_iff.mp hinactive
  exact ⟨s, t, hchunks, deactivation_final ⟨closingActions, hs⟩ ⟨r, hr, hfalse⟩ ht⟩

end GroundGraph.Retrieval

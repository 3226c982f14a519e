import GroundGraph.Ingestion.ChunkLocators
import GroundGraph.Ingestion.LiveChunks

/-! What a stored chunk goes back to: a call that is finished, the file that it read below the
root of a registered source, and the raw object of that file, which the object store still has.
-/

set_option autoImplicit false

namespace GroundGraph.Ingestion

open Transaction

structure Registration where
  sourceId : UUID
  uri : String
  tenantId : String
  allowedPrincipals : List String

def SourceRow.registration (r : SourceRow) : Registration :=
  ⟨r.sourceId, r.uri, r.tenantId, r.allowedPrincipals⟩

def SourceDescriptor.registration (s : SourceDescriptor) : Registration :=
  ⟨s.sourceId, s.uri, s.tenantId, s.allowedPrincipals⟩

def registrations (sources : KeyedTable SourceRow.sourceId) : List Registration :=
  sources.rows.map SourceRow.registration

theorem registration_eq {sources : KeyedTable SourceRow.sourceId} {r r' : Registration}
    (hr : r ∈ registrations sources) (hr' : r' ∈ registrations sources) (hid : r.sourceId = r'.sourceId) : r = r' := by
  obtain ⟨x, hx, rfl⟩ := List.mem_map.mp hr
  obtain ⟨y, hy, rfl⟩ := List.mem_map.mp hr'
  rw [sources.eq_of_mem hx hy hid]

/-- `f"sources/{source_id}/{checksum}/raw"`. -/
def rawKey (sourceId : UUID) (checksum : List Char) : List Char :=
  "sources/".toList ++ strUuid sourceId ++ '/' :: checksum ++ "/raw".toList

theorem length_strUuid (u : UUID) : (strUuid u).length = 36 := by
  simp [strUuid]

theorem rawKey_checksum {i j : UUID} {c d : List Char} (h : rawKey i c = rawKey j d) : c = d := by
  unfold rawKey at h
  have hhead := List.append_cancel_right h
  obtain ⟨-, htail⟩ := List.append_inj hhead (by simp [length_strUuid])
  exact (List.cons.inj htail).2

def StoredObject.Raw (sha256 : List UInt8 → List Char) (o : StoredObject) : Prop :=
  ∃ sourceId, o.key = rawKey sourceId (sha256 o.data)

/-- The file lay below the root of its source, the source is a registered one, and there is a raw
object with the checksum of the file. -/
structure Filed (svc : IngestionService) (sources : KeyedTable SourceRow.sourceId)
    (objects : ObjectStore) (acq : Acquired) : Prop where
  sourceId : acq.source.sourceId = acq.call.sourceId
  registered : acq.source.registration ∈ registrations sources
  read : ∃ files : FileSystem, acq.rawBytes = files.readBytes acq.canonicalLocator ∧
    files.isRelativeTo acq.canonicalLocator (files.resolve acq.source.uri) = true ∧
    files.size acq.canonicalLocator ≤ maxFileSize
  checksum : acq.checksum = svc.sha256 acq.rawBytes
  kept : ∃ o, objects.get? (rawKey acq.call.sourceId acq.checksum) = some o ∧
    svc.sha256 o.data = acq.checksum

section
variable {svc : IngestionService} {sources : KeyedTable SourceRow.sourceId} {acq : Acquired}
  {objects objects' : ObjectStore} {faults : IngestStep → Option IngestError}

theorem Filed.mono (h : Filed svc sources objects acq)
    (hkeep : ∀ k o, objects.get? k = some o → objects'.get? k = some o) :
    Filed svc sources objects' acq := by
  obtain ⟨o, ho, hsum⟩ := h.kept
  exact ⟨h.sourceId, h.registered, h.read, h.checksum, o, hkeep _ o ho, hsum⟩

theorem acquireFile_read {files : FileSystem} {call : IngestCall} {source : SourceDescriptor}
    (h : acquireFile svc files call source faults = .ok acq) :
    acq.source = source ∧
      files.isRelativeTo acq.canonicalLocator (files.resolve source.uri) = true ∧
      files.size acq.canonicalLocator ≤ maxFileSize := by
  obtain ⟨path, hpath, h⟩ := Except.bind_ok_iff.mp h
  obtain ⟨u, hsize, h⟩ := Except.bind_ok_iff.mp h
  obtain ⟨rawBytes, -, h⟩ := Except.bind_ok_iff.mp h
  obtain rfl := Except.ok.inj h
  have hresolve := (failing_ok_iff.mp hpath).2
  have hcheck := (failing_ok_iff.mp hsize).2
  unfold resolveSafePath at hresolve
  unfold checkSize at hcheck
  split at hresolve
  · cases hresolve
  · split at hresolve
    · rename_i hrelative
      obtain rfl := Except.ok.inj hresolve
      split at hcheck
      · cases hcheck
      · rename_i hsize
        exact ⟨rfl, hrelative, Nat.le_of_not_lt hsize⟩
    · cases hresolve

theorem getSource_row {sourceId : UUID} {source : SourceDescriptor} {db db' : DocumentDb}
    (h : getSource sourceId faults db = .returned (some source) db') :
    source.sourceId = sourceId ∧ source.registration ∈ registrations db.sources := by
  obtain ⟨-, hsource, -⟩ := query_returned_iff.mp h
  split at hsource
  · cases hsource
  · rename_i row hrow
    obtain ⟨hmem, hid⟩ := db.sources.get?_some_iff.mp hrow
    unfold sourceToDomain at hsource
    split at hsource
    · cases hsource
    · obtain rfl := Option.some.inj (Except.ok.inj hsource)
      exact ⟨hid, List.mem_map_of_mem hmem⟩

theorem acquireAndValidate_source {files : FileSystem} {call : IngestCall} {db db' : DocumentDb}
    (h : acquireAndValidate svc files call faults db = (db', .ok acq)) :
    acq.source.sourceId = call.sourceId ∧ acq.source.registration ∈ registrations db.sources ∧
      files.isRelativeTo acq.canonicalLocator (files.resolve acq.source.uri) = true ∧
      files.size acq.canonicalLocator ≤ maxFileSize := by
  unfold acquireAndValidate at h
  rcases unitOfWork_cases .commitRead (getSource call.sourceId) faults db with
    ⟨e, hread⟩ | ⟨found, t, hbody, -, hread⟩
  · simp [hread] at h
  · cases found with
    | none => simp [hread] at h
    | some source =>
      simp only [hread, Prod.mk.injEq] at h
      obtain ⟨rfl, hrelative, hsize⟩ := acquireFile_read h.2
      obtain ⟨hid, hregistered⟩ := getSource_row hbody
      exact ⟨hid, hregistered, hrelative, hsize⟩

theorem storeRaw_keeps (acq : Acquired) (faults : IngestStep → Option IngestError)
    (objects : ObjectStore) {k : List Char} {o : StoredObject} (ho : objects.get? k = some o) :
    (storeRaw acq faults objects).1.get? k = some o := by
  rcases storeRaw_cases acq faults objects with heq | ⟨hnone, heq⟩
  · rw [heq, ho]
  · rw [heq, objects.get?_upsert]
    split
    · rename_i hk
      rw [hk, hnone] at ho
      cases ho
    · exact ho

theorem storeRaw_raw (hraw : ∀ o ∈ objects.rows, o.Raw svc.sha256)
    (hsum : acq.checksum = svc.sha256 acq.rawBytes) :
    ∀ o ∈ (storeRaw acq faults objects).1.rows, o.Raw svc.sha256 := by
  rcases storeRaw_cases acq faults objects with heq | ⟨-, heq⟩
  · rwa [heq]
  · intro o ho
    rw [heq] at ho
    rcases KeyedTable.mem_upsert ho with ho | rfl
    · exact hraw o ho
    · refine ⟨acq.call.sourceId, ?_⟩
      show rawKey acq.call.sourceId acq.checksum = rawKey acq.call.sourceId (svc.sha256 acq.rawBytes)
      rw [hsum]

theorem storeRaw_ok (h : storeRaw acq faults objects = (objects', .ok ())) :
    ∃ o, objects'.get? acq.rawObject.key = some o := by
  unfold storeRaw at h
  split at h
  · cases h
  · split at h
    · rename_i hsome
      obtain ⟨rfl, -⟩ := Prod.mk.inj h
      exact Option.isSome_iff_exists.mp hsome
    · split at h
      · cases h
      · obtain ⟨rfl, -⟩ := Prod.mk.inj h
        exact ⟨acq.rawObject, by rw [objects.get?_upsert, if_pos rfl]⟩

def SourceRow.deactivate (now : Instant) (r : SourceRow) : SourceRow :=
  { r with isActive := false, deactivatedAt := some now }

theorem SourceRow.deactivate_sourceId (now : Instant) (r : SourceRow) :
    (r.deactivate now).sourceId = r.sourceId := rfl

def SourcesStep (sources sources' : KeyedTable SourceRow.sourceId) : Prop :=
  sources' = sources ∨
    ∃ sourceId now, sources' = sources.modifyAt sourceId (SourceRow.deactivate now)
      (SourceRow.deactivate_sourceId now)

theorem sources_deactivateSource (db : DocumentDb) (sourceId : UUID) (now : Instant) :
    SourcesStep db.sources
      (unitOfWork .commit (deactivateSource sourceId now) faults db).1.sources := by
  rcases unitOfWork_cases .commit (deactivateSource sourceId now) faults db with
    ⟨e, heq⟩ | ⟨u, m, hbody, -, heq⟩
  · rw [heq]
    exact Or.inl rfl
  · rw [heq]
    obtain ⟨-, hm⟩ := perform_returned_iff.mp hbody
    split at hm
    · cases hm
    · obtain ⟨-, rfl⟩ := Prod.mk.inj (Except.ok.inj hm)
      exact Or.inr ⟨sourceId, now, rfl⟩

theorem sources_deleteDocument (db : DocumentDb) (documentId : UUID) :
    (unitOfWork .commit (deleteDocument documentId) faults db).1.sources = db.sources := by
  rcases unitOfWork_cases .commit (deleteDocument documentId) faults db with
    ⟨e, heq⟩ | ⟨u, m, hbody, -, heq⟩
  · rw [heq]
  · rw [heq]
    obtain ⟨_, m₁, hpointer, hclear⟩ := bind_returned_iff.mp hbody
    obtain ⟨-, rfl⟩ := write_returned_iff.mp hpointer
    obtain ⟨-, rfl⟩ := write_returned_iff.mp hclear
    rfl

variable {s t : IngestState}

theorem ingestStep_sources (hi : IngestInv svc s) {a : IngestAction}
    (hstep : ingestStep svc s a = some t) : SourcesStep s.db.sources t.db.sources := by
  cases a with
  | begin call files faults => exact Or.inl (by rw [begin_db hstep])
  | lookUp i faults => exact Or.inl (by rw [lookUp_db hstep])
  | write i draws faults =>
    obtain ⟨acq, found, hcall, hfresh, -, ⟨hdb, -⟩ | ⟨r, hfinish, -⟩⟩ := ingestStep_write_cases hstep
    · exact Or.inl (by rw [hdb])
    · obtain ⟨heffect, -⟩ := finish_returned hi.agrees.toWellFormed hfresh.editions
        ((hi.calls _ (List.mem_of_getElem? hcall)).found found rfl) hfinish
      exact Or.inl heffect.sources_eq
  | deleteDocument documentId faults =>
    obtain rfl := Option.some.inj hstep
    exact Or.inl (sources_deleteDocument s.db documentId)
  | deactivateSource sourceId now faults =>
    obtain rfl := Option.some.inj hstep
    exact sources_deactivateSource s.db sourceId now

theorem SourcesStep.registrations_eq {sources' : KeyedTable SourceRow.sourceId}
    (h : SourcesStep sources sources') : registrations sources' = registrations sources := by
  rcases h with rfl | ⟨sourceId, now, rfl⟩
  · rfl
  · exact sources.map_modifyAt sourceId (SourceRow.deactivate now) (SourceRow.deactivate_sourceId now)
      fun _ => rfl

structure FilesInv (svc : IngestionService) (sources : KeyedTable SourceRow.sourceId)
    (s : IngestState) : Prop where
  registered : registrations s.db.sources = registrations sources
  objects : ∀ o ∈ s.world.objects.rows, o.Raw svc.sha256
  calls : ∀ c ∈ s.calls, Filed svc sources s.world.objects c.acq
  answers : ∀ a ∈ s.answers, Filed svc sources s.world.objects a.1

theorem FilesInv.later (h : FilesInv svc sources s) (hobjects : t.world.objects = s.world.objects)
    (hregistered : registrations t.db.sources = registrations s.db.sources)
    (hcalls : ∀ c ∈ t.calls, ∃ c' ∈ s.calls, c.acq = c'.acq)
    (hanswers : ∀ a ∈ t.answers, a ∈ s.answers ∨ ∃ c ∈ s.calls, a.1 = c.acq) :
    FilesInv svc sources t where
  registered := hregistered.trans h.registered
  objects := by
    rw [hobjects]
    exact h.objects
  calls := by
    intro c hc
    obtain ⟨c', hc', heq⟩ := hcalls c hc
    rw [hobjects, heq]
    exact h.calls c' hc'
  answers := by
    intro a ha
    rw [hobjects]
    rcases hanswers a ha with ha | ⟨c, hc, heq⟩
    · exact h.answers a ha
    · rw [heq]
      exact h.calls c hc

theorem FilesInv.begin (h : FilesInv svc sources s) {call : IngestCall} {files : FileSystem}
    (hstep : ingestStep svc s (.begin call files faults) = some t) : FilesInv svc sources t := by
  rcases acquireAndValidate_cases svc files call faults s.db with
    ⟨e, hacquire⟩ | ⟨acq, hacquire, hreads, -⟩
  · simp only [ingestStep, hacquire, Option.some.injEq] at hstep
    subst hstep
    exact h.later rfl rfl (fun c hc => ⟨c, hc, rfl⟩) fun a ha => Or.inl ha
  · obtain ⟨hid, hregistered, hrelative, hsize⟩ := acquireAndValidate_source hacquire
    have hraw : ∀ o ∈ (storeRaw acq faults s.world.objects).1.rows, o.Raw svc.sha256 :=
      storeRaw_raw h.objects hreads.checksum_eq
    have hkeeps : ∀ k o, s.world.objects.get? k = some o →
        (storeRaw acq faults s.world.objects).1.get? k = some o :=
      fun _ _ => storeRaw_keeps acq faults s.world.objects
    simp only [ingestStep, hacquire] at hstep
    split at hstep
    · rename_i objects e hstore
      obtain rfl := Option.some.inj hstep
      rw [hstore] at hraw hkeeps
      exact ⟨h.registered, hraw, fun c hc => (h.calls c hc).mono hkeeps,
        fun a ha => (h.answers a ha).mono hkeeps⟩
    · rename_i objects hstore
      obtain rfl := Option.some.inj hstep
      rw [hstore] at hraw hkeeps
      refine ⟨h.registered, hraw, ?_, fun a ha => (h.answers a ha).mono hkeeps⟩
      intro c hc
      rcases List.mem_append.mp hc with hc | hc
      · exact (h.calls c hc).mono hkeeps
      · rw [List.mem_singleton.mp hc]
        obtain ⟨o, ho⟩ := storeRaw_ok hstore
        obtain ⟨sourceId, hkey⟩ := hraw o (objects.get?_some_iff.mp ho).1
        have hsum : svc.sha256 o.data = acq.checksum :=
          rawKey_checksum (hkey.symm.trans (objects.get?_some_iff.mp ho).2)
        refine ⟨by rw [hreads.call_eq, hid], ?_, ⟨files, ?_, hrelative, hsize⟩, hreads.checksum_eq, o,
          ho, hsum⟩
        · rw [← h.registered]
          exact hregistered
        · rw [hreads.rawBytes_eq, hreads.canonicalLocator_eq]

theorem ingestStep_write_objects {i : Nat} {draws : Draws}
    (hstep : ingestStep svc s (.write i draws faults) = some t) :
    t.world.objects = s.world.objects := by
  simp only [ingestStep] at hstep
  split at hstep
  · split at hstep
    · split at hstep <;>
        (obtain rfl := Option.some.inj hstep; rfl)
    · cases hstep
  · cases hstep

theorem FilesInv.step (h : FilesInv svc sources s) (hi : IngestInv svc s) (a : IngestAction)
    (hstep : ingestStep svc s a = some t) : FilesInv svc sources t := by
  have hregistered := (ingestStep_sources hi hstep).registrations_eq
  cases a with
  | begin call files faults => exact h.begin hstep
  | lookUp i faults =>
    simp only [ingestStep] at hstep
    split at hstep
    · rename_i acq hcall
      split at hstep
      · obtain rfl := Option.some.inj hstep
        refine h.later rfl hregistered (fun c hc => ?_) fun a ha => Or.inl ha
        rcases List.mem_or_eq_of_mem_set hc with hc | rfl
        · exact ⟨c, hc, rfl⟩
        · exact ⟨_, List.mem_of_getElem? hcall, rfl⟩
      · obtain rfl := Option.some.inj hstep
        exact h.later rfl hregistered (fun c hc => ⟨c, List.mem_of_mem_eraseIdx hc, rfl⟩)
          fun a ha => Or.inl ha
    · cases hstep
  | write i draws faults =>
    obtain ⟨acq, found, hcall, -, hcalls, hends⟩ := ingestStep_write_cases hstep
    refine h.later (ingestStep_write_objects hstep) hregistered ?_ fun a ha => ?_
    · rw [hcalls]
      exact fun c hc => ⟨c, List.mem_of_mem_eraseIdx hc, rfl⟩
    · rcases hends with ⟨-, hanswers⟩ | ⟨r, -, hanswers⟩
      · exact Or.inl (hanswers ▸ ha)
      · rw [hanswers] at ha
        rcases List.mem_append.mp ha with ha | ha
        · exact Or.inl ha
        · exact Or.inr ⟨_, List.mem_of_getElem? hcall, by rw [List.mem_singleton.mp ha]⟩
  | deleteDocument documentId faults =>
    obtain rfl := Option.some.inj hstep
    exact h.later rfl hregistered (fun c hc => ⟨c, hc, rfl⟩) fun a ha => Or.inl ha
  | deactivateSource sourceId now faults =>
    obtain rfl := Option.some.inj hstep
    exact h.later rfl hregistered (fun c hc => ⟨c, hc, rfl⟩) fun a ha => Or.inl ha

theorem filesInv_start (svc : IngestionService) (sources : KeyedTable SourceRow.sourceId) :
    FilesInv svc sources (ingestSystem svc sources).start :=
  ⟨rfl, List.forall_mem_nil _, List.forall_mem_nil _, List.forall_mem_nil _⟩

theorem filesInv_reachable (h : (ingestSystem svc sources).Reachable s) : FilesInv svc sources s :=
  ((ingestSystem svc sources).reachable_invariant
    (I := fun s => IngestInv svc s ∧ FilesInv svc sources s)
    ⟨ingestInv_start svc sources, filesInv_start svc sources⟩
    (fun _ a _ hs hstep => ⟨hs.1.step a hstep, hs.2.step hs.1 a hstep⟩) h).2

/-- The chunk is part of the text that is parsed from the file of a call, which stored it as the
version of the chunk. -/
structure CutFrom (svc : IngestionService) (s : IngestState) (acq : Acquired) (c : Chunk) : Prop where
  answered : (acq, ⟨c.documentId, c.versionId, true, acq.source.tenantId⟩) ∈ s.answers
  stored : s.db.Stored acq.key c.documentId c.versionId
  parsed : ∃ content metadata, parse svc acq = .ok (content, metadata) ∧ c.content <:+: content.body
  text : c.content ≠ []
  allowedPrincipals : c.allowedPrincipals = acq.source.allowedPrincipals

theorem cut_content {config : ChunkerConfig} {content : ParsedContent} {cut : Cut}
    (h : cut ∈ cuts config content) :
    cut.piece.content <:+: content.body ∧ cut.piece.content ≠ [] := by
  constructor
  · exact (cuts_content_at config content cut h).1.isInfix.trans (List.drop_suffix _ _).isInfix
  · obtain ⟨sec, -, hpiece⟩ := List.mem_flatMap.mp h
    obtain ⟨k, hk, rfl⟩ := List.mem_map.mp hpiece
    exact chunkText_content_ne_nil k hk

theorem documentChunks_cut {draws : Draws} {documentId versionId : UUID} {content : ParsedContent}
    {c : Chunk} (hc : c ∈ documentChunks svc acq draws documentId versionId content) :
    c.documentId = documentId ∧ c.versionId = versionId ∧ c.content <:+: content.body ∧
      c.content ≠ [] ∧ c.allowedPrincipals = acq.source.allowedPrincipals := by
  obtain ⟨hdocument, hversion⟩ := chunk_lineage hc
  obtain ⟨i, hi, rfl⟩ := List.mem_mapIdx.mp hc
  obtain ⟨hpart, htext⟩ := cut_content (List.getElem_mem hi)
  exact ⟨hdocument, hversion, hpart, htext, rfl⟩

theorem chunk_cutFrom (hi : IngestInv svc s) {c : Chunk} (hc : c ∈ s.db.chunks.rows) :
    ∃ acq, CutFrom svc s acq c := by
  have hof : c ∈ s.db.chunksOf c.versionId := List.mem_filter.mpr ⟨hc, by simp⟩
  obtain ⟨e, he, hid⟩ : ∃ e ∈ s.db.editions, e.versionId = c.versionId := by
    by_contra hnone
    rw [(hi.unstored c.versionId fun e he hid => hnone ⟨e, he, hid⟩).1] at hof
    cases hof
  obtain ⟨p, hp, hdocument⟩ := hi.agrees.toWellFormed.exists_place he
  have hstored : s.db.Stored ⟨p.sourceId, p.sourceLocator, e.checksum⟩ e.documentId e.versionId :=
    ⟨hdocument ▸ hp, he⟩
  obtain ⟨acq, hkey, hanswered, draws, content, metadata, hparse, hchunks, -⟩ :=
    hi.made _ _ _ hstored
  rw [hid] at hchunks hanswered hstored
  rw [hchunks] at hof
  obtain ⟨hdoc, -, hpart, htext, hprincipals⟩ := documentChunks_cut hof
  rw [← hdoc] at hanswered hstored
  exact ⟨acq, hanswered, hkey ▸ hstored, ⟨content, metadata, hparse, hpart⟩, htext, hprincipals⟩

end

end GroundGraph.Ingestion

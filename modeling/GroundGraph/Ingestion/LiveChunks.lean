import GroundGraph.Ingestion.Idempotency

/-! Which chunks are of the current version of a document of an active source, and which of
them a step of the ingestion takes out: those of the document that it deletes, of the source
that it deactivates, or of the version that it replaces.
-/

set_option autoImplicit false

namespace GroundGraph.Ingestion

open Transaction

/-- The document points at the version of the chunk, and its source is active. -/
def Live (db : DocumentDb) (c : Chunk) : Prop :=
  ∃ d ∈ db.documents.rows, d.documentId = c.documentId ∧ d.currentVersionId = some c.versionId ∧
    SourceActive db d.sourceId

def GoesThrough {α : Type} (body : DbTransaction α) (faults : IngestStep → Option IngestError)
    (db : DocumentDb) : Prop :=
  ∃ a m, unitOfWork .commit body faults db = (m, .ok a)

/-- The action takes the chunk out of retrieval. A write does so when it stores another
content for the file of the chunk than the one that the chunk is of. -/
def Retires (svc : IngestionService) (s : IngestState) : IngestAction → Chunk → Prop
  | .write i draws faults, c =>
    ∃ acq found, s.calls[i]? = some ⟨acq, some found⟩ ∧ found.answer = none ∧
      GoesThrough (finish svc acq draws found) faults s.db ∧
      acq.key.place c.documentId ∈ s.db.places ∧
      acq.key.edition c.documentId c.versionId ∉ s.db.editions
  | .deleteDocument documentId faults, c =>
    GoesThrough (deleteDocument documentId) faults s.db ∧ c.documentId = documentId
  | .deactivateSource sourceId now faults, c =>
    GoesThrough (deactivateSource sourceId now) faults s.db ∧
      ∃ d ∈ s.db.documents.rows, d.documentId = c.documentId ∧ d.sourceId = sourceId
  | .begin _ _ _, _ => False
  | .lookUp _ _, _ => False

variable {svc : IngestionService} {s t : IngestState} {db db' : DocumentDb} {c : Chunk}
  {document : ParsedDocument} {faults : IngestStep → Option IngestError}

theorem goesThrough_cases {α : Type} (body : DbTransaction α)
    (faults : IngestStep → Option IngestError) (db : DocumentDb) :
    (¬ GoesThrough body faults db ∧ (unitOfWork .commit body faults db).1 = db) ∨
      (GoesThrough body faults db ∧ ∃ a m, body faults db = .returned a m ∧
        (unitOfWork .commit body faults db).1 = m) := by
  rcases unitOfWork_cases .commit body faults db with ⟨e, heq⟩ | ⟨a, m, hbody, -, heq⟩
  · refine Or.inl ⟨?_, by rw [heq]⟩
    rintro ⟨a, m, hok⟩
    rw [heq] at hok
    cases hok
  · exact Or.inr ⟨⟨a, m, heq⟩, a, m, hbody, by rw [heq]⟩

theorem live_iff {d : DocumentRow} (hd : d ∈ db.documents.rows) (hid : d.documentId = c.documentId) :
    Live db c ↔ d.currentVersionId = some c.versionId ∧ SourceActive db d.sourceId := by
  constructor
  · rintro ⟨d', hd', hid', hpointer, hactive⟩
    obtain rfl := db.documents.eq_of_mem hd' hd (hid'.trans hid.symm)
    exact ⟨hpointer, hactive⟩
  · rintro ⟨hpointer, hactive⟩
    exact ⟨d, hd, hid, hpointer, hactive⟩

theorem live_congr (hdocuments : db'.documents = db.documents) (hsources : db'.sources = db.sources) :
    Live db' c ↔ Live db c := by
  unfold Live SourceActive
  rw [hdocuments, hsources]

theorem insertDocument_keeps {documentId : UUID} (h : insertDocument document db = .ok (documentId, db'))
    {d : DocumentRow} (hd : d ∈ db.documents.rows) :
    ∃ d' ∈ db'.documents.rows, d'.documentId = d.documentId ∧ d'.sourceId = d.sourceId ∧
      d'.currentVersionId = d.currentVersionId := by
  rcases insertDocument_cases h with ⟨row, -, -, rfl⟩ | ⟨-, -, hnew, rfl⟩
  · refine ⟨_, List.mem_map_of_mem hd, ?_⟩
    split <;> exact ⟨rfl, rfl, rfl⟩
  · exact ⟨d, List.mem_append_left _ hd, rfl, rfl, rfl⟩

theorem insertVersion_documents {documentId versionId : UUID}
    (h : insertVersion document documentId db = .ok (versionId, db')) :
    db'.documents = db.documents := by
  rcases insertVersion_cases h with ⟨_, _, _, rfl⟩ | ⟨_, _, _, _, rfl⟩ <;> rfl

theorem Upserted.pointer {result : ParsedDocument × Bool} {documentId versionId : UUID}
    {m m' : DocumentDb} (h : Upserted document db db' result documentId versionId m m')
    {d : DocumentRow} (hd : d ∈ db.documents.rows) :
    ∃ d' ∈ db'.documents.rows, d'.documentId = d.documentId ∧ d'.sourceId = d.sourceId ∧
      d'.currentVersionId =
        if d.documentId = documentId then some versionId else d.currentVersionId := by
  obtain ⟨d₁, hd₁, hid, hsource, hpointer⟩ := insertDocument_keeps h.insertDocument_eq hd
  have hm : d₁ ∈ m'.documents.rows := by
    rw [insertVersion_documents h.insertVersion_eq]
    exact hd₁
  rw [h.db_eq]
  refine ⟨_, List.mem_map_of_mem hm, ?_⟩
  by_cases hdoc : d₁.documentId = documentId
  · rw [if_pos hdoc, if_pos (hid ▸ hdoc)]
    exact ⟨hid, hsource, rfl⟩
  · rw [if_neg hdoc, if_neg (hid ▸ hdoc)]
    exact ⟨hid, hsource, hpointer⟩

theorem Upserted.sources_eq {result : ParsedDocument × Bool} {documentId versionId : UUID}
    {m m' : DocumentDb} (h : Upserted document db db' result documentId versionId m m') :
    db'.sources = db.sources := by
  have hversion := (insertVersion_sameElsewhere h.insertVersion_eq).sources_eq
  rw [h.db_eq]
  exact hversion.trans (insertDocument_sameElsewhere h.insertDocument_eq).sources_eq

theorem Upserted.version_eq_iff {result : ParsedDocument × Bool} {documentId versionId : UUID}
    {m m' : DocumentDb} (h : Upserted document db db' result documentId versionId m m')
    (hwf : WellFormed db) (hdistinct : DistinctEditions db) {v : UUID}
    (hstored : ∃ e ∈ db.editions, e.versionId = v) :
    versionId = v ↔ document.key.edition documentId v ∈ db.editions := by
  have hplace := hwf.insertDocument_hasPlace h.insertDocument_eq
  obtain ⟨-, hedition⟩ := insertVersion_editions h.insertVersion_eq
  simp only [editions_clearCurrent, hplace.editions_eq] at hedition
  rcases hedition with ⟨hfound, -⟩ | ⟨-, hnew, -⟩
  · constructor
    · rintro rfl
      exact hfound
    · intro hv
      exact congrArg Edition.versionId (hdistinct _ hfound _ hv rfl rfl)
  · constructor
    · rintro rfl
      obtain ⟨e, he, hid⟩ := hstored
      exact absurd hid (hnew e he).1
    · intro hv
      exact absurd rfl ((hnew _ hv).2 rfl)

theorem Live.version_stored (hlive : Live db c) (ha : Agrees db) :
    ∃ e ∈ db.editions, e.versionId = c.versionId := by
  obtain ⟨d, hd, -, hpointer, -⟩ := hlive
  obtain ⟨v, hv, hid, -⟩ := (ha.marks d hd).present c.versionId hpointer
  exact ⟨v.edition, mem_editions_iff.mpr ⟨v, hv, rfl⟩, hid⟩

theorem upsertDocument_live_iff {result : ParsedDocument × Bool} (ha : Agrees db)
    (hdistinct : DistinctEditions db)
    (h : upsertDocument document faults db = .returned result db') (hlive : Live db c) :
    Live db' c ↔ ¬ (document.key.place c.documentId ∈ db.places ∧
      document.key.edition c.documentId c.versionId ∉ db.editions) := by
  obtain ⟨documentId, versionId, m, m', hup⟩ := upsertDocument_cases h
  have hplace := ha.toWellFormed.insertDocument_hasPlace hup.insertDocument_eq
  have hversion := hup.version_eq_iff ha.toWellFormed hdistinct (hlive.version_stored ha)
  obtain ⟨d, hd, hid, hpointer, hactive⟩ := hlive
  obtain ⟨d', hd', hid', hsource', hpointer'⟩ := hup.pointer hd
  have hactive' : SourceActive db' d'.sourceId := by
    unfold SourceActive
    rw [hsource', hup.sources_eq]
    exact hactive
  have hdplace : d.place ∈ db.places := mem_places_iff.mpr ⟨d, hd, rfl⟩
  rw [live_iff hd' (hid'.trans hid), and_iff_left hactive', hpointer']
  by_cases hdoc : d.documentId = documentId
  · have hkey : document.key.place c.documentId ∈ db.places := by
      rw [← hid, hdoc, ← hplace.by_id _ hdplace hdoc]
      exact hdplace
    rw [if_pos hdoc, Option.some.injEq, hversion, ← hid, hdoc]
    rw [← hid, hdoc] at hkey
    simp [hkey]
  · rw [if_neg hdoc]
    refine iff_of_true hpointer fun hboth => hdoc ?_
    have hsame := place_eq_of_documentId hdplace hboth.1 hid
    have hthis := hplace.by_place _ hdplace (congrArg Place.sourceId hsame)
      (congrArg Place.sourceLocator hsame)
    exact congrArg Place.documentId hthis

theorem store_live_iff {acq : Acquired} {draws : Draws} {documentId : UUID} {r : IngestionResult}
    (ha : Agrees db) (hdistinct : DistinctEditions db)
    (h : store svc acq draws documentId faults db = .returned r db') (hlive : Live db c) :
    Live db' c ↔ ¬ (acq.key.place c.documentId ∈ db.places ∧
      acq.key.edition c.documentId c.versionId ∉ db.editions) := by
  obtain ⟨content, metadata, stored, m, m', hparse, hupsert, -, hcheckpoint, hchunks⟩ :=
    store_cases h
  obtain ⟨checkpoints, rfl, -⟩ := upsertCheckpoint_returned hcheckpoint
  obtain ⟨hsame, -, -⟩ := recorded_of_returned hparse hchunks rfl rfl
  rw [live_congr hsame.documents_eq hsame.sources_eq]
  exact (live_congr rfl rfl).trans (upsertDocument_live_iff ha hdistinct hupsert hlive)

theorem finish_live_iff {acq : Acquired} {draws : Draws} {found : Found} {r : IngestionResult}
    (ha : Agrees db) (hdistinct : DistinctEditions db)
    (h : finish svc acq draws found faults db = .returned r db') (hlive : Live db c) :
    Live db' c ↔ ¬ (found.answer = none ∧ acq.key.place c.documentId ∈ db.places ∧
      acq.key.edition c.documentId c.versionId ∉ db.editions) := by
  cases found with
  | resumed d v =>
    obtain ⟨-, rfl⟩ := pure_returned_iff.mp h
    simp [Found.answer, hlive]
  | current d v =>
    obtain ⟨_, m, hcheckpoint, hrest⟩ := bind_returned_iff.mp h
    obtain ⟨-, rfl⟩ := pure_returned_iff.mp hrest
    obtain ⟨checkpoints, rfl, -⟩ := upsertCheckpoint_returned hcheckpoint
    have hkept : Live { db with checkpoints := checkpoints } c := hlive
    simp [Found.answer, hkept]
  | changed d => simpa [Found.answer] using store_live_iff ha hdistinct h hlive
  | absent => simpa [Found.answer] using store_live_iff ha hdistinct h hlive

theorem write_live_iff {i : Nat} {draws : Draws} (hi : IngestInv svc s)
    (hstep : ingestStep svc s (.write i draws faults) = some t) (hlive : Live s.db c) :
    Live t.db c ↔ ¬ Retires svc s (.write i draws faults) c := by
  simp only [ingestStep] at hstep
  split at hstep
  · rename_i acq found hcall
    split at hstep
    · have hdb : t.db = (unitOfWork .commit (finish svc acq draws found) faults s.db).1 := by
        split at hstep <;>
          (rename_i heq; obtain rfl := Option.some.inj hstep; rw [heq]; rfl)
      have hretires : Retires svc s (.write i draws faults) c ↔
          GoesThrough (finish svc acq draws found) faults s.db ∧ found.answer = none ∧
            acq.key.place c.documentId ∈ s.db.places ∧
            acq.key.edition c.documentId c.versionId ∉ s.db.editions := by
        constructor
        · rintro ⟨acq', found', hcall', hanswer, hgoes, hplace, hedition⟩
          rw [hcall] at hcall'
          cases hcall'
          exact ⟨hgoes, hanswer, hplace, hedition⟩
        · rintro ⟨hgoes, hanswer, hplace, hedition⟩
          exact ⟨acq, found, hcall, hanswer, hgoes, hplace, hedition⟩
      rw [hdb, hretires]
      rcases goesThrough_cases (finish svc acq draws found) faults s.db with
        ⟨hfails, heq⟩ | ⟨hgoes, r, m, hbody, heq⟩
      · rw [heq]
        simp [hfails, hlive]
      · rw [heq, and_iff_right hgoes]
        exact finish_live_iff hi.agrees hi.distinct hbody hlive
    · cases hstep
  · cases hstep

theorem deleteDocument_live_iff {documentId : UUID} (hlive : Live db c) :
    Live (unitOfWork .commit (deleteDocument documentId) faults db).1 c ↔
      ¬ (GoesThrough (deleteDocument documentId) faults db ∧ c.documentId = documentId) := by
  rcases goesThrough_cases (deleteDocument documentId) faults db with
    ⟨hfails, heq⟩ | ⟨hgoes, u, m, hbody, heq⟩
  · rw [heq]
    simp [hfails, hlive]
  · obtain ⟨_, m₁, hpointer, hclear⟩ := bind_returned_iff.mp hbody
    obtain ⟨_, rfl⟩ := write_returned_iff.mp hpointer
    obtain ⟨_, rfl⟩ := write_returned_iff.mp hclear
    obtain ⟨d, hd, hid, hcurrent, hactive⟩ := hlive
    rw [heq, and_iff_right hgoes]
    have hactive' : SourceActive (clearCurrent documentId (setCurrentVersion documentId none db))
        d.sourceId := hactive
    have hmem : (if d.documentId = documentId then DocumentRow.point none d else d) ∈
        (clearCurrent documentId (setCurrentVersion documentId none db)).documents.rows :=
      List.mem_map_of_mem hd
    by_cases hdoc : d.documentId = documentId
    · rw [if_pos hdoc] at hmem
      rw [live_iff hmem hid]
      simp [DocumentRow.point, ← hid, hdoc]
    · rw [if_neg hdoc] at hmem
      rw [live_iff hmem hid, ← hid]
      simp [hcurrent, hactive', hdoc]

theorem sourceActive_modifyAt_iff {sourceId k : UUID} {now : Instant} (hactive : SourceActive db k) :
    SourceActive { db with
      sources := db.sources.modifyAt sourceId
        (fun r => { r with isActive := false, deactivatedAt := some now }) fun _ => rfl } k ↔
      k ≠ sourceId := by
  constructor
  · rintro ⟨source, hsource, rfl, hstill⟩ hid
    obtain ⟨x, -, rfl⟩ := List.mem_map.mp hsource
    by_cases hx : x.sourceId = sourceId
    · rw [if_pos hx] at hstill
      cases hstill
    · rw [if_neg hx] at hid
      exact hx hid
  · intro hne
    obtain ⟨source, hsource, rfl, hstill⟩ := hactive
    have hmem := List.mem_map_of_mem (f := fun r : SourceRow =>
      if r.sourceId = sourceId then { r with isActive := false, deactivatedAt := some now } else r)
      hsource
    rw [if_neg hne] at hmem
    exact ⟨source, hmem, rfl, hstill⟩

theorem deactivateSource_live_iff {sourceId : UUID} {now : Instant} (hlive : Live db c) :
    Live (unitOfWork .commit (deactivateSource sourceId now) faults db).1 c ↔
      ¬ (GoesThrough (deactivateSource sourceId now) faults db ∧
        ∃ d ∈ db.documents.rows, d.documentId = c.documentId ∧ d.sourceId = sourceId) := by
  rcases goesThrough_cases (deactivateSource sourceId now) faults db with
    ⟨hfails, heq⟩ | ⟨hgoes, u, m, hbody, heq⟩
  · rw [heq]
    simp [hfails, hlive]
  · obtain ⟨_, hm⟩ := perform_returned_iff.mp hbody
    split at hm
    · cases hm
    · obtain ⟨_, rfl⟩ := Prod.mk.inj (Except.ok.inj hm)
      obtain ⟨d, hd, hid, hcurrent, hactive⟩ := hlive
      have hthis : (∃ d' ∈ db.documents.rows, d'.documentId = c.documentId ∧
          d'.sourceId = sourceId) ↔ d.sourceId = sourceId := by
        constructor
        · rintro ⟨d', hd', hid', hsource⟩
          rwa [db.documents.eq_of_mem hd hd' (hid.trans hid'.symm)]
        · exact fun hsource => ⟨d, hd, hid, hsource⟩
      rw [heq, and_iff_right hgoes, hthis]
      refine (live_iff ?_ hid).trans ((and_iff_right hcurrent).trans
        (sourceActive_modifyAt_iff hactive))
      exact hd

theorem begin_db {call : IngestCall} {files : FileSystem}
    (hstep : ingestStep svc s (.begin call files faults) = some t) : t.db = s.db := by
  rcases acquireAndValidate_cases svc files call faults s.db with
    ⟨e, hacquire⟩ | ⟨acq, hacquire, -⟩
  · simp only [ingestStep, hacquire, Option.some.injEq] at hstep
    rw [← hstep]
    rfl
  · simp only [ingestStep, hacquire] at hstep
    split at hstep <;>
      (obtain rfl := Option.some.inj hstep; rfl)

theorem lookUp_db {i : Nat} (hstep : ingestStep svc s (.lookUp i faults) = some t) :
    t.db = s.db := by
  simp only [ingestStep] at hstep
  split at hstep
  · split at hstep <;>
      (obtain rfl := Option.some.inj hstep; rfl)
  · cases hstep

/-- A chunk that is live stays so, unless the step takes it out. -/
theorem ingestStep_live_iff {a : IngestAction} (hi : IngestInv svc s)
    (hstep : ingestStep svc s a = some t) (hlive : Live s.db c) :
    Live t.db c ↔ ¬ Retires svc s a c := by
  cases a with
  | begin call files faults =>
    rw [begin_db hstep]
    exact iff_of_true hlive id
  | lookUp i faults =>
    rw [lookUp_db hstep]
    exact iff_of_true hlive id
  | write i draws faults => exact write_live_iff hi hstep hlive
  | deleteDocument documentId faults =>
    obtain rfl := Option.some.inj hstep
    exact deleteDocument_live_iff hlive
  | deactivateSource sourceId now faults =>
    obtain rfl := Option.some.inj hstep
    exact deactivateSource_live_iff hlive

theorem ingestStep_keeps_chunk {a : IngestAction} (hi : IngestInv svc s)
    (hstep : ingestStep svc s a = some t) (hc : c ∈ s.db.chunks.rows) : c ∈ t.db.chunks.rows := by
  cases a with
  | begin call files faults => rwa [begin_db hstep]
  | lookUp i faults => rwa [lookUp_db hstep]
  | write i draws faults =>
    obtain ⟨acq, found, hcall, hfresh, -, ⟨hdb, -⟩ | ⟨r, hfinish, -⟩⟩ := ingestStep_write_cases hstep
    · rwa [hdb]
    · have hright := hi.calls _ (List.mem_of_getElem? hcall)
      obtain ⟨heffect, -⟩ := finish_returned hi.agrees.toWellFormed hfresh.editions
        (hright.found found rfl) hfinish
      have hrecorded := heffect.recorded
      generalize r.createdNewVersion = created at hrecorded
      cases hrecorded with
      | nothing hchunks => rwa [hchunks]
      | chunksAndEvent _ hchunks =>
        rw [hchunks]
        exact List.mem_append_left _ hc
  | deleteDocument documentId faults =>
    obtain rfl := Option.some.inj hstep
    show c ∈ (unitOfWork .commit (deleteDocument documentId) faults s.db).1.chunks.rows
    rwa [(quiet_deleteDocument documentId faults s.db).chunks_eq]
  | deactivateSource sourceId now faults =>
    obtain rfl := Option.some.inj hstep
    show c ∈ (unitOfWork .commit (deactivateSource sourceId now) faults s.db).1.chunks.rows
    rwa [(quiet_deactivateSource sourceId now faults s.db).chunks_eq]

end GroundGraph.Ingestion

import GroundGraph.Ingestion.Catalogue
import GroundGraph.Ingestion.Service

/-! What the two halves of the unit of work do: what the lookups have found when they
return, and what the writes after them have changed.
-/

set_option autoImplicit false

namespace GroundGraph.Ingestion

open Transaction

variable {svc : IngestionService} {acq : Acquired} {draws : Draws} {db db' : DocumentDb}
  {faults : IngestStep → Option IngestError}

structure SameDocuments (db db' : DocumentDb) : Prop where
  sources_eq : db'.sources = db.sources
  documents_eq : db'.documents = db.documents
  versions_eq : db'.versions = db.versions

theorem SameDocuments.trans {m : DocumentDb} (h : SameDocuments db m) (h' : SameDocuments m db') :
    SameDocuments db db' :=
  ⟨h'.sources_eq.trans h.sources_eq, h'.documents_eq.trans h.documents_eq,
    h'.versions_eq.trans h.versions_eq⟩

theorem SameDocuments.places_eq (h : SameDocuments db db') : db'.places = db.places := by
  simp only [DocumentDb.places, h.documents_eq]

theorem SameDocuments.editions_eq (h : SameDocuments db db') : db'.editions = db.editions := by
  simp only [DocumentDb.editions, h.versions_eq]

theorem SameDocuments.agrees (h : SameDocuments db db') (ha : Agrees db) : Agrees db' := by
  obtain ⟨hsources, hdocuments, hversions⟩ := h
  refine ⟨⟨?_, ?_⟩, ?_⟩
  · simpa only [hdocuments, hversions] using ha.owned
  · simpa only [hdocuments] using ha.located
  · intro d hd
    rw [hdocuments] at hd
    obtain ⟨hmark, hpresent⟩ := ha.marks d hd
    exact ⟨by rw [hversions]; exact hmark, by rw [hversions]; exact hpresent⟩

theorem createChunk_returned {c : Chunk} {u : Unit}
    (h : createChunk c faults db = .returned u db') :
    ∃ chunks, db' = { db with chunks := chunks } ∧ chunks.rows = db.chunks.rows ++ [c] := by
  obtain ⟨_, h⟩ := perform_returned_iff.mp h
  split at h
  · cases h
  · split at h
    · rename_i chunks hins
      obtain ⟨_, rfl⟩ := Prod.mk.inj (Except.ok.inj h)
      obtain ⟨hnew, rfl⟩ := KeyedTable.insert?_some_iff.mp hins
      exact ⟨_, rfl, rfl⟩
    · cases h

theorem createChunks_returned {cs : List Chunk} {u : Unit}
    (h : forEach createChunk cs faults db = .returned u db') :
    ∃ chunks, db' = { db with chunks := chunks } ∧ chunks.rows = db.chunks.rows ++ cs := by
  induction cs generalizing db with
  | nil =>
    obtain ⟨_, rfl⟩ := pure_returned_iff.mp h
    exact ⟨db.chunks, rfl, by simp⟩
  | cons c cs ih =>
    obtain ⟨_, m, hc, h⟩ := bind_returned_iff.mp h
    obtain ⟨chunks, rfl, hrows⟩ := createChunk_returned hc
    obtain ⟨chunks', rfl, hrows'⟩ := ih h
    exact ⟨chunks', rfl, by simp [hrows', hrows]⟩

theorem addEvent_returned {event : Outbox.OutboxEvent JsonObject} {u : Unit}
    (h : addEvent event faults db = .returned u db') :
    ∃ outbox, db' = { db with outbox := outbox } ∧
      outbox.rows = db.outbox.rows ++ [Outbox.rowOfEvent event] := by
  obtain ⟨_, h⟩ := perform_returned_iff.mp h
  split at h
  · rename_i outbox hadd
    obtain ⟨_, rfl⟩ := Prod.mk.inj (Except.ok.inj h)
    obtain ⟨hnew, rfl⟩ := KeyedTable.insert?_some_iff.mp (Outbox.add_ok_iff.mp hadd)
    exact ⟨_, rfl, rfl⟩
  · cases h

/-- A completed ingestion of this key, with the version that it ended in. -/
structure IngestionCheckpoint.PointsTo (c : IngestionCheckpoint) (key : CheckpointKey)
    (documentId versionId : UUID) : Prop where
  key_eq : c.key = key
  status_eq : c.status = .persisted
  documentId_eq : c.documentId = some documentId
  versionId_eq : c.versionId = some versionId

/-- Every checkpoint is one of the old ones or points to this version. -/
def CheckpointAdded (key : CheckpointKey) (documentId versionId : UUID) (db db' : DocumentDb) : Prop :=
  ∀ c ∈ db'.checkpoints.rows, c ∈ db.checkpoints.rows ∨ c.PointsTo key documentId versionId

theorem upsertCheckpoint_returned {documentId versionId : UUID} {u : Unit}
    (h : upsertCheckpoint (persistedCheckpoint acq draws documentId versionId) faults db =
      .returned u db') :
    ∃ checkpoints, db' = { db with checkpoints := checkpoints } ∧
      CheckpointAdded acq.key documentId versionId db db' := by
  obtain ⟨_, h⟩ := perform_returned_iff.mp h
  split at h
  · cases h
  · obtain ⟨_, rfl⟩ := Prod.mk.inj (Except.ok.inj h)
    refine ⟨_, rfl, fun c hc => ?_⟩
    rcases KeyedTable.mem_upsert hc with hc | rfl
    · exact Or.inl hc
    · refine Or.inr ?_
      split <;> exact ⟨rfl, rfl, rfl, rfl⟩

inductive Recorded (svc : IngestionService) (acq : Acquired) (draws : Draws) (db db' : DocumentDb)
    (documentId versionId : UUID) : Bool → Prop where
  | nothing (chunks_eq : db'.chunks = db.chunks) (outbox_eq : db'.outbox = db.outbox) :
      Recorded svc acq draws db db' documentId versionId false
  | chunksAndEvent {content : ParsedContent} {metadata : JsonObject}
      (parsed : parse svc acq = .ok (content, metadata))
      (chunks_eq : db'.chunks.rows =
        db.chunks.rows ++ documentChunks svc acq draws documentId versionId content)
      (outbox_eq : db'.outbox.rows =
        db.outbox.rows ++ [Outbox.rowOfEvent (documentParsed acq draws documentId versionId)]) :
      Recorded svc acq draws db db' documentId versionId true

structure IngestEffect (svc : IngestionService) (acq : Acquired) (draws : Draws)
    (db db' : DocumentDb) (documentId versionId : UUID) (created : Bool) : Prop where
  sources_eq : db'.sources = db.sources
  checkpoints : CheckpointAdded acq.key documentId versionId db db'
  entered : Entered acq.key db db' documentId versionId created
  recorded : Recorded svc acq draws db db' documentId versionId created

def PointsAt (db : DocumentDb) (documentId versionId : UUID) : Prop :=
  ∀ d ∈ db.documents.rows, d.documentId = documentId → d.currentVersionId = some versionId

theorem storeChunks_returned {documentId versionId : UUID} {content : ParsedContent} {u : Unit}
    (h : storeChunks svc acq draws documentId versionId content faults db = .returned u db') :
    ∃ chunks outbox, db' = { db with chunks := chunks, outbox := outbox } ∧
      chunks.rows = db.chunks.rows ++ documentChunks svc acq draws documentId versionId content ∧
      outbox.rows =
        db.outbox.rows ++ [Outbox.rowOfEvent (documentParsed acq draws documentId versionId)] := by
  obtain ⟨cs, _, hattempt, h⟩ := bind_returned_iff.mp h
  obtain ⟨_, hcs, rfl⟩ := attempt_returned_iff.mp hattempt
  obtain rfl := Except.ok.inj hcs
  obtain ⟨_, _, hchunks, h⟩ := bind_returned_iff.mp h
  obtain ⟨chunks, rfl, hrows⟩ := createChunks_returned hchunks
  obtain ⟨outbox, rfl, hevents⟩ := addEvent_returned h
  exact ⟨chunks, outbox, rfl, hrows, hevents⟩

theorem store_cases {documentId : UUID} {r : IngestionResult}
    (h : store svc acq draws documentId faults db = .returned r db') :
    ∃ content metadata stored m m', parse svc acq = .ok (content, metadata) ∧
      upsertDocument (parsedDocument acq draws documentId content metadata) faults db =
        .returned (stored, r.createdNewVersion) m ∧
      r = ⟨stored.documentId, stored.versionId, r.createdNewVersion, acq.source.tenantId⟩ ∧
      upsertCheckpoint (persistedCheckpoint acq draws r.documentId r.versionId) faults m =
        .returned () m' ∧
      (if r.createdNewVersion then storeChunks svc acq draws r.documentId r.versionId content
        else pure ()) faults m' = .returned () db' := by
  obtain ⟨⟨content, metadata⟩, m₀, hattempt, hrest⟩ := bind_returned_iff.mp h
  obtain ⟨_, hparse, hm₀⟩ := attempt_returned_iff.mp hattempt
  obtain ⟨document, m₁, hattempt', hrest⟩ := bind_returned_iff.mp hrest
  obtain ⟨_, hdocument, hm₁⟩ := attempt_returned_iff.mp hattempt'
  obtain ⟨⟨stored, isNew⟩, m₂, hupsert, hrest⟩ := bind_returned_iff.mp hrest
  obtain ⟨_, m₃, hcheckpoint, hrest⟩ := bind_returned_iff.mp hrest
  obtain ⟨_, m₄, hchunks, hrest⟩ := bind_returned_iff.mp hrest
  obtain ⟨rfl, hm₄⟩ := pure_returned_iff.mp hrest
  obtain rfl := Except.ok.inj hdocument
  subst hm₀ hm₁ hm₄
  exact ⟨content, metadata, stored, m₂, m₃, hparse, hupsert, rfl, hcheckpoint, hchunks⟩

theorem recorded_of_returned {documentId versionId : UUID} {content : ParsedContent}
    {metadata : JsonObject} {created : Bool} {m : DocumentDb}
    (hparse : parse svc acq = .ok (content, metadata))
    (h : (if created then storeChunks svc acq draws documentId versionId content
      else pure ()) faults m = .returned () db')
    (hchunks : m.chunks = db.chunks) (houtbox : m.outbox = db.outbox) :
    SameDocuments m db' ∧ db'.checkpoints = m.checkpoints ∧
      Recorded svc acq draws db db' documentId versionId created := by
  cases created with
  | false =>
    obtain ⟨_, rfl⟩ := pure_returned_iff.mp h
    exact ⟨⟨rfl, rfl, rfl⟩, rfl, .nothing hchunks houtbox⟩
  | true =>
    obtain ⟨chunks, outbox, rfl, hrows, hevents⟩ := storeChunks_returned h
    rw [hchunks] at hrows
    rw [houtbox] at hevents
    exact ⟨⟨rfl, rfl, rfl⟩, rfl, .chunksAndEvent hparse hrows hevents⟩

/-- What a stored ingestion has done; the version is current then. -/
theorem store_returned {documentId : UUID} {r : IngestionResult} (hwf : WellFormed db)
    (hfresh : ∀ e ∈ db.editions, e.versionId ≠ draws.versionId)
    (h : store svc acq draws documentId faults db = .returned r db') :
    IngestEffect svc acq draws db db' r.documentId r.versionId r.createdNewVersion ∧
      r.tenantId = acq.source.tenantId ∧ PointsAt db' r.documentId r.versionId ∧
      (Agrees db → Agrees db') := by
  obtain ⟨content, metadata, stored, m, m', hparse, hupsert, hr, hcheckpoint, hchunks⟩ :=
    store_cases h
  obtain ⟨hentered, helsewhere, hpoints⟩ := upsertDocument_returned hwf hfresh hupsert
  have hdoc : stored.documentId = r.documentId := (congrArg IngestionResult.documentId hr).symm
  have hver : stored.versionId = r.versionId := (congrArg IngestionResult.versionId hr).symm
  simp only [hdoc, hver] at hentered hpoints
  obtain ⟨checkpoints, rfl, hadded⟩ := upsertCheckpoint_returned hcheckpoint
  obtain ⟨hrest, hcheckpoints, hrecorded⟩ :=
    recorded_of_returned hparse hchunks helsewhere.chunks_eq helsewhere.outbox_eq
  have hfirst : SameDocuments m { m with checkpoints := checkpoints } := ⟨rfl, rfl, rfl⟩
  have hsame := hfirst.trans hrest
  refine ⟨⟨hsame.sources_eq.trans helsewhere.sources_eq, ?_,
    hentered.congr hsame.places_eq hsame.editions_eq, hrecorded⟩,
    congrArg IngestionResult.tenantId hr, ?_, ?_⟩
  · intro c hc
    rw [hcheckpoints] at hc
    rw [← helsewhere.checkpoints_eq]
    exact hadded c hc
  · intro d hd
    rw [hsame.documents_eq] at hd
    exact hpoints d hd
  · exact fun ha => hsame.agrees ((upsertDocument_triple _).returned ha hupsert)

def Found.answer : Found → Option (UUID × UUID)
  | .resumed documentId versionId => some (documentId, versionId)
  | .current documentId versionId => some (documentId, versionId)
  | .changed _ => none
  | .absent => none

/-- Every checkpoint is complete, and its version is stored under its key. -/
def CheckpointsStored (db : DocumentDb) : Prop :=
  ∀ c ∈ db.checkpoints.rows, ∃ documentId versionId, c.PointsTo c.key documentId versionId ∧
    db.Stored c.key documentId versionId

theorem getCurrentVersion_returned {row : DocumentRow} {found : Option VersionRow}
    (ha : Agrees db) (hrow : row ∈ db.documents.rows)
    (h : getCurrentVersion row.documentId row.currentVersionId faults db = .returned found db') :
    db' = db ∧ ∀ v, found = some v → v ∈ db.versions.rows ∧ v.documentId = row.documentId ∧
      row.currentVersionId = some v.versionId := by
  obtain ⟨_, hfound, rfl⟩ := query_returned_iff.mp h
  refine ⟨rfl, fun v hv => ?_⟩
  subst hv
  cases hpointer : row.currentVersionId with
  | some versionId =>
    simp only [hpointer, Except.ok.injEq, Option.filter_eq_some_iff, decide_eq_true_eq] at hfound
    obtain ⟨hmem, hid⟩ := db'.versions.get?_some_iff.mp hfound.1
    exact ⟨hmem, hfound.2, by rw [hid]⟩
  | none =>
    have hnone := (ha.marks row hrow).filter_eq_nil hpointer
    simp only [hpointer, hnone] at hfound
    cases hfound

theorem getDocument_returned {documentId : UUID} {found : Option ParsedDocument} (ha : Agrees db)
    (h : getDocument documentId faults db = .returned found db') :
    db' = db ∧ ∀ document, found = some document → ∃ row ∈ db.documents.rows,
      ∃ v ∈ db.versions.rows, row.documentId = documentId ∧ v.documentId = documentId ∧
        row.currentVersionId = some v.versionId ∧ document = documentVersionToDomain row v := by
  obtain ⟨row, m, hquery, hrest⟩ := bind_returned_iff.mp h
  obtain ⟨_, hrow, rfl⟩ := query_returned_iff.mp hquery
  have hrow := Except.ok.inj hrow
  cases row with
  | none =>
    obtain ⟨rfl, rfl⟩ := pure_returned_iff.mp hrest
    exact ⟨rfl, by simp⟩
  | some row =>
    obtain ⟨hmem, hid⟩ := m.documents.get?_some_iff.mp hrow
    obtain ⟨version, m', hversion, hrest⟩ := bind_returned_iff.mp hrest
    obtain ⟨hfound, rfl⟩ := pure_returned_iff.mp hrest
    obtain ⟨rfl, hcurrent⟩ := getCurrentVersion_returned ha hmem hversion
    refine ⟨rfl, fun document hdocument => ?_⟩
    rw [hdocument] at hfound
    obtain ⟨v, hv, rfl⟩ := Option.map_eq_some_iff.mp hfound
    obtain ⟨hvmem, hvdoc, hpointer⟩ := hcurrent v hv
    exact ⟨row, hmem, v, hvmem, hid, hvdoc.trans hid, hpointer, rfl⟩

theorem findActiveDocument_returned {sourceId documentId versionId : UUID} {sourceLocator : String}
    (h : findActiveDocument sourceId sourceLocator faults db =
      .returned (some (documentId, versionId)) db') :
    ∃ row, db.documentAt sourceId sourceLocator = some row ∧ row.documentId = documentId ∧
      row.currentVersionId = some versionId := by
  obtain ⟨_, hfound, rfl⟩ := query_returned_iff.mp h
  split at hfound
  · rename_i row source hrow hsource
    split at hfound
    · obtain ⟨v, hv, hpair⟩ := Option.map_eq_some_iff.mp (Except.ok.inj hfound)
      obtain ⟨hdoc, rfl⟩ := Prod.mk.inj hpair
      exact ⟨row, hrow, hdoc, hv⟩
    · cases hfound
  · cases hfound

theorem getDocumentVersion_returned {documentId versionId : UUID} {document : ParsedDocument}
    (h : getDocumentVersion documentId versionId faults db = .returned (some document) db') :
    ∃ v ∈ db.versions.rows, v.versionId = versionId ∧ v.documentId = documentId ∧
      document.checksum = v.checksum := by
  obtain ⟨_, hfound, rfl⟩ := query_returned_iff.mp h
  split at hfound
  · rename_i row v hrow hv
    split at hfound
    · rename_i hdoc
      obtain rfl := Option.some.inj (Except.ok.inj hfound)
      obtain ⟨hmem, hid⟩ := db'.versions.get?_some_iff.mp hv
      exact ⟨v, hmem, hid, hdoc, rfl⟩
    · cases hfound
  · cases hfound

def Found.Right (found : Found) (db : DocumentDb) (key : CheckpointKey) : Prop :=
  ∀ documentId versionId, found.answer = some (documentId, versionId) →
    db.Stored key documentId versionId ∧ PointsAt db documentId versionId

theorem Found.right_of_answer_none {found : Found} {key : CheckpointKey} (h : found.answer = none) :
    found.Right db key := by
  intro d v hanswer
  rw [h] at hanswer
  cases hanswer

theorem stored_of_rows {key : CheckpointKey} {row : DocumentRow} {v : VersionRow}
    (hrow : row ∈ db.documents.rows) (hv : v ∈ db.versions.rows)
    (hplace : row.place = key.place row.documentId) (hdoc : v.documentId = row.documentId)
    (hsum : v.checksum = key.contentChecksum) : db.Stored key row.documentId v.versionId := by
  refine ⟨mem_places_iff.mpr ⟨row, hrow, hplace⟩, mem_editions_iff.mpr ⟨v, hv, ?_⟩⟩
  simp [VersionRow.edition, CheckpointKey.edition, hdoc, hsum]

theorem pointsAt_of_row {row : DocumentRow} {versionId : UUID} (hrow : row ∈ db.documents.rows)
    (hpointer : row.currentVersionId = some versionId) : PointsAt db row.documentId versionId := by
  intro d hd hid
  rw [db.documents.eq_of_mem hd hrow hid]
  exact hpointer

theorem resumeFrom_returned {key : CheckpointKey} {checkpoint : Option IngestionCheckpoint}
    {found : Option Found} (ha : Agrees db)
    (hcheckpoint : ∀ c, checkpoint = some c → ∃ documentId versionId,
      c.PointsTo key documentId versionId ∧ db.Stored key documentId versionId)
    (h : resumeFrom key checkpoint faults db = .returned found db') :
    db' = db ∧ ∀ f, found = some f → f.Right db key := by
  cases checkpoint with
  | none =>
    obtain ⟨rfl, rfl⟩ := pure_returned_iff.mp h
    exact ⟨rfl, by simp⟩
  | some c =>
    obtain ⟨d, v, hpoints, hstored⟩ := hcheckpoint c rfl
    simp only [resumeFrom, hpoints.status_eq, hpoints.documentId_eq, hpoints.versionId_eq,
      if_true] at h
    obtain ⟨existing, m, hget, hrest⟩ := bind_returned_iff.mp h
    obtain ⟨rfl, hexisting⟩ := getDocument_returned ha hget
    cases existing with
    | none =>
      obtain ⟨rfl, rfl⟩ := pure_returned_iff.mp hrest
      exact ⟨rfl, by simp⟩
    | some document =>
      obtain ⟨row, hrow, w, hw, rfl, hdoc, hpointer, rfl⟩ := hexisting document rfl
      by_cases hsum : (documentVersionToDomain row w).checksum = key.contentChecksum
      · simp only [hsum, if_true] at hrest
        obtain ⟨rfl, rfl⟩ := pure_returned_iff.mp hrest
        refine ⟨rfl, fun f hf => ?_⟩
        obtain rfl := Option.some.inj hf
        intro d' v' hanswer
        obtain ⟨rfl, rfl⟩ := Prod.mk.inj (Option.some.inj hanswer)
        obtain ⟨x, hx, hxp⟩ := mem_places_iff.mp hstored.1
        have hsame : x = row := m.documents.eq_of_mem hx hrow (congrArg Place.documentId hxp)
        exact ⟨stored_of_rows hrow hw (hsame ▸ hxp) hdoc hsum, pointsAt_of_row hrow hpointer⟩
      · simp only [hsum, if_false] at hrest
        obtain ⟨rfl, rfl⟩ := pure_returned_iff.mp hrest
        exact ⟨rfl, by simp⟩

theorem findCurrent_returned {key : CheckpointKey} {found : Found}
    (h : findCurrent key faults db = .returned found db') : db' = db ∧ found.Right db key := by
  obtain ⟨existing, m, hactive, hrest⟩ := bind_returned_iff.mp h
  obtain ⟨_, _, rfl⟩ := query_returned_iff.mp hactive
  cases existing with
  | none =>
    obtain ⟨rfl, rfl⟩ := pure_returned_iff.mp hrest
    exact ⟨rfl, Found.right_of_answer_none rfl⟩
  | some ids =>
    obtain ⟨d, v⟩ := ids
    obtain ⟨current, m', hversion, hrest⟩ := bind_returned_iff.mp hrest
    obtain ⟨_, _, rfl⟩ := query_returned_iff.mp hversion
    cases current with
    | none =>
      obtain ⟨rfl, rfl⟩ := pure_returned_iff.mp hrest
      exact ⟨rfl, Found.right_of_answer_none rfl⟩
    | some document =>
      by_cases hsum : document.checksum = key.contentChecksum
      · simp only [hsum, if_true] at hrest
        obtain ⟨rfl, rfl⟩ := pure_returned_iff.mp hrest
        refine ⟨rfl, fun d' v' hanswer => ?_⟩
        obtain ⟨rfl, rfl⟩ := Prod.mk.inj (Option.some.inj hanswer)
        obtain ⟨row, hrow, rfl, hpointer⟩ := findActiveDocument_returned hactive
        obtain ⟨hmem, hsource, hlocator⟩ := documentAt_some hrow
        obtain ⟨w, hw, rfl, hdoc, hwsum⟩ := getDocumentVersion_returned hversion
        have hplace : row.place = key.place row.documentId := by
          simp [DocumentRow.place, CheckpointKey.place, hsource, hlocator]
        exact ⟨stored_of_rows hmem hw hplace hdoc (hwsum.symm.trans hsum),
          pointsAt_of_row hmem hpointer⟩
      · simp only [hsum, if_false] at hrest
        obtain ⟨rfl, rfl⟩ := pure_returned_iff.mp hrest
        exact ⟨rfl, Found.right_of_answer_none rfl⟩

theorem lookUp_returned {key : CheckpointKey} {found : Found} (ha : Agrees db)
    (hcheckpoints : CheckpointsStored db) (h : lookUp key faults db = .returned found db') :
    db' = db ∧ found.Right db key := by
  obtain ⟨checkpoint, m, hget, hrest⟩ := bind_returned_iff.mp h
  obtain ⟨_, hcheckpoint, rfl⟩ := query_returned_iff.mp hget
  have hcheckpoint := Except.ok.inj hcheckpoint
  obtain ⟨resumed, m', hresume, hrest⟩ := bind_returned_iff.mp hrest
  obtain ⟨rfl, hresumed⟩ := resumeFrom_returned ha (fun c hc => by
    rw [hc] at hcheckpoint
    obtain ⟨hmem, hkey⟩ := m.checkpoints.get?_some_iff.mp hcheckpoint
    obtain ⟨d, v, hpoints, hstored⟩ := hcheckpoints c hmem
    rw [hkey] at hpoints hstored
    exact ⟨d, v, hpoints, hstored⟩) hresume
  cases resumed with
  | some f =>
    obtain ⟨rfl, rfl⟩ := pure_returned_iff.mp hrest
    exact ⟨rfl, hresumed f rfl⟩
  | none => exact findCurrent_returned hrest

theorem ingestEffect_refl {d v : UUID} (hstored : db.Stored acq.key d v) :
    IngestEffect svc acq draws db db d v false :=
  ⟨rfl, fun _ hc => Or.inl hc, .found rfl (fun _ _ _ => Iff.rfl) hstored, .nothing rfl rfl⟩

/-- What a finished call has done. Its version is current then, unless it was answered by
lookups that are out of date. -/
theorem finish_returned {found : Found} {r : IngestionResult} (hwf : WellFormed db)
    (hfresh : ∀ e ∈ db.editions, e.versionId ≠ draws.versionId)
    (hfound : ∀ d v, found.answer = some (d, v) → db.Stored acq.key d v)
    (h : finish svc acq draws found faults db = .returned r db') :
    IngestEffect svc acq draws db db' r.documentId r.versionId r.createdNewVersion ∧
      r.tenantId = acq.source.tenantId ∧
      ((∀ d v, found.answer = some (d, v) → PointsAt db d v) →
        PointsAt db' r.documentId r.versionId) ∧
      (Agrees db → Agrees db') := by
  cases found with
  | resumed d v =>
    obtain ⟨rfl, rfl⟩ := pure_returned_iff.mp h
    exact ⟨ingestEffect_refl (hfound d v rfl), rfl, fun hpoints => hpoints d v rfl, id⟩
  | current d v =>
    obtain ⟨_, m, hcheckpoint, hrest⟩ := bind_returned_iff.mp h
    obtain ⟨rfl, rfl⟩ := pure_returned_iff.mp hrest
    obtain ⟨checkpoints, rfl, hadded⟩ := upsertCheckpoint_returned hcheckpoint
    refine ⟨⟨rfl, hadded, ?_, .nothing rfl rfl⟩, rfl, fun hpoints => hpoints d v rfl, ?_⟩
    · exact .found rfl (fun _ _ _ => Iff.rfl) (hfound d v rfl)
    · exact SameDocuments.agrees ⟨rfl, rfl, rfl⟩
  | changed d =>
    obtain ⟨heffect, htenant, hpoints, hagrees⟩ := store_returned hwf hfresh h
    exact ⟨heffect, htenant, fun _ => hpoints, hagrees⟩
  | absent =>
    obtain ⟨heffect, htenant, hpoints, hagrees⟩ := store_returned hwf hfresh h
    exact ⟨heffect, htenant, fun _ => hpoints, hagrees⟩

theorem getDocument_reads (ha : Agrees db) (documentId : UUID) :
    Reads (getDocument documentId) db := by
  refine Reads.bind (reads_query ⟨_, rfl⟩) fun row hrow => ?_
  obtain ⟨_, hrow, _⟩ := query_returned_iff.mp hrow
  cases row with
  | none => exact reads_pure none db
  | some row =>
    have hmem := (db.documents.get?_some_iff.mp (Except.ok.inj hrow)).1
    refine Reads.bind (reads_query ?_) fun _ _ => reads_pure _ db
    cases hpointer : row.currentVersionId with
    | some versionId => exact ⟨_, rfl⟩
    | none =>
      simp only [(ha.marks row hmem).filter_eq_nil hpointer]
      exact ⟨none, rfl⟩

theorem resumeFrom_reads {key : CheckpointKey} {checkpoint : Option IngestionCheckpoint}
    (ha : Agrees db) (hcheckpoint : ∀ c, checkpoint = some c → ∃ d v, c.PointsTo key d v) :
    Reads (resumeFrom key checkpoint) db := by
  cases checkpoint with
  | none => exact reads_pure none db
  | some c =>
    obtain ⟨d, v, hpoints⟩ := hcheckpoint c rfl
    simp only [resumeFrom, hpoints.status_eq, hpoints.documentId_eq, hpoints.versionId_eq, if_true]
    refine (getDocument_reads ha d).bind fun existing _ => ?_
    cases existing with
    | none => exact reads_pure none db
    | some document =>
      simp only
      split <;> exact reads_pure _ db

theorem findCurrent_reads (key : CheckpointKey) : Reads (findCurrent key) db := by
  have hactive : Reads (findActiveDocument key.sourceId key.canonicalLocator) db := by
    refine reads_query ?_
    split
    · split <;> exact ⟨_, rfl⟩
    · exact ⟨_, rfl⟩
  refine hactive.bind fun existing _ => ?_
  cases existing with
  | none => exact reads_pure _ db
  | some ids =>
    have hversion : Reads (getDocumentVersion ids.1 ids.2) db := by
      refine reads_query ?_
      split
      · split <;> exact ⟨_, rfl⟩
      · exact ⟨_, rfl⟩
    refine hversion.bind fun current _ => ?_
    cases current with
    | none => exact reads_pure _ db
    | some document =>
      simp only
      split <;> exact reads_pure _ db

theorem lookUp_reads (ha : Agrees db) (hcheckpoints : CheckpointsStored db) (key : CheckpointKey) :
    Reads (lookUp key) db := by
  refine Reads.bind (reads_query ⟨_, rfl⟩) fun checkpoint hget => ?_
  obtain ⟨_, hcheckpoint, _⟩ := query_returned_iff.mp hget
  have hpoints : ∀ c, checkpoint = some c → ∃ d v, c.PointsTo key d v := by
    rintro c rfl
    obtain ⟨hmem, rfl⟩ := db.checkpoints.get?_some_iff.mp (Except.ok.inj hcheckpoint)
    obtain ⟨d, v, hpoints, _⟩ := hcheckpoints c hmem
    exact ⟨d, v, hpoints⟩
  refine (resumeFrom_reads ha hpoints).bind fun resumed _ => ?_
  cases resumed with
  | some found => exact reads_pure found db
  | none => exact findCurrent_reads key

theorem upsertCheckpoint_noFaults {checkpoint : IngestionCheckpoint}
    (h : (db.sources.get? checkpoint.key.sourceId).isSome = true) :
    ∃ db', upsertCheckpoint checkpoint noFaults db = .returned () db' := by
  have hknown : ¬ (db.sources.get? checkpoint.key.sourceId).isNone = true := by
    simpa [Option.isSome_iff_ne_none] using h
  exact ⟨_, perform_returned_iff.mpr ⟨rfl, if_neg hknown⟩⟩

/-- What is stored already can be stored again, unless its file is not parsed any more. -/
theorem store_stored {documentId d v : UUID} {content : ParsedContent} {metadata : JsonObject}
    (hwf : WellFormed db) (hdistinct : DistinctEditions db) (hstored : db.Stored acq.key d v)
    (hfresh : ∀ e ∈ db.editions, e.versionId ≠ draws.versionId)
    (hsource : (db.sources.get? acq.key.sourceId).isSome = true)
    (hparse : parse svc acq = .ok (content, metadata)) :
    ∃ r db', store svc acq draws documentId noFaults db = .returned r db' := by
  have hkey : db.Stored (parsedDocument acq draws documentId content metadata).key d v := hstored
  obtain ⟨m, hupsert⟩ := upsertDocument_stored hwf hdistinct hkey
  obtain ⟨_, helsewhere, _⟩ := upsertDocument_returned hwf hfresh hupsert
  have hold : v ≠ draws.versionId := hfresh _ hstored.2
  have hregistered :
      (m.sources.get? (persistedCheckpoint acq draws d v).key.sourceId).isSome = true := by
    rw [helsewhere.sources_eq]
    exact hsource
  obtain ⟨m', hcheckpoint⟩ := upsertCheckpoint_noFaults hregistered
  refine ⟨⟨d, v, false, acq.source.tenantId⟩, m', ?_⟩
  refine bind_returned_iff.mpr ⟨_, db, attempt_returned_iff.mpr ⟨rfl, hparse, rfl⟩, ?_⟩
  refine bind_returned_iff.mpr ⟨_, db, attempt_returned_iff.mpr ⟨rfl, rfl, rfl⟩, ?_⟩
  refine bind_returned_iff.mpr ⟨_, m, hupsert, ?_⟩
  refine bind_returned_iff.mpr ⟨(), m', hcheckpoint, ?_⟩
  have hnew : decide (v = (parsedDocument acq draws documentId content metadata).versionId) = false :=
    decide_eq_false hold
  simp only [hnew]
  rfl

theorem finish_stored {found : Found} {d v : UUID} {content : ParsedContent} {metadata : JsonObject}
    (hwf : WellFormed db) (hdistinct : DistinctEditions db) (hstored : db.Stored acq.key d v)
    (hfresh : ∀ e ∈ db.editions, e.versionId ≠ draws.versionId)
    (hsource : (db.sources.get? acq.key.sourceId).isSome = true)
    (hparse : parse svc acq = .ok (content, metadata)) :
    ∃ r db', finish svc acq draws found noFaults db = .returned r db' := by
  cases found with
  | resumed d' v' => exact ⟨_, db, rfl⟩
  | current d' v' =>
    have hregistered :
        (db.sources.get? (persistedCheckpoint acq draws d' v').key.sourceId).isSome = true := hsource
    obtain ⟨m, hcheckpoint⟩ := upsertCheckpoint_noFaults hregistered
    exact ⟨_, m, bind_returned_iff.mpr ⟨(), m, hcheckpoint, rfl⟩⟩
  | changed d' => exact store_stored hwf hdistinct hstored hfresh hsource hparse
  | absent => exact store_stored hwf hdistinct hstored hfresh hsource hparse

end GroundGraph.Ingestion

import GroundGraph.Ingestion.IngestEffects
import GroundGraph.Ingestion.IngestRuns
import GroundGraph.Library.FindOrCreate

/-! Ingestion is idempotent, whatever the calls find and however they interleave: a content
of a file is stored once, one call reports that it made the version, and the chunks and the
event are the ones of that call.
-/

set_option autoImplicit false

namespace GroundGraph.Ingestion

open Transaction FindOrCreate

def DocumentDb.chunksOf (db : DocumentDb) (versionId : UUID) : List Chunk :=
  db.chunks.rows.filter fun c => decide (c.versionId = versionId)

def announces (versionId : UUID) (row : Outbox.OutboxRow JsonObject) : Bool :=
  decide (row.eventType = .documentParsed) &&
    match row.payload.find "version_id" with
    | some (.str text) => decide (text = String.ofList (strUuid versionId))
    | _ => false

def DocumentDb.announcements (db : DocumentDb) (versionId : UUID) :
    List (Outbox.OutboxRow JsonObject) := db.outbox.rows.filter (announces versionId)

theorem announces_documentParsed (acq : Acquired) (draws : Draws) (documentId versionId v : UUID) :
    announces v (Outbox.rowOfEvent (documentParsed acq draws documentId versionId)) =
      decide (versionId = v) := by
  have hiff : String.ofList (strUuid versionId) = String.ofList (strUuid v) ↔ versionId = v :=
    ⟨fun h => strUuid_injective (String.ofList_injective h), fun h => by rw [h]⟩
  simp [announces, Outbox.rowOfEvent, documentParsed, JsonObject.find, hiff]

/-- The pointer of the document is at this version, and of its versions it alone is marked. -/
structure IsCurrent (db : DocumentDb) (documentId versionId : UUID) : Prop where
  pointed : ∃ d ∈ db.documents.rows, d.documentId = documentId ∧ d.currentVersionId = some versionId
  marked : OnlyCurrent db documentId versionId

theorem PointsAt.isCurrent {db : DocumentDb} {key : CheckpointKey} {documentId versionId : UUID}
    (h : PointsAt db documentId versionId) (ha : Agrees db)
    (hstored : db.Stored key documentId versionId) : IsCurrent db documentId versionId := by
  obtain ⟨d, hd, hplace⟩ := mem_places_iff.mp hstored.1
  have hid : d.documentId = documentId := congrArg Place.documentId hplace
  have hpointer := h d hd hid
  have hmarks := ha.marks d hd
  rw [hid] at hmarks
  exact ⟨⟨d, hd, hid, hpointer⟩, (hmarks.some_iff versionId).mp hpointer⟩

structure MadeBy (svc : IngestionService) (s : IngestState) (key : CheckpointKey)
    (documentId versionId : UUID) (acq : Acquired) : Prop where
  key_eq : acq.key = key
  answered : (acq, ⟨documentId, versionId, true, acq.source.tenantId⟩) ∈ s.answers
  records : ∃ draws content metadata, parse svc acq = .ok (content, metadata) ∧
    s.db.chunksOf versionId = documentChunks svc acq draws documentId versionId content ∧
    s.db.announcements versionId =
      [Outbox.rowOfEvent (documentParsed acq draws documentId versionId)]

def IngestState.creators (s : IngestState) (key : CheckpointKey) : List (Acquired × IngestionResult) :=
  s.answers.filter fun a => a.2.createdNewVersion && decide (a.1.key = key)

structure Idempotent (svc : IngestionService) (s : IngestState) : Prop where
  one_version : ∀ key d v d' v', s.db.Stored key d v → s.db.Stored key d' v' → d = d' ∧ v = v'
  answered : ∀ a ∈ s.answers, s.db.Stored a.1.key a.2.documentId a.2.versionId
  same_answer : ∀ a ∈ s.answers, ∀ b ∈ s.answers, a.1.key = b.1.key →
    a.2.documentId = b.2.documentId ∧ a.2.versionId = b.2.versionId
  one_creator : ∀ key d v, s.db.Stored key d v → (s.creators key).length = 1
  made : ∀ key d v, s.db.Stored key d v → ∃ acq, MadeBy svc s key d v acq
  chunk_set : ∀ key d v, s.db.Stored key d v →
    (s.db.chunksOf v).map Chunk.ordinal = List.range (s.db.chunksOf v).length ∧
      ∀ c ∈ s.db.chunksOf v, c.documentId = d ∧ c.versionId = v
  one_event : ∀ key d v, s.db.Stored key d v → (s.db.announcements v).length = 1
  /-- Only what is current already answers a call before it writes. -/
  looked_up : ∀ key faults found db d v, lookUp key faults s.db = .returned found db →
    found.answer = some (d, v) → s.db.Stored key d v ∧ IsCurrent s.db d v
  /-- A call for what is stored adds nothing, however old its lookups are. -/
  again : ∀ i draws faults t acq found d v, s.calls[i]? = some ⟨acq, some found⟩ →
    s.db.Stored acq.key d v → ingestStep svc s (.write i draws faults) = some t →
      t.db.chunks = s.db.chunks ∧ t.db.outbox = s.db.outbox ∧
        (t.db = s.db ∧ t.answers = s.answers ∨
          t.answers = s.answers ++ [(acq, ⟨d, v, false, acq.source.tenantId⟩)] ∧
            (found.answer = none → IsCurrent t.db d v))
  /-- Nothing between its halves, it leaves the version current. -/
  uninterrupted : ∀ acq draws faults db r d v, s.db.Stored acq.key d v →
    s.db.FreshVersion draws.versionId →
      unitOfWork .commit (ingest svc acq draws) faults s.db = (db, .ok r) →
        r = ⟨d, v, false, acq.source.tenantId⟩ ∧ IsCurrent db d v ∧
          db.chunks = s.db.chunks ∧ db.outbox = s.db.outbox
  completes : ∀ acq draws d v, s.db.Stored acq.key d v → s.db.FreshVersion draws.versionId →
    (∃ parsed, parse svc acq = .ok parsed) →
      ∃ db, unitOfWork .commit (ingest svc acq draws) noFaults s.db =
        (db, .ok ⟨d, v, false, acq.source.tenantId⟩)
  /-- A call is finished unless something fails or its file is not parsed any more. -/
  finishes : ∀ i draws acq found d v, s.calls[i]? = some ⟨acq, some found⟩ →
    s.db.Stored acq.key d v → s.db.FreshVersion draws.versionId →
      (∃ parsed, parse svc acq = .ok parsed) →
        ∃ t, ingestStep svc s (.write i draws noFaults) = some t ∧
          t.answers = s.answers ++ [(acq, ⟨d, v, false, acq.source.tenantId⟩)]

/-- What an open call was told is stored, and its source is registered. -/
structure OpenCall.Right (db : DocumentDb) (c : OpenCall) : Prop where
  found : ∀ f, c.found = some f → ∀ d v, f.answer = some (d, v) → db.Stored c.acq.key d v
  source : (db.sources.get? c.acq.key.sourceId).isSome = true

def answerOf (a : Acquired × IngestionResult) : Answer CheckpointKey (UUID × UUID) :=
  ⟨a.1.key, (a.2.documentId, a.2.versionId), a.2.createdNewVersion⟩

structure IngestInv (svc : IngestionService) (s : IngestState) : Prop where
  agrees : Agrees s.db
  distinct : DistinctEditions s.db
  checkpoints : CheckpointsStored s.db
  calls : ∀ c ∈ s.calls, c.Right s.db
  answers : Consistent (fun key ids => s.db.Stored key ids.1 ids.2) (s.answers.map answerOf)
  made : ∀ key d v, s.db.Stored key d v → ∃ acq, MadeBy svc s key d v acq
  unstored : ∀ v, (∀ e ∈ s.db.editions, e.versionId ≠ v) →
    s.db.chunksOf v = [] ∧ s.db.announcements v = []
  registered : ∀ key d v, s.db.Stored key d v → (s.db.sources.get? key.sourceId).isSome = true

variable {svc : IngestionService} {s t : IngestState} {db db' : DocumentDb}

theorem OpenCall.Right.mono {c : OpenCall} (h : c.Right db)
    (hstored : ∀ key d v, db.Stored key d v → db'.Stored key d v)
    (hsources : ∀ k, (db'.sources.get? k).isSome = (db.sources.get? k).isSome) : c.Right db' :=
  ⟨fun f hf d v hanswer => hstored _ d v (h.found f hf d v hanswer),
    (hsources _).trans h.source⟩

theorem CheckpointsStored.mono (h : CheckpointsStored db)
    (hstored : ∀ key d v, db.Stored key d v → db'.Stored key d v)
    {key : CheckpointKey} {documentId versionId : UUID}
    (hnew : db'.Stored key documentId versionId)
    (hadded : CheckpointAdded key documentId versionId db db') : CheckpointsStored db' := by
  intro c hc
  rcases hadded c hc with hc | hpoints
  · obtain ⟨d, v, hpoints, hs⟩ := h c hc
    exact ⟨d, v, hpoints, hstored _ d v hs⟩
  · obtain rfl := hpoints.key_eq
    exact ⟨documentId, versionId, hpoints, hnew⟩

theorem MadeBy.mono {key : CheckpointKey} {d v : UUID} {acq : Acquired}
    (h : MadeBy svc s key d v acq) (hanswers : ∀ a ∈ s.answers, a ∈ t.answers)
    (hchunks : t.db.chunksOf v = s.db.chunksOf v)
    (hevents : t.db.announcements v = s.db.announcements v) : MadeBy svc t key d v acq := by
  refine ⟨h.key_eq, hanswers _ h.answered, ?_⟩
  rw [hchunks, hevents]
  exact h.records

/-- Nothing happened to what is stored; which version is current may have changed. -/
structure Quiet (db db' : DocumentDb) : Prop where
  agrees : Agrees db → Agrees db'
  places_eq : db'.places = db.places
  editions_eq : db'.editions = db.editions
  chunks_eq : db'.chunks = db.chunks
  checkpoints_eq : db'.checkpoints = db.checkpoints
  outbox_eq : db'.outbox = db.outbox
  sources_known : ∀ k, (db'.sources.get? k).isSome = (db.sources.get? k).isSome

theorem quiet_refl (db : DocumentDb) : Quiet db db :=
  ⟨id, rfl, rfl, rfl, rfl, rfl, fun _ => rfl⟩

theorem quiet_deleteDocument (documentId : UUID) (faults : IngestStep → Option IngestError)
    (db : DocumentDb) : Quiet db (unitOfWork .commit (deleteDocument documentId) faults db).1 := by
  rcases unitOfWork_cases .commit (deleteDocument documentId) faults db with
    ⟨e, heq⟩ | ⟨u, m, hbody, _, heq⟩
  · rw [heq]
    exact quiet_refl db
  · rw [heq]
    have hagrees : Agrees db → Agrees m := fun ha =>
      (deleteDocument_triple documentId).returned ha hbody
    obtain ⟨_, m₁, hpointer, hclear⟩ := bind_returned_iff.mp hbody
    obtain ⟨_, rfl⟩ := write_returned_iff.mp hpointer
    obtain ⟨_, rfl⟩ := write_returned_iff.mp hclear
    exact ⟨hagrees, by simp, by simp, rfl, rfl, rfl, fun _ => rfl⟩

theorem quiet_deactivateSource (sourceId : UUID) (now : Instant)
    (faults : IngestStep → Option IngestError) (db : DocumentDb) :
    Quiet db (unitOfWork .commit (deactivateSource sourceId now) faults db).1 := by
  rcases unitOfWork_cases .commit (deactivateSource sourceId now) faults db with
    ⟨e, heq⟩ | ⟨u, m, hbody, _, heq⟩
  · rw [heq]
    exact quiet_refl db
  · rw [heq]
    have hagrees : Agrees db → Agrees m := fun ha =>
      (deactivateSource_triple sourceId now).returned ha hbody
    obtain ⟨_, hm⟩ := perform_returned_iff.mp hbody
    split at hm
    · cases hm
    · obtain ⟨_, rfl⟩ := Prod.mk.inj (Except.ok.inj hm)
      refine ⟨hagrees, rfl, rfl, rfl, rfl, rfl, fun k => ?_⟩
      rw [KeyedTable.get?_modifyAt]
      split <;> simp

theorem Quiet.stored_iff (h : Quiet db db') {key : CheckpointKey} {d v : UUID} :
    db'.Stored key d v ↔ db.Stored key d v := by
  simp only [DocumentDb.Stored, h.places_eq, h.editions_eq]

theorem IngestInv.quiet (h : IngestInv svc s) (hq : Quiet s.db t.db)
    (hanswers : t.answers = s.answers) (hcalls : ∀ c ∈ t.calls, c ∈ s.calls ∨ c.Right t.db) :
    IngestInv svc t where
  agrees := hq.agrees h.agrees
  distinct := by
    intro e he f hf
    rw [hq.editions_eq] at he hf
    exact h.distinct e he f hf
  checkpoints := by
    intro c hc
    rw [hq.checkpoints_eq] at hc
    obtain ⟨d, v, hpoints, hs⟩ := h.checkpoints c hc
    exact ⟨d, v, hpoints, hq.stored_iff.mpr hs⟩
  calls := by
    intro c hc
    rcases hcalls c hc with hc | hright
    · exact (h.calls c hc).mono (fun _ _ _ => hq.stored_iff.mpr) hq.sources_known
    · exact hright
  answers := by
    rw [hanswers]
    exact h.answers.congr fun _ _ => hq.stored_iff
  made := by
    intro key d v hs
    obtain ⟨acq, hmade⟩ := h.made key d v (hq.stored_iff.mp hs)
    refine ⟨acq, hmade.mono (fun a ha => hanswers ▸ ha) ?_ ?_⟩
    · simp only [DocumentDb.chunksOf, hq.chunks_eq]
    · simp only [DocumentDb.announcements, hq.outbox_eq]
  unstored := by
    intro v hv
    rw [hq.editions_eq] at hv
    simp only [DocumentDb.chunksOf, DocumentDb.announcements, hq.chunks_eq, hq.outbox_eq]
    exact h.unstored v hv
  registered := by
    intro key d v hs
    rw [hq.sources_known]
    exact h.registered key d v (hq.stored_iff.mp hs)

section Wrote

variable {acq : Acquired} {draws : Draws} {documentId versionId : UUID} {created : Bool}

theorem Recorded.other (h : Recorded svc acq draws db db' documentId versionId created) {v : UUID}
    (hv : created = true → versionId ≠ v) :
    db'.chunksOf v = db.chunksOf v ∧ db'.announcements v = db.announcements v := by
  cases h with
  | nothing hchunks houtbox =>
    simp only [DocumentDb.chunksOf, DocumentDb.announcements, hchunks, houtbox, and_self]
  | @chunksAndEvent content _ _ hchunks houtbox =>
    have hne := hv rfl
    have hnone : (documentChunks svc acq draws documentId versionId content).filter
        (fun c => decide (c.versionId = v)) = [] := by
      refine List.filter_eq_nil_iff.mpr fun c hc => ?_
      rw [(chunk_lineage hc).2]
      simpa using hne
    simp [DocumentDb.chunksOf, DocumentDb.announcements, hchunks, houtbox, hnone,
      announces_documentParsed, hne]

theorem Recorded.made (h : Recorded svc acq draws db db' documentId versionId true)
    (hchunks : db.chunksOf versionId = []) (hevents : db.announcements versionId = []) :
    ∃ content metadata, parse svc acq = .ok (content, metadata) ∧
      db'.chunksOf versionId = documentChunks svc acq draws documentId versionId content ∧
      db'.announcements versionId =
        [Outbox.rowOfEvent (documentParsed acq draws documentId versionId)] := by
  cases h with
  | @chunksAndEvent content metadata hparse hchunks' houtbox =>
    have hall : (documentChunks svc acq draws documentId versionId content).filter
        (fun c => decide (c.versionId = versionId)) =
          documentChunks svc acq draws documentId versionId content := by
      refine List.filter_eq_self.mpr fun c hc => ?_
      rw [(chunk_lineage hc).2]
      simp
    simp only [DocumentDb.chunksOf] at hchunks
    simp only [DocumentDb.announcements] at hevents
    refine ⟨content, metadata, hparse, ?_, ?_⟩
    · simp [DocumentDb.chunksOf, hchunks', hchunks, hall]
    · simp [DocumentDb.announcements, houtbox, hevents, announces_documentParsed]

theorem Entered.consistent {key : CheckpointKey} {answers : List (Answer CheckpointKey (UUID × UUID))}
    (h : Entered key db db' documentId versionId created)
    (hanswers : Consistent (fun k ids => db.Stored k ids.1 ids.2) answers) :
    Consistent (fun k ids => db'.Stored k ids.1 ids.2)
      (answers ++ [⟨key, (documentId, versionId), created⟩]) := by
  cases h with
  | found _ hiff hs =>
    have hfound := hanswers.found (b := (documentId, versionId)) hs
    exact hfound.congr fun k ids => hiff k ids.1 ids.2
  | created _ hiff habsent _ =>
    refine hanswers.create (fun ids => habsent ids.1 ids.2) fun k ids => ?_
    rw [hiff k ids.1 ids.2, Prod.ext_iff]

theorem Entered.ne_of_stored {key k : CheckpointKey} {d v : UUID}
    (h : Entered key db db' documentId versionId created) (hs : db.Stored k d v) :
    created = true → versionId ≠ v := by
  rintro rfl rfl
  cases h with
  | created _ _ _ hfresh => exact (hfresh _ hs.2).1 rfl

theorem IngestInv.made_wrote (h : IngestInv svc s)
    (heffect : IngestEffect svc acq draws s.db t.db documentId versionId created)
    (hanswers : t.answers = s.answers ++ [(acq, ⟨documentId, versionId, created, acq.source.tenantId⟩)])
    {key : CheckpointKey} {d v : UUID} (hs : t.db.Stored key d v) :
    ∃ maker, MadeBy svc t key d v maker := by
  have hold : s.db.Stored key d v → ∃ maker, MadeBy svc t key d v maker := by
    intro hs
    obtain ⟨maker, hmade⟩ := h.made key d v hs
    obtain ⟨hchunks, hevents⟩ := heffect.recorded.other (heffect.entered.ne_of_stored hs)
    refine ⟨maker, hmade.mono (fun a ha => ?_) hchunks hevents⟩
    rw [hanswers]
    exact List.mem_append_left _ ha
  have hentered := heffect.entered
  have hrecorded := heffect.recorded
  cases hentered with
  | found _ hiff _ => exact hold ((hiff key d v).mp hs)
  | created _ hiff _ hfresh =>
    rcases (hiff key d v).mp hs with hs | ⟨rfl, rfl, rfl⟩
    · exact hold hs
    · obtain ⟨hchunks, hevents⟩ := h.unstored v fun e he => (hfresh e he).1
      refine ⟨acq, rfl, ?_, draws, hrecorded.made hchunks hevents⟩
      rw [hanswers]
      simp

theorem IngestInv.unstored_wrote (h : IngestInv svc s)
    (heffect : IngestEffect svc acq draws s.db t.db documentId versionId created)
    {v : UUID} (hv : ∀ e ∈ t.db.editions, e.versionId ≠ v) :
    t.db.chunksOf v = [] ∧ t.db.announcements v = [] := by
  have hne : versionId ≠ v := hv _ heffect.entered.stored.2
  obtain ⟨hchunks, hevents⟩ := heffect.recorded.other fun _ => hne
  rw [hchunks, hevents]
  refine h.unstored v fun e he => hv e ?_
  cases heffect.entered with
  | found heq _ _ => rwa [heq]
  | created heq _ _ _ =>
    rw [heq]
    exact List.mem_append_left _ he

theorem IngestInv.wrote (h : IngestInv svc s)
    (heffect : IngestEffect svc acq draws s.db t.db documentId versionId created)
    (hsource : (s.db.sources.get? acq.key.sourceId).isSome = true) (hagrees : Agrees t.db)
    (hanswers : t.answers = s.answers ++ [(acq, ⟨documentId, versionId, created, acq.source.tenantId⟩)])
    (hcalls : ∀ c ∈ t.calls, c ∈ s.calls) : IngestInv svc t where
  agrees := hagrees
  distinct := heffect.entered.distinct h.distinct
  checkpoints := h.checkpoints.mono (fun _ _ _ => heffect.entered.stored_mono)
    heffect.entered.stored heffect.checkpoints
  calls := by
    intro c hc
    refine (h.calls c (hcalls c hc)).mono (fun _ _ _ => heffect.entered.stored_mono) fun k => ?_
    rw [heffect.sources_eq]
  answers := by
    rw [hanswers, List.map_append]
    exact heffect.entered.consistent h.answers
  made := fun _ _ _ => h.made_wrote heffect hanswers
  unstored := fun _ => h.unstored_wrote heffect
  registered := by
    intro key d v hs
    rw [heffect.sources_eq]
    cases heffect.entered with
    | found _ hiff _ => exact h.registered key d v ((hiff key d v).mp hs)
    | created _ hiff _ _ =>
      rcases (hiff key d v).mp hs with hs | ⟨rfl, _, _⟩
      · exact h.registered key d v hs
      · exact hsource

end Wrote

theorem IngestInv.begin (h : IngestInv svc s) (call : IngestCall) (files : FileSystem)
    (faults : IngestStep → Option IngestError)
    (hstep : ingestStep svc s (.begin call files faults) = some t) : IngestInv svc t := by
  rcases acquireAndValidate_cases svc files call faults s.db with
    ⟨e, hacquire⟩ | ⟨acq, hacquire, hreads, hsource, _⟩
  · simp only [ingestStep, hacquire, Option.some.injEq] at hstep
    subst hstep
    exact h.quiet (quiet_refl s.db) rfl fun c hc => Or.inl hc
  · simp only [ingestStep, hacquire] at hstep
    split at hstep
    · obtain rfl := Option.some.inj hstep
      exact h.quiet (quiet_refl s.db) rfl fun c hc => Or.inl hc
    · obtain rfl := Option.some.inj hstep
      refine h.quiet (quiet_refl s.db) rfl fun c hc => ?_
      rcases List.mem_append.mp hc with hc | hc
      · exact Or.inl hc
      · rw [List.mem_singleton.mp hc]
        refine Or.inr ⟨by simp, ?_⟩
        rw [← hreads.call_eq] at hsource
        exact hsource

theorem IngestInv.lookUp (h : IngestInv svc s) (i : Nat) (faults : IngestStep → Option IngestError)
    (hstep : ingestStep svc s (.lookUp i faults) = some t) : IngestInv svc t := by
  simp only [ingestStep] at hstep
  split at hstep
  · rename_i acq hcall
    have hmem := List.mem_of_getElem? hcall
    split at hstep
    · rename_i found m hlook
      obtain rfl := Option.some.inj hstep
      obtain ⟨_, hright⟩ := lookUp_returned h.agrees h.checkpoints hlook
      refine h.quiet (quiet_refl s.db) rfl fun c hc => ?_
      rcases List.mem_or_eq_of_mem_set hc with hc | rfl
      · exact Or.inl hc
      · refine Or.inr ⟨fun f hf d v hanswer => ?_, (h.calls _ hmem).source⟩
        obtain rfl := Option.some.inj hf
        exact (hright d v hanswer).1
    · obtain rfl := Option.some.inj hstep
      exact h.quiet (quiet_refl s.db) rfl fun c hc => Or.inl (List.mem_of_mem_eraseIdx hc)
  · cases hstep

theorem IngestInv.write (h : IngestInv svc s) (i : Nat) (draws : Draws)
    (faults : IngestStep → Option IngestError)
    (hstep : ingestStep svc s (.write i draws faults) = some t) : IngestInv svc t := by
  obtain ⟨acq, found, hcall, hfresh, hcalls, ⟨hdb, hanswers⟩ | ⟨r, hfinish, hanswers⟩⟩ :=
    ingestStep_write_cases hstep
  · refine h.quiet (hdb ▸ quiet_refl s.db) hanswers fun c hc => ?_
    rw [hcalls] at hc
    exact Or.inl (List.mem_of_mem_eraseIdx hc)
  · have hright := h.calls _ (List.mem_of_getElem? hcall)
    obtain ⟨heffect, htenant, _, hagrees⟩ := finish_returned h.agrees.toWellFormed hfresh.editions
      (hright.found found rfl) hfinish
    obtain ⟨d, v, created, tenant⟩ := r
    obtain rfl : tenant = acq.source.tenantId := htenant
    refine h.wrote heffect hright.source (hagrees h.agrees) hanswers fun c hc => ?_
    rw [hcalls] at hc
    exact List.mem_of_mem_eraseIdx hc

theorem IngestInv.step (h : IngestInv svc s) (a : IngestAction)
    (hstep : ingestStep svc s a = some t) : IngestInv svc t := by
  cases a with
  | begin call files faults => exact h.begin call files faults hstep
  | lookUp i faults => exact h.lookUp i faults hstep
  | write i draws faults => exact h.write i draws faults hstep
  | deleteDocument documentId faults =>
    obtain rfl := Option.some.inj hstep
    exact h.quiet (quiet_deleteDocument documentId faults s.db) rfl fun c hc => Or.inl hc
  | deactivateSource sourceId now faults =>
    obtain rfl := Option.some.inj hstep
    exact h.quiet (quiet_deactivateSource sourceId now faults s.db) rfl fun c hc => Or.inl hc

theorem ingestInv_start (svc : IngestionService) (sources : KeyedTable SourceRow.sourceId) :
    IngestInv svc (ingestSystem svc sources).start where
  agrees := agrees_withSources sources
  distinct := by simp [DistinctEditions, DocumentDb.editions, ingestSystem, IngestState.db,
    DocumentDb.withSources]
  checkpoints := by simp [CheckpointsStored, ingestSystem, IngestState.db, DocumentDb.withSources]
  calls := by simp [ingestSystem]
  answers := consistent_nil fun key ids hs => by
    have hplace := hs.1
    simp [DocumentDb.places, ingestSystem, IngestState.db, DocumentDb.withSources] at hplace
  made := by
    intro key d v hs
    have hplace := hs.1
    simp [DocumentDb.places, ingestSystem, IngestState.db, DocumentDb.withSources] at hplace
  unstored := fun v _ => ⟨rfl, rfl⟩
  registered := by
    intro key d v hs
    have hplace := hs.1
    simp [DocumentDb.places, ingestSystem, IngestState.db, DocumentDb.withSources] at hplace

theorem ingestInv_reachable {sources : KeyedTable SourceRow.sourceId}
    (h : (ingestSystem svc sources).Reachable s) : IngestInv svc s :=
  (ingestSystem svc sources).reachable_invariant (ingestInv_start svc sources)
    (fun _ a _ hi hstep => hi.step a hstep) h

/-- `_ingest_file_impl` is a call of the system that nothing comes in between of. -/
theorem run_ingestFileImpl {sources : KeyedTable SourceRow.sourceId} {files : FileSystem}
    {call : IngestCall} {draws : Draws} {faults : IngestStep → Option IngestError} {w : World}
    {result : IngestionResult} {size : Nat} (hs : (ingestSystem svc sources).Reachable s)
    (hfresh : s.db.FreshVersion draws.versionId)
    (h : ingestFileImpl svc files call draws faults s.world = (w, .ok (result, size))) :
    ∃ acq : Acquired, acq.Reads svc files call ∧
      (ingestSystem svc sources).run s
          [.begin call files faults, .lookUp s.calls.length faults,
            .write s.calls.length draws faults] =
        some ⟨w, s.calls, s.answers ++ [(acq, result)]⟩ := by
  have hi := ingestInv_reachable hs
  have hends := ingestFileImpl_ends svc files call draws faults s.world
  rw [h] at hends
  cases hends with
  | returned acq objects m _ hreads hacquire hraw hbody hcommit =>
    obtain ⟨found, m', hlook, hfinish⟩ := bind_returned_iff.mp hbody
    obtain ⟨rfl, _⟩ := lookUp_returned hi.agrees hi.checkpoints hlook
    have hfinished : unitOfWork .commit (finish svc acq draws found) faults s.world.db =
        (m, .ok result) := unitOfWork_ok_iff.mpr ⟨hfinish, hcommit⟩
    have hbegin : ingestStep svc s (.begin call files faults) =
        some ⟨⟨s.world.db, objects⟩, s.calls ++ [⟨acq, none⟩], s.answers⟩ := by
      simp only [ingestStep, IngestState.db, hacquire, hraw]
    have hlookUp : ingestStep svc ⟨⟨s.world.db, objects⟩, s.calls ++ [⟨acq, none⟩], s.answers⟩
        (.lookUp s.calls.length faults) =
          some ⟨⟨s.world.db, objects⟩, s.calls ++ [⟨acq, some found⟩], s.answers⟩ := by
      simp [ingestStep, IngestState.db, hlook]
    have hwrite : ingestStep svc ⟨⟨s.world.db, objects⟩, s.calls ++ [⟨acq, some found⟩], s.answers⟩
        (.write s.calls.length draws faults) =
          some ⟨⟨m, objects⟩, s.calls, s.answers ++ [(acq, result)]⟩ := by
      have hfresh : s.world.db.FreshVersion draws.versionId := hfresh
      simp [ingestStep, IngestState.db, hfinished, hfresh, List.eraseIdx_append_of_length_le]
    exact ⟨acq, hreads, LabelledSystem.run_cons_iff _ |>.mpr ⟨_, hbegin,
      LabelledSystem.run_cons_iff _ |>.mpr ⟨_, hlookUp, LabelledSystem.run_single _ hwrite⟩⟩⟩

theorem IngestInv.creators_length (h : IngestInv svc s) {key : CheckpointKey} {d v : UUID}
    (hs : s.db.Stored key d v) : (s.creators key).length = 1 := by
  have honce := h.answers.once key (d, v) hs
  simp only [creations, List.filter_map, List.length_map] at honce
  exact honce

theorem IngestInv.chunk_set (h : IngestInv svc s) {key : CheckpointKey} {d v : UUID}
    (hs : s.db.Stored key d v) :
    (s.db.chunksOf v).map Chunk.ordinal = List.range (s.db.chunksOf v).length ∧
      ∀ c ∈ s.db.chunksOf v, c.documentId = d ∧ c.versionId = v := by
  obtain ⟨acq, hmade⟩ := h.made key d v hs
  obtain ⟨draws, content, metadata, _, hchunks, _⟩ := hmade.records
  rw [hchunks]
  exact ⟨chunk_ordinals, fun c hc => chunk_lineage hc⟩

theorem IngestInv.one_event (h : IngestInv svc s) {key : CheckpointKey} {d v : UUID}
    (hs : s.db.Stored key d v) : (s.db.announcements v).length = 1 := by
  obtain ⟨acq, hmade⟩ := h.made key d v hs
  obtain ⟨_, _, _, _, _, hevents⟩ := hmade.records
  rw [hevents]
  rfl

theorem IngestInv.finish_again (h : IngestInv svc s) {draws : Draws}
    {faults : IngestStep → Option IngestError} {acq : Acquired} {found : Found} {d v : UUID}
    {r : IngestionResult} (hs : s.db.Stored acq.key d v) (hfresh : s.db.FreshVersion draws.versionId)
    (hfound : ∀ d v, found.answer = some (d, v) → s.db.Stored acq.key d v)
    (hfinish : finish svc acq draws found faults s.db = .returned r db) :
    r = ⟨d, v, false, acq.source.tenantId⟩ ∧ db.chunks = s.db.chunks ∧ db.outbox = s.db.outbox ∧
      ((∀ d v, found.answer = some (d, v) → PointsAt s.db d v) → IsCurrent db d v) := by
  obtain ⟨heffect, htenant, hpoints, hagrees⟩ :=
    finish_returned h.agrees.toWellFormed hfresh.editions hfound hfinish
  obtain ⟨d', v', created, tenant⟩ := r
  obtain rfl : tenant = acq.source.tenantId := htenant
  have hstored := heffect.entered.stored
  cases heffect.entered with
  | created _ _ habsent _ => exact absurd hs (habsent d v)
  | found _ _ hs' =>
    obtain ⟨rfl, rfl⟩ := hs.unique h.agrees.toWellFormed h.distinct hs'
    cases heffect.recorded with
    | nothing hchunks houtbox =>
      exact ⟨rfl, hchunks, houtbox, fun hcurrent =>
        (hpoints hcurrent).isCurrent (hagrees h.agrees) hstored⟩

theorem IngestInv.again (h : IngestInv svc s) {i : Nat} {draws : Draws}
    {faults : IngestStep → Option IngestError} {acq : Acquired} {found : Found} {d v : UUID}
    (hcall : s.calls[i]? = some ⟨acq, some found⟩) (hs : s.db.Stored acq.key d v)
    (hstep : ingestStep svc s (.write i draws faults) = some t) :
    t.db.chunks = s.db.chunks ∧ t.db.outbox = s.db.outbox ∧
      (t.db = s.db ∧ t.answers = s.answers ∨
        t.answers = s.answers ++ [(acq, ⟨d, v, false, acq.source.tenantId⟩)] ∧
          (found.answer = none → IsCurrent t.db d v)) := by
  obtain ⟨acq', found', hcall', hfresh, _, ⟨hdb, hanswers⟩ | ⟨r, hfinish, hanswers⟩⟩ :=
    ingestStep_write_cases hstep
  · rw [hdb]
    exact ⟨rfl, rfl, Or.inl ⟨rfl, hanswers⟩⟩
  · rw [hcall] at hcall'
    obtain ⟨rfl, hfound⟩ := OpenCall.mk.inj (Option.some.inj hcall')
    obtain rfl := Option.some.inj hfound
    have hright := h.calls _ (List.mem_of_getElem? hcall)
    obtain ⟨rfl, hchunks, houtbox, hcurrent⟩ :=
      h.finish_again hs hfresh (hright.found found rfl) hfinish
    refine ⟨hchunks, houtbox, Or.inr ⟨hanswers, fun hnone => hcurrent ?_⟩⟩
    intro d' v' hanswer
    rw [hnone] at hanswer
    cases hanswer

theorem IngestInv.uninterrupted (h : IngestInv svc s) {draws : Draws}
    {faults : IngestStep → Option IngestError} {acq : Acquired} {d v : UUID} {r : IngestionResult}
    (hs : s.db.Stored acq.key d v) (hfresh : s.db.FreshVersion draws.versionId)
    (hunit : unitOfWork .commit (ingest svc acq draws) faults s.db = (db, .ok r)) :
    r = ⟨d, v, false, acq.source.tenantId⟩ ∧ IsCurrent db d v ∧
      db.chunks = s.db.chunks ∧ db.outbox = s.db.outbox := by
  obtain ⟨hbody, _⟩ := unitOfWork_ok_iff.mp hunit
  obtain ⟨found, m, hlook, hfinish⟩ := bind_returned_iff.mp hbody
  obtain ⟨rfl, hright⟩ := lookUp_returned h.agrees h.checkpoints hlook
  obtain ⟨hr, hchunks, houtbox, hcurrent⟩ :=
    h.finish_again hs hfresh (fun d v hanswer => (hright d v hanswer).1) hfinish
  exact ⟨hr, hcurrent fun d v hanswer => (hright d v hanswer).2, hchunks, houtbox⟩

theorem IngestInv.completes (h : IngestInv svc s) {draws : Draws} {acq : Acquired} {d v : UUID}
    (hs : s.db.Stored acq.key d v) (hfresh : s.db.FreshVersion draws.versionId)
    (hparse : ∃ parsed, parse svc acq = .ok parsed) :
    ∃ db, unitOfWork .commit (ingest svc acq draws) noFaults s.db =
      (db, .ok ⟨d, v, false, acq.source.tenantId⟩) := by
  obtain ⟨⟨content, metadata⟩, hparse⟩ := hparse
  obtain ⟨found, hlook⟩ := lookUp_reads h.agrees h.checkpoints acq.key
  obtain ⟨r, db, hfinish⟩ := finish_stored h.agrees.toWellFormed h.distinct hs hfresh.editions
    (h.registered _ d v hs) hparse
  have hunit : unitOfWork .commit (ingest svc acq draws) noFaults s.db = (db, .ok r) :=
    unitOfWork_ok_iff.mpr ⟨bind_returned_iff.mpr ⟨found, s.db, hlook, hfinish⟩, rfl⟩
  obtain ⟨rfl, _⟩ := h.uninterrupted hs hfresh hunit
  exact ⟨db, hunit⟩

theorem IngestInv.finishes (h : IngestInv svc s) {i : Nat} {draws : Draws} {acq : Acquired}
    {found : Found} {d v : UUID} (hcall : s.calls[i]? = some ⟨acq, some found⟩)
    (hs : s.db.Stored acq.key d v) (hfresh : s.db.FreshVersion draws.versionId)
    (hparse : ∃ parsed, parse svc acq = .ok parsed) :
    ∃ t, ingestStep svc s (.write i draws noFaults) = some t ∧
      t.answers = s.answers ++ [(acq, ⟨d, v, false, acq.source.tenantId⟩)] := by
  obtain ⟨⟨content, metadata⟩, hparse⟩ := hparse
  obtain ⟨r, db, hfinish⟩ := finish_stored h.agrees.toWellFormed h.distinct hs hfresh.editions
    (h.calls _ (List.mem_of_getElem? hcall)).source hparse
  have hunit : unitOfWork .commit (finish svc acq draws found) noFaults s.db = (db, .ok r) :=
    unitOfWork_ok_iff.mpr ⟨hfinish, rfl⟩
  have hstep : ingestStep svc s (.write i draws noFaults) =
      some ⟨⟨db, s.world.objects⟩, s.calls.eraseIdx i, s.answers ++ [(acq, r)]⟩ := by
    simp only [ingestStep, hcall, hfresh, hunit, if_true]
  refine ⟨_, hstep, ?_⟩
  obtain ⟨_, _, ⟨_, hsame⟩ | ⟨hanswers, _⟩⟩ := h.again hcall hs hstep
  · simp at hsame
  · exact hanswers

/-- Whatever calls, deletions and deactivations came before, in whatever order their halves
ran and whatever failed in them. -/
theorem ingestion_idempotent (svc : IngestionService) (sources : KeyedTable SourceRow.sourceId)
    (s : IngestState) (h : (ingestSystem svc sources).Reachable s) : Idempotent svc s := by
  have hi := ingestInv_reachable h
  exact
    { one_version := fun _ _ _ _ _ hs hs' => hs.unique hi.agrees.toWellFormed hi.distinct hs'
      answered := fun a ha => hi.answers.agree (answerOf a) (List.mem_map_of_mem ha)
      same_answer := fun a ha b hb hkey => Prod.mk.inj (hi.answers.same_value
        (List.mem_map_of_mem ha) (List.mem_map_of_mem hb) hkey)
      one_creator := fun _ _ _ hs => hi.creators_length hs
      made := hi.made
      chunk_set := fun _ _ _ hs => hi.chunk_set hs
      one_event := fun _ _ _ hs => hi.one_event hs
      looked_up := fun key faults found db d v hlook hanswer => by
        obtain ⟨_, hright⟩ := lookUp_returned hi.agrees hi.checkpoints hlook
        obtain ⟨hs, hpoints⟩ := hright d v hanswer
        exact ⟨hs, hpoints.isCurrent hi.agrees hs⟩
      again := fun _ _ _ _ _ _ _ _ hcall hs hstep => hi.again hcall hs hstep
      uninterrupted := fun _ _ _ _ _ _ _ hs hfresh hunit => hi.uninterrupted hs hfresh hunit
      completes := fun _ _ _ _ hs hfresh hparse => hi.completes hs hfresh hparse
      finishes := fun _ _ _ _ _ _ hcall hs hfresh hparse => hi.finishes hcall hs hfresh hparse }

/-- Two first calls for one file, which both have found nothing when the first one writes. -/
def raceActions : List IngestAction :=
  [.begin sampleCall sampleFiles noFaults, .begin sampleCall sampleFiles noFaults,
    .lookUp 0 noFaults, .lookUp 1 noFaults, .write 0 sampleDraws noFaults,
    .write 0 { sampleDraws with documentId := 22, versionId := 23 } noFaults]

theorem race_answers :
    ((ingestSystem sampleService sampleSources).run (ingestSystem sampleService sampleSources).start
      raceActions).map (fun s => s.answers.map fun a => (a.2.versionId, a.2.createdNewVersion)) =
        some [(3, true), (3, false)] := by
  decide +kernel

theorem ingestion_idempotent_race :
    ∃ s, (ingestSystem sampleService sampleSources).Reachable s ∧
      s.answers.map (fun a => (a.2.versionId, a.2.createdNewVersion)) = [(3, true), (3, false)] ∧
      Idempotent sampleService s := by
  obtain ⟨s, hs, hanswers⟩ := Option.map_eq_some_iff.mp race_answers
  exact ⟨s, ⟨_, hs⟩, hanswers, ingestion_idempotent sampleService sampleSources s ⟨_, hs⟩⟩

end GroundGraph.Ingestion

import GroundGraph.Ingestion.CurrentVersion

/-! What of the tables decides which version answers an ingestion: where each document
is, and what each version contains. Titles, pointers and marks come and go; the catalogue
only grows, and one statement of the repository adds one entry to it.
-/

set_option autoImplicit false

namespace GroundGraph.Ingestion

open Transaction

structure Place where
  documentId : UUID
  sourceId : UUID
  sourceLocator : String

structure Edition where
  versionId : UUID
  documentId : UUID
  checksum : List Char

def DocumentRow.place (r : DocumentRow) : Place := ⟨r.documentId, r.sourceId, r.sourceLocator⟩

def VersionRow.edition (r : VersionRow) : Edition := ⟨r.versionId, r.documentId, r.checksum⟩

def CheckpointKey.place (key : CheckpointKey) (documentId : UUID) : Place :=
  ⟨documentId, key.sourceId, key.canonicalLocator⟩

def CheckpointKey.edition (key : CheckpointKey) (documentId versionId : UUID) : Edition :=
  ⟨versionId, documentId, key.contentChecksum⟩

def ParsedDocument.key (document : ParsedDocument) : CheckpointKey :=
  ⟨document.sourceId, document.sourceLocator, document.checksum⟩

namespace DocumentDb

def places (db : DocumentDb) : List Place := db.documents.rows.map DocumentRow.place

def editions (db : DocumentDb) : List Edition := db.versions.rows.map VersionRow.edition

/-- This content of this file is stored as this version of this document. -/
def Stored (db : DocumentDb) (key : CheckpointKey) (documentId versionId : UUID) : Prop :=
  key.place documentId ∈ db.places ∧ key.edition documentId versionId ∈ db.editions

end DocumentDb

def DistinctEditions (db : DocumentDb) : Prop :=
  ∀ e ∈ db.editions, ∀ f ∈ db.editions, e.documentId = f.documentId → e.checksum = f.checksum →
    e = f

variable {db db' : DocumentDb} {key : CheckpointKey} {documentId versionId : UUID}
  {document : ParsedDocument}

theorem mem_places_iff {p : Place} :
    p ∈ db.places ↔ ∃ d ∈ db.documents.rows, d.place = p := List.mem_map

theorem mem_editions_iff {e : Edition} :
    e ∈ db.editions ↔ ∃ v ∈ db.versions.rows, v.edition = e := List.mem_map

theorem place_eq_of_documentId {p q : Place} (hp : p ∈ db.places) (hq : q ∈ db.places)
    (h : p.documentId = q.documentId) : p = q := by
  obtain ⟨d, hd, rfl⟩ := mem_places_iff.mp hp
  obtain ⟨d', hd', rfl⟩ := mem_places_iff.mp hq
  rw [db.documents.eq_of_mem hd hd' h]

theorem WellFormed.place_eq (h : WellFormed db) {p q : Place} (hp : p ∈ db.places)
    (hq : q ∈ db.places) (hsource : p.sourceId = q.sourceId)
    (hlocator : p.sourceLocator = q.sourceLocator) : p = q := by
  obtain ⟨d, hd, rfl⟩ := mem_places_iff.mp hp
  obtain ⟨d', hd', rfl⟩ := mem_places_iff.mp hq
  rw [h.located d hd d' hd' hsource hlocator]

theorem WellFormed.exists_place (h : WellFormed db) {e : Edition} (he : e ∈ db.editions) :
    ∃ p ∈ db.places, p.documentId = e.documentId := by
  obtain ⟨v, hv, rfl⟩ := mem_editions_iff.mp he
  obtain ⟨d, hd, hdv⟩ := h.owned v hv
  exact ⟨d.place, mem_places_iff.mpr ⟨d, hd, rfl⟩, hdv⟩

theorem key_eq_of_place {k : CheckpointKey} (hplace : k.place documentId = key.place documentId)
    (hsum : k.contentChecksum = key.contentChecksum) : k = key := by
  have hsource : k.sourceId = key.sourceId := congrArg Place.sourceId hplace
  have hlocator : k.canonicalLocator = key.canonicalLocator := congrArg Place.sourceLocator hplace
  cases k
  cases key
  subst hsource hlocator hsum
  rfl

theorem DocumentDb.Stored.unique (h : WellFormed db) (hdistinct : DistinctEditions db)
    {documentId' versionId' : UUID} (hs : db.Stored key documentId versionId)
    (hs' : db.Stored key documentId' versionId') :
    documentId = documentId' ∧ versionId = versionId' := by
  have hplace := h.place_eq hs.1 hs'.1 rfl rfl
  have hdoc : documentId = documentId' := congrArg Place.documentId hplace
  have hedition := hdistinct _ hs.2 _ hs'.2 hdoc rfl
  exact ⟨hdoc, congrArg Edition.versionId hedition⟩

@[simp] theorem places_setCurrentVersion (target : Option UUID) (db : DocumentDb) :
    (setCurrentVersion documentId target db).places = db.places :=
  db.documents.map_modifyAt documentId (DocumentRow.point target) (fun _ => rfl) fun _ => rfl

@[simp] theorem editions_setCurrentVersion (target : Option UUID) (db : DocumentDb) :
    (setCurrentVersion documentId target db).editions = db.editions := rfl

@[simp] theorem places_clearCurrent (db : DocumentDb) :
    (clearCurrent documentId db).places = db.places := rfl

@[simp] theorem editions_clearCurrent (db : DocumentDb) :
    (clearCurrent documentId db).editions = db.editions := by
  simp only [DocumentDb.editions, clearCurrent, KeyedTable.rows_modify, List.map_map]
  apply List.map_congr_left
  intro v _
  simp only [Function.comp]
  split <;> rfl

/-- The document of a key is at its place, and was there unless it is new. -/
structure HasPlace (key : CheckpointKey) (db db' : DocumentDb) (documentId : UUID) : Prop where
  editions_eq : db'.editions = db.editions
  places_iff : ∀ p, p ∈ db'.places ↔ p ∈ db.places ∨ p = key.place documentId
  by_id : ∀ p ∈ db.places, p.documentId = documentId → p = key.place documentId
  by_place : ∀ p ∈ db.places, p.sourceId = key.sourceId → p.sourceLocator = key.canonicalLocator →
    p = key.place documentId

theorem WellFormed.insertDocument_hasPlace (hwf : WellFormed db)
    (h : insertDocument document db = .ok (documentId, db')) :
    HasPlace document.key db db' documentId := by
  rcases insertDocument_cases h with ⟨row, hrow, rfl, rfl⟩ | ⟨hnone, rfl, hnew, rfl⟩
  · obtain ⟨hmem, hsource, hlocator⟩ := documentAt_some hrow
    have hplace : row.place = document.key.place row.documentId := by
      simp [DocumentRow.place, CheckpointKey.place, ParsedDocument.key, hsource, hlocator]
    have hplaces : row.place ∈ db.places := mem_places_iff.mpr ⟨row, hmem, rfl⟩
    rw [hplace] at hplaces
    refine ⟨rfl, ?_, ?_, ?_⟩
    · intro p
      have hsame := db.documents.map_modifyAt row.documentId
        (DocumentRow.describe document.title document.mediaType) (fun _ => rfl)
        (g := DocumentRow.place) fun _ => rfl
      simp only [DocumentDb.places, hsame]
      exact ⟨Or.inl, fun hp => hp.elim id fun hp => hp ▸ hplaces⟩
    · exact fun p hp hid => place_eq_of_documentId hp hplaces hid
    · exact fun p hp hs hl => hwf.place_eq hp hplaces hs hl
  · refine ⟨rfl, ?_, ?_, ?_⟩
    · intro p
      simp [DocumentDb.places, newDocumentRow, DocumentRow.place, CheckpointKey.place,
        ParsedDocument.key]
    · intro p hp hid
      obtain ⟨d, hd, rfl⟩ := mem_places_iff.mp hp
      exact absurd (List.mem_map.mpr ⟨d, hd, hid⟩) hnew
    · intro p hp hs hl
      obtain ⟨d, hd, rfl⟩ := mem_places_iff.mp hp
      exact absurd hl (documentAt_none hnone d hd hs)

theorem insertVersion_editions (h : insertVersion document documentId db = .ok (versionId, db')) :
    db'.places = db.places ∧
      (document.key.edition documentId versionId ∈ db.editions ∧ db'.editions = db.editions ∨
        versionId = document.versionId ∧ (∀ e ∈ db.editions, e.versionId ≠ versionId ∧
          (e.documentId = documentId → e.checksum ≠ document.checksum)) ∧
        db'.editions = db.editions ++ [document.key.edition documentId versionId]) := by
  rcases insertVersion_cases h with ⟨row, hrow, rfl, rfl⟩ | ⟨hnone, rfl, _, hnew, rfl⟩
  · obtain ⟨hmem, hdoc, hsum⟩ := versionOf_some hrow
    refine ⟨rfl, Or.inl ⟨mem_editions_iff.mpr ⟨row, hmem, ?_⟩, ?_⟩⟩
    · simp [VersionRow.edition, CheckpointKey.edition, ParsedDocument.key, hdoc, hsum]
    · exact db.versions.map_modifyAt row.versionId (VersionRow.setCurrent true) (fun _ => rfl)
        fun _ => rfl
  · refine ⟨rfl, Or.inr ⟨rfl, ?_, ?_⟩⟩
    · intro e he
      obtain ⟨v, hv, rfl⟩ := mem_editions_iff.mp he
      exact ⟨fun hver => hnew (List.mem_map.mpr ⟨v, hv, hver⟩), versionOf_none hnone v hv⟩
    · simp [DocumentDb.editions, newVersionRow, VersionRow.edition, CheckpointKey.edition,
        ParsedDocument.key]

inductive Entered (key : CheckpointKey) (db db' : DocumentDb) (documentId versionId : UUID) :
    Bool → Prop where
  | found (editions_eq : db'.editions = db.editions)
      (stored_iff : ∀ k d v, db'.Stored k d v ↔ db.Stored k d v)
      (stored : db.Stored key documentId versionId) : Entered key db db' documentId versionId false
  | created (editions_eq : db'.editions = db.editions ++ [key.edition documentId versionId])
      (stored_iff : ∀ k d v, db'.Stored k d v ↔
        db.Stored k d v ∨ k = key ∧ d = documentId ∧ v = versionId)
      (absent : ∀ d v, ¬ db.Stored key d v)
      (fresh : ∀ e ∈ db.editions, e.versionId ≠ versionId ∧
        (e.documentId = documentId → e.checksum ≠ key.contentChecksum)) :
      Entered key db db' documentId versionId true

section

variable {m : DocumentDb}

theorem HasPlace.mem_of_edition (h : HasPlace key db m documentId) (hwf : WellFormed db)
    {e : Edition} (he : e ∈ db.editions) (hdoc : e.documentId = documentId) :
    key.place documentId ∈ db.places := by
  obtain ⟨p, hp, hpe⟩ := hwf.exists_place he
  rw [← h.by_id p hp (hpe.trans hdoc)]
  exact hp

theorem HasPlace.entered_found (h : HasPlace key db m documentId) (hwf : WellFormed db)
    (hplaces : db'.places = m.places) (heditions : db'.editions = db.editions)
    (hedition : key.edition documentId versionId ∈ db.editions) :
    Entered key db db' documentId versionId false := by
  refine .found heditions (fun k d v => ?_) ⟨h.mem_of_edition hwf hedition rfl, hedition⟩
  simp only [DocumentDb.Stored, hplaces, heditions, h.places_iff]
  constructor
  · rintro ⟨hp | hp, he⟩
    · exact ⟨hp, he⟩
    · have hd : d = documentId := congrArg Place.documentId hp
      rw [hp]
      exact ⟨h.mem_of_edition hwf he hd, he⟩
  · exact fun hs => ⟨Or.inl hs.1, hs.2⟩

theorem HasPlace.entered_created (h : HasPlace key db m documentId) (hwf : WellFormed db)
    (hplaces : db'.places = m.places)
    (heditions : db'.editions = db.editions ++ [key.edition documentId versionId])
    (hfresh : ∀ e ∈ db.editions, e.versionId ≠ versionId ∧
      (e.documentId = documentId → e.checksum ≠ key.contentChecksum)) :
    Entered key db db' documentId versionId true := by
  refine .created heditions (fun k d v => ?_) (fun d v hs => ?_) hfresh
  · simp only [DocumentDb.Stored, hplaces, heditions, h.places_iff, List.mem_append,
      List.mem_singleton]
    constructor
    · rintro ⟨hp | hp, he | he⟩
      · exact Or.inl ⟨hp, he⟩
      · obtain ⟨rfl, rfl, hsum⟩ := Edition.mk.inj he
        exact Or.inr ⟨key_eq_of_place (h.by_id _ hp rfl) hsum, rfl, rfl⟩
      · have hd : d = documentId := congrArg Place.documentId hp
        rw [hp]
        exact Or.inl ⟨h.mem_of_edition hwf he hd, he⟩
      · obtain ⟨rfl, rfl, hsum⟩ := Edition.mk.inj he
        exact Or.inr ⟨key_eq_of_place hp hsum, rfl, rfl⟩
    · rintro (hs | ⟨rfl, rfl, rfl⟩)
      · exact ⟨Or.inl hs.1, Or.inl hs.2⟩
      · exact ⟨Or.inr rfl, Or.inr rfl⟩
  · have hplace := h.by_place _ hs.1 rfl rfl
    have hd : d = documentId := congrArg Place.documentId hplace
    exact (hfresh _ hs.2).2 hd rfl

theorem Entered.congr {created : Bool} (h : Entered key db m documentId versionId created)
    (hplaces : db'.places = m.places) (heditions : db'.editions = m.editions) :
    Entered key db db' documentId versionId created := by
  have hstored : ∀ k d v, db'.Stored k d v ↔ m.Stored k d v := by
    intro k d v
    simp only [DocumentDb.Stored, hplaces, heditions]
  cases h with
  | found heq hiff hs =>
    exact .found (heditions.trans heq) (fun k d v => (hstored k d v).trans (hiff k d v)) hs
  | created heq hiff habsent hfresh =>
    exact .created (heditions.trans heq) (fun k d v => (hstored k d v).trans (hiff k d v)) habsent
      hfresh

theorem Entered.stored_mono {created : Bool} (h : Entered key db db' documentId versionId created)
    {k : CheckpointKey} {d v : UUID} (hs : db.Stored k d v) : db'.Stored k d v := by
  cases h with
  | found _ hiff _ => exact (hiff k d v).mpr hs
  | created _ hiff _ _ => exact (hiff k d v).mpr (Or.inl hs)

theorem Entered.stored {created : Bool} (h : Entered key db db' documentId versionId created) :
    db'.Stored key documentId versionId := by
  cases h with
  | found _ hiff hs => exact (hiff key documentId versionId).mpr hs
  | created _ hiff _ _ => exact (hiff key documentId versionId).mpr (Or.inr ⟨rfl, rfl, rfl⟩)

theorem Entered.distinct {created : Bool} (h : Entered key db db' documentId versionId created)
    (hdistinct : DistinctEditions db) : DistinctEditions db' := by
  cases h with
  | found heq _ _ => simpa only [DistinctEditions, heq] using hdistinct
  | created heq _ _ hfresh =>
    intro e he f hf hdoc hsum
    rw [heq] at he hf
    rcases List.mem_append.mp he with he | he <;> rcases List.mem_append.mp hf with hf | hf
    · exact hdistinct e he f hf hdoc hsum
    · rw [List.mem_singleton.mp hf] at hdoc hsum
      exact absurd hsum ((hfresh e he).2 hdoc)
    · rw [List.mem_singleton.mp he] at hdoc hsum
      exact absurd hsum.symm ((hfresh f hf).2 hdoc.symm)
    · rw [List.mem_singleton.mp he, List.mem_singleton.mp hf]

end

structure SameElsewhere (db db' : DocumentDb) : Prop where
  sources_eq : db'.sources = db.sources
  chunks_eq : db'.chunks = db.chunks
  checkpoints_eq : db'.checkpoints = db.checkpoints
  outbox_eq : db'.outbox = db.outbox

theorem SameElsewhere.trans {m : DocumentDb} (h : SameElsewhere db m) (h' : SameElsewhere m db') :
    SameElsewhere db db' :=
  ⟨h'.sources_eq.trans h.sources_eq, h'.chunks_eq.trans h.chunks_eq,
    h'.checkpoints_eq.trans h.checkpoints_eq, h'.outbox_eq.trans h.outbox_eq⟩

theorem insertDocument_sameElsewhere (h : insertDocument document db = .ok (documentId, db')) :
    SameElsewhere db db' := by
  rcases insertDocument_cases h with ⟨_, _, _, rfl⟩ | ⟨_, _, _, rfl⟩ <;> exact ⟨rfl, rfl, rfl, rfl⟩

theorem insertVersion_sameElsewhere
    (h : insertVersion document documentId db = .ok (versionId, db')) : SameElsewhere db db' := by
  rcases insertVersion_cases h with ⟨_, _, _, rfl⟩ | ⟨_, _, _, _, rfl⟩ <;>
    exact ⟨rfl, rfl, rfl, rfl⟩

/-- What the statements of an `upsert_document` came to. -/
structure Upserted (document : ParsedDocument) (db db' : DocumentDb)
    (result : ParsedDocument × Bool) (documentId versionId : UUID) (m m' : DocumentDb) : Prop where
  insertDocument_eq : insertDocument document db = .ok (documentId, m)
  insertVersion_eq : insertVersion document documentId (clearCurrent documentId m) =
    .ok (versionId, m')
  result_eq : result = ({ document with documentId := documentId, versionId := versionId },
    decide (versionId = document.versionId))
  db_eq : db' = setCurrentVersion documentId (some versionId) m'

theorem upsertDocument_cases {faults : IngestStep → Option IngestError}
    {result : ParsedDocument × Bool}
    (h : upsertDocument document faults db = .returned result db') :
    ∃ d v m m', Upserted document db db' result d v m m' := by
  obtain ⟨d, m, hdoc, h⟩ := bind_returned_iff.mp h
  obtain ⟨_, m₁, hclear, h⟩ := bind_returned_iff.mp h
  obtain ⟨v, m', hver, h⟩ := bind_returned_iff.mp h
  obtain ⟨_, m₂, hpoint, h⟩ := bind_returned_iff.mp h
  obtain ⟨rfl, rfl⟩ := pure_returned_iff.mp h
  obtain ⟨_, hdoc⟩ := perform_returned_iff.mp hdoc
  obtain ⟨_, rfl⟩ := write_returned_iff.mp hclear
  obtain ⟨_, hver⟩ := perform_returned_iff.mp hver
  obtain ⟨_, rfl⟩ := write_returned_iff.mp hpoint
  exact ⟨d, v, m, m', hdoc, hver, rfl, rfl⟩

theorem Upserted.returned {result : ParsedDocument × Bool} {m m' : DocumentDb}
    (h : Upserted document db db' result documentId versionId m m') :
    upsertDocument document noFaults db = .returned result db' := by
  rw [h.result_eq, h.db_eq]
  refine bind_returned_iff.mpr ⟨_, _, perform_returned_iff.mpr ⟨rfl, h.insertDocument_eq⟩, ?_⟩
  refine bind_returned_iff.mpr ⟨(), _, write_returned_iff.mpr ⟨rfl, rfl⟩, ?_⟩
  refine bind_returned_iff.mpr ⟨_, _, perform_returned_iff.mpr ⟨rfl, h.insertVersion_eq⟩, ?_⟩
  exact bind_returned_iff.mpr ⟨(), _, write_returned_iff.mpr ⟨rfl, rfl⟩, rfl⟩

theorem upsertDocument_returned {faults : IngestStep → Option IngestError}
    {result : ParsedDocument × Bool} (hwf : WellFormed db)
    (hfresh : ∀ e ∈ db.editions, e.versionId ≠ document.versionId)
    (h : upsertDocument document faults db = .returned result db') :
    Entered document.key db db' result.1.documentId result.1.versionId result.2 ∧
      SameElsewhere db db' ∧
      ∀ d ∈ db'.documents.rows, d.documentId = result.1.documentId →
        d.currentVersionId = some result.1.versionId := by
  obtain ⟨d, v, m, m', hdoc, hver, rfl, rfl⟩ := upsertDocument_cases h
  have hplace := hwf.insertDocument_hasPlace hdoc
  obtain ⟨hplaces, hedition⟩ := insertVersion_editions hver
  simp only [places_clearCurrent, editions_clearCurrent, hplace.editions_eq] at hplaces hedition
  refine ⟨?_, ?_, ?_⟩
  · rcases hedition with ⟨hmem, heditions⟩ | ⟨rfl, hnew, heditions⟩
    · have hne : v ≠ document.versionId := hfresh _ hmem
      rw [decide_eq_false hne]
      exact hplace.entered_found hwf (by simpa using hplaces) (by simpa using heditions) hmem
    · rw [decide_eq_true rfl]
      exact hplace.entered_created hwf (by simpa using hplaces) (by simpa using heditions) hnew
  · have hclear : SameElsewhere m (clearCurrent d m) := ⟨rfl, rfl, rfl, rfl⟩
    exact (insertDocument_sameElsewhere hdoc).trans (hclear.trans
      ((insertVersion_sameElsewhere hver).trans ⟨rfl, rfl, rfl, rfl⟩))
  · intro row hrow hid
    obtain ⟨x, hx, rfl⟩ := List.mem_map.mp hrow
    by_cases hxd : x.documentId = d
    · rw [if_pos hxd]
      rfl
    · rw [if_neg hxd] at hid
      exact absurd hid hxd

theorem WellFormed.documentAt_of_place (h : WellFormed db)
    (hplace : key.place documentId ∈ db.places) :
    ∃ row, db.documentAt key.sourceId key.canonicalLocator = some row ∧
      row.documentId = documentId := by
  obtain ⟨d, hd, hdp⟩ := mem_places_iff.mp hplace
  have hsource : d.sourceId = key.sourceId := congrArg Place.sourceId hdp
  have hlocator : d.sourceLocator = key.canonicalLocator := congrArg Place.sourceLocator hdp
  have hid : d.documentId = documentId := congrArg Place.documentId hdp
  cases hat : db.documentAt key.sourceId key.canonicalLocator with
  | none => exact absurd hlocator (documentAt_none hat d hd hsource)
  | some row =>
    obtain ⟨hrow, hs, hl⟩ := documentAt_some hat
    have hsame : row = d := h.located row hrow d hd (hs.trans hsource.symm) (hl.trans hlocator.symm)
    exact ⟨row, rfl, hsame ▸ hid⟩

theorem DistinctEditions.versionOf_of_edition (h : DistinctEditions db)
    (hedition : key.edition documentId versionId ∈ db.editions) :
    ∃ row, db.versionOf documentId key.contentChecksum = some row ∧ row.versionId = versionId := by
  obtain ⟨v, hv, hve⟩ := mem_editions_iff.mp hedition
  have hdoc : v.documentId = documentId := congrArg Edition.documentId hve
  have hsum : v.checksum = key.contentChecksum := congrArg Edition.checksum hve
  have hid : v.versionId = versionId := congrArg Edition.versionId hve
  cases hof : db.versionOf documentId key.contentChecksum with
  | none => exact absurd hsum (versionOf_none hof v hv hdoc)
  | some row =>
    obtain ⟨hrow, hrdoc, hrsum⟩ := versionOf_some hof
    have hsame := h _ (mem_editions_iff.mpr ⟨row, hrow, rfl⟩) _ (mem_editions_iff.mpr ⟨v, hv, rfl⟩)
      (hrdoc.trans hdoc.symm) (hrsum.trans hsum.symm)
    exact ⟨row, rfl, (congrArg Edition.versionId hsame).trans hid⟩

theorem upsertDocument_stored (hwf : WellFormed db) (hdistinct : DistinctEditions db)
    (hs : db.Stored document.key documentId versionId) :
    ∃ db', upsertDocument document noFaults db =
      .returned ({ document with documentId := documentId, versionId := versionId },
        decide (versionId = document.versionId)) db' := by
  obtain ⟨row, hrow, rfl⟩ := hwf.documentAt_of_place hs.1
  obtain ⟨m, hdoc⟩ : ∃ m, insertDocument document db = .ok (row.documentId, m) := by
    have hat : db.documentAt document.sourceId document.sourceLocator = some row := hrow
    simp [insertDocument, hat]
  have hplace := hwf.insertDocument_hasPlace hdoc
  have heditions : (clearCurrent row.documentId m).editions = db.editions := by
    simp [hplace.editions_eq]
  have hdistinct' : DistinctEditions (clearCurrent row.documentId m) := by
    simpa [DistinctEditions, heditions] using hdistinct
  have hedition : document.key.edition row.documentId versionId ∈
      (clearCurrent row.documentId m).editions := heditions ▸ hs.2
  obtain ⟨version, hversion, rfl⟩ := hdistinct'.versionOf_of_edition hedition
  obtain ⟨m', hver⟩ : ∃ m', insertVersion document row.documentId
      (clearCurrent row.documentId m) = .ok (version.versionId, m') := by
    have hof : (clearCurrent row.documentId m).versionOf row.documentId document.checksum =
      some version := hversion
    simp [insertVersion, hof]
  exact ⟨_, Upserted.returned ⟨hdoc, hver, rfl, rfl⟩⟩

end GroundGraph.Ingestion

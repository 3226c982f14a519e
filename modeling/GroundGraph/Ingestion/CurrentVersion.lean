import GroundGraph.Ingestion.DocumentStore

/-! The current version of a document is stored twice: as a pointer in its row and as a
mark on its versions. The two agree after every call of the repository.
-/

set_option autoImplicit false

namespace GroundGraph.Ingestion

/-- `upsert_document`, `create_document`, `delete_document` and `deactivate_source`, each
in its own unit of work. -/
inductive DocumentCall where
  | upsert (document : ParsedDocument)
  | create (document : ParsedDocument)
  | delete (documentId : UUID)
  | deactivate (sourceId : UUID) (now : Instant)

def DocumentCall.body : DocumentCall → DbTransaction Unit
  | .upsert document => do
    let _ ← upsertDocument document
    pure ()
  | .create document => do
    let _ ← createDocument document
    pure ()
  | .delete documentId => deleteDocument documentId
  | .deactivate sourceId now => deactivateSource sourceId now

abbrev FaultyCall := DocumentCall × (IngestStep → Option IngestError)

def applyCall (db : DocumentDb) (call : FaultyCall) : DocumentDb :=
  (Transaction.unitOfWork .commit call.1.body call.2 db).1

/-- `versionId` is a version of the document, and its only current one. -/
def OnlyCurrent (db : DocumentDb) (documentId versionId : UUID) : Prop :=
  (∃ v ∈ db.versions.rows, v.versionId = versionId ∧ v.documentId = documentId ∧
    v.isCurrent = true) ∧
  ∀ v ∈ db.versions.rows, v.documentId = documentId → v.isCurrent = true → v.versionId = versionId

def AtMostOneCurrent (db : DocumentDb) : Prop :=
  ∀ v ∈ db.versions.rows, ∀ w ∈ db.versions.rows, v.documentId = w.documentId →
    v.isCurrent = true → w.isCurrent = true → v = w

def SourceActive (db : DocumentDb) (sourceId : UUID) : Prop :=
  ∃ source ∈ db.sources.rows, source.sourceId = sourceId ∧ source.isActive = true

/-- The two lookups find the same version of this document, or none. -/
def LookupsAgree (db : DocumentDb) (d : DocumentRow) : Prop :=
  ∃ found, getDocument d.documentId Transaction.noFaults db = .returned found db ∧
    findActiveDocument d.sourceId d.sourceLocator Transaction.noFaults db =
      .returned (found.map fun p => (p.documentId, p.versionId)) db

structure CurrentVersionsAgree (db : DocumentDb) : Prop where
  some_iff : ∀ d ∈ db.documents.rows, ∀ versionId,
    d.currentVersionId = some versionId ↔ OnlyCurrent db d.documentId versionId
  none_iff : ∀ d ∈ db.documents.rows, d.currentVersionId = none ↔
    ∀ v ∈ db.versions.rows, v.documentId = d.documentId → v.isCurrent = false
  lookups : ∀ d ∈ db.documents.rows, SourceActive db d.sourceId → LookupsAgree db d
  within_upsert : ∀ document faults, AtMostOneCurrent (upsertDocument document faults db).state

/-- The marks on the versions of a document are those of this pointer. -/
structure Marks (db : DocumentDb) (documentId : UUID) (target : Option UUID) : Prop where
  mark_iff : ∀ v ∈ db.versions.rows, v.documentId = documentId →
    (v.isCurrent = true ↔ target = some v.versionId)
  present : ∀ versionId, target = some versionId →
    ∃ v ∈ db.versions.rows, v.versionId = versionId ∧ v.documentId = documentId

/-- Every version has its document, and no two documents are at one place. -/
structure WellFormed (db : DocumentDb) : Prop where
  owned : ∀ v ∈ db.versions.rows, ∃ d ∈ db.documents.rows, d.documentId = v.documentId
  located : ∀ d ∈ db.documents.rows, ∀ d' ∈ db.documents.rows, d.sourceId = d'.sourceId →
    d.sourceLocator = d'.sourceLocator → d = d'

structure AgreesBut (documentId : UUID) (db : DocumentDb) : Prop extends WellFormed db where
  others : ∀ d ∈ db.documents.rows, d.documentId ≠ documentId →
    Marks db d.documentId d.currentVersionId

structure Agrees (db : DocumentDb) : Prop extends WellFormed db where
  marks : ∀ d ∈ db.documents.rows, Marks db d.documentId d.currentVersionId

theorem Agrees.but {db : DocumentDb} (h : Agrees db) (documentId : UUID) :
    AgreesBut documentId db :=
  ⟨h.toWellFormed, fun d hd _ => h.marks d hd⟩

theorem AgreesBut.agrees {db : DocumentDb} {documentId : UUID} {target : Option UUID}
    (h : AgreesBut documentId db) (hmarks : Marks db documentId target)
    (hpointer : ∀ d ∈ db.documents.rows, d.documentId = documentId → d.currentVersionId = target) :
    Agrees db := by
  refine ⟨h.toWellFormed, fun d hd => ?_⟩
  by_cases hdoc : d.documentId = documentId
  · rw [hpointer d hd hdoc, hdoc]
    exact hmarks
  · exact h.others d hd hdoc

theorem Marks.at_most_one {db : DocumentDb} {documentId : UUID} {target : Option UUID}
    (h : Marks db documentId target) {v w : VersionRow} (hv : v ∈ db.versions.rows)
    (hw : w ∈ db.versions.rows) (hvdoc : v.documentId = documentId)
    (hwdoc : w.documentId = documentId) (hvcur : v.isCurrent = true) (hwcur : w.isCurrent = true) :
    v = w := by
  have hvt := (h.mark_iff v hv hvdoc).mp hvcur
  have hwt := (h.mark_iff w hw hwdoc).mp hwcur
  rw [hvt] at hwt
  exact db.versions.eq_of_mem hv hw (Option.some.inj hwt)

theorem AgreesBut.at_most_one {db : DocumentDb} {documentId : UUID} {target : Option UUID}
    (h : AgreesBut documentId db) (hmarks : Marks db documentId target) : AtMostOneCurrent db := by
  intro v hv w hw hdoc hvcur hwcur
  by_cases hthis : v.documentId = documentId
  · exact hmarks.at_most_one hv hw hthis (hdoc ▸ hthis) hvcur hwcur
  · obtain ⟨d, hd, hdv⟩ := h.owned v hv
    have hd' := h.others d hd (hdv ▸ hthis)
    exact hd'.at_most_one hv hw hdv.symm (hdv.trans hdoc).symm hvcur hwcur

theorem Agrees.at_most_one {db : DocumentDb} (h : Agrees db) : AtMostOneCurrent db := by
  intro v hv w hw hdoc hvcur hwcur
  obtain ⟨d, hd, hdv⟩ := h.owned v hv
  exact (h.marks d hd).at_most_one hv hw hdv.symm (hdv.trans hdoc).symm hvcur hwcur

section Statements

variable {db db' : DocumentDb} {document : ParsedDocument} {documentId versionId : UUID}

theorem WellFormed.modifyDocuments (h : WellFormed db) (k : UUID) (f : DocumentRow → DocumentRow)
    (hid : ∀ r, (f r).documentId = r.documentId) (hsource : ∀ r, (f r).sourceId = r.sourceId)
    (hlocator : ∀ r, (f r).sourceLocator = r.sourceLocator) :
    WellFormed { db with documents := db.documents.modifyAt k f hid } := by
  have hsame : ∀ d, (if d.documentId = k then f d else d).documentId = d.documentId ∧
      (if d.documentId = k then f d else d).sourceId = d.sourceId ∧
      (if d.documentId = k then f d else d).sourceLocator = d.sourceLocator := by
    intro d
    split
    · exact ⟨hid d, hsource d, hlocator d⟩
    · exact ⟨rfl, rfl, rfl⟩
  refine ⟨?_, ?_⟩
  · intro v hv
    obtain ⟨d, hd, hdv⟩ := h.owned v hv
    exact ⟨_, List.mem_map.mpr ⟨d, hd, rfl⟩, (hsame d).1.trans hdv⟩
  · intro d hd d' hd' hs hl
    obtain ⟨x, hx, rfl⟩ := List.mem_map.mp hd
    obtain ⟨x', hx', rfl⟩ := List.mem_map.mp hd'
    rw [(hsame x).2.1, (hsame x').2.1] at hs
    rw [(hsame x).2.2, (hsame x').2.2] at hl
    rw [h.located x hx x' hx' hs hl]

theorem WellFormed.of_versions (h : WellFormed db) {versions : KeyedTable VersionRow.versionId}
    (howned : ∀ v ∈ versions.rows, ∃ d ∈ db.documents.rows, d.documentId = v.documentId) :
    WellFormed { db with versions := versions } :=
  ⟨howned, h.located⟩

theorem Agrees.insertDocument (h : Agrees db)
    (hins : insertDocument document db = .ok (documentId, db')) :
    Agrees db' ∧ ∃ d ∈ db'.documents.rows, d.documentId = documentId := by
  rcases insertDocument_cases hins with ⟨row, hrow, rfl, rfl⟩ | ⟨hnone, rfl, hnew, rfl⟩
  · obtain ⟨hmem, _⟩ := documentAt_some hrow
    refine ⟨⟨h.toWellFormed.modifyDocuments row.documentId
      (DocumentRow.describe document.title document.mediaType) (fun _ => rfl) (fun _ => rfl)
      fun _ => rfl, ?_⟩, _, List.mem_map.mpr ⟨row, hmem, rfl⟩, ?_⟩
    · intro d hd
      obtain ⟨x, hx, rfl⟩ := List.mem_map.mp hd
      have hmarks := h.marks x hx
      split <;> exact ⟨hmarks.mark_iff, hmarks.present⟩
    · simp [DocumentRow.describe]
  · have hnoVersion : ∀ v ∈ db.versions.rows, v.documentId ≠ document.documentId := by
      intro v hv hdoc
      obtain ⟨d, hd, hdv⟩ := h.owned v hv
      exact hnew (List.mem_map.mpr ⟨d, hd, hdv.trans hdoc⟩)
    refine ⟨⟨⟨?_, ?_⟩, ?_⟩, newDocumentRow document, by simp, rfl⟩
    · intro v hv
      obtain ⟨d, hd, hdv⟩ := h.owned v hv
      exact ⟨d, List.mem_append_left _ hd, hdv⟩
    · have hfree := documentAt_none hnone
      intro d hd d' hd' hs hl
      rcases List.mem_append.mp hd with hd | hd <;> rcases List.mem_append.mp hd' with hd' | hd'
      · exact h.located d hd d' hd' hs hl
      · obtain rfl := List.mem_singleton.mp hd'
        exact absurd hl (hfree d hd hs)
      · obtain rfl := List.mem_singleton.mp hd
        exact absurd hl.symm (hfree d' hd' hs.symm)
      · rw [List.mem_singleton.mp hd, List.mem_singleton.mp hd']
    · intro d hd
      rcases List.mem_append.mp hd with hd | hd
      · exact ⟨(h.marks d hd).mark_iff, (h.marks d hd).present⟩
      · obtain rfl := List.mem_singleton.mp hd
        exact ⟨fun v hv hdoc => absurd hdoc (hnoVersion v hv), by simp [newDocumentRow]⟩

theorem AgreesBut.clearCurrent (h : AgreesBut documentId db) :
    AgreesBut documentId (clearCurrent documentId db) ∧
      Marks (clearCurrent documentId db) documentId none := by
  have hid : ∀ x : VersionRow,
      (if x.documentId = documentId then x.setCurrent false else x).documentId = x.documentId := by
    intro x
    split <;> rfl
  refine ⟨⟨h.toWellFormed.of_versions ?_, ?_⟩, ?_, by simp⟩
  · intro v hv
    obtain ⟨x, hx, rfl⟩ := List.mem_map.mp hv
    rw [hid]
    exact h.owned x hx
  · intro d hd hne
    have hmarks := h.others d hd hne
    refine ⟨?_, ?_⟩
    · intro v hv hdoc
      obtain ⟨x, hx, rfl⟩ := List.mem_map.mp hv
      rw [hid] at hdoc
      rw [if_neg fun hx => hne (hdoc.symm.trans hx)]
      exact hmarks.mark_iff x hx hdoc
    · intro u hu
      obtain ⟨v, hv, hvu, hvd⟩ := hmarks.present u hu
      exact ⟨v, List.mem_map.mpr ⟨v, hv, if_neg fun hx => hne (hvd.symm.trans hx)⟩, hvu, hvd⟩
  · intro v hv hdoc
    obtain ⟨x, hx, rfl⟩ := List.mem_map.mp hv
    rw [hid] at hdoc
    simp [hdoc, VersionRow.setCurrent]

theorem Marks.not_current (h : Marks db documentId none) {v : VersionRow}
    (hv : v ∈ db.versions.rows) (hdoc : v.documentId = documentId) : ¬ v.isCurrent = true := by
  intro hcur
  have hmark := (h.mark_iff v hv hdoc).mp hcur
  cases hmark

theorem AgreesBut.markVersion (h : AgreesBut documentId db) (hmarks : Marks db documentId none)
    {row : VersionRow} (hmem : row ∈ db.versions.rows) (hrowdoc : row.documentId = documentId) :
    AgreesBut documentId { db with
        versions := db.versions.modifyAt row.versionId (VersionRow.setCurrent true) fun _ => rfl } ∧
      Marks { db with
        versions := db.versions.modifyAt row.versionId (VersionRow.setCurrent true) fun _ => rfl }
        documentId (some row.versionId) := by
  have hid : ∀ x : VersionRow,
      (if x.versionId = row.versionId then x.setCurrent true else x).documentId = x.documentId := by
    intro x
    split <;> rfl
  refine ⟨⟨h.toWellFormed.of_versions ?_, ?_⟩, ?_, ?_⟩
  · intro v hv
    obtain ⟨x, hx, rfl⟩ := List.mem_map.mp hv
    rw [hid]
    exact h.owned x hx
  · intro d hd hne
    have hd' := h.others d hd hne
    have hkeep : ∀ x ∈ db.versions.rows, x.documentId = d.documentId →
        (if x.versionId = row.versionId then x.setCurrent true else x) = x := by
      intro x hx hdoc
      rw [if_neg]
      intro hver
      rw [db.versions.eq_of_mem hx hmem hver, hrowdoc] at hdoc
      exact hne hdoc.symm
    refine ⟨?_, ?_⟩
    · intro v hv hdoc
      obtain ⟨x, hx, rfl⟩ := List.mem_map.mp hv
      rw [hid] at hdoc
      rw [hkeep x hx hdoc]
      exact hd'.mark_iff x hx hdoc
    · intro u hu
      obtain ⟨v, hv, hvu, hvd⟩ := hd'.present u hu
      exact ⟨v, List.mem_map.mpr ⟨v, hv, hkeep v hv hvd⟩, hvu, hvd⟩
  · intro v hv hdoc
    obtain ⟨x, hx, rfl⟩ := List.mem_map.mp hv
    rw [hid] at hdoc
    by_cases hver : x.versionId = row.versionId
    · rw [if_pos hver]
      simp [VersionRow.setCurrent, hver]
    · rw [if_neg hver]
      simp [hmarks.not_current hx hdoc, Ne.symm hver]
  · intro u hu
    obtain rfl := Option.some.inj hu
    exact ⟨_, List.mem_map.mpr ⟨row, hmem, rfl⟩, by simp [VersionRow.setCurrent],
      (hid row).trans hrowdoc⟩

theorem AgreesBut.appendVersion (h : AgreesBut documentId db) (hmarks : Marks db documentId none)
    (hdoc : ∃ d ∈ db.documents.rows, d.documentId = documentId)
    (hnew : (newVersionRow document documentId).versionId ∉
      db.versions.rows.map VersionRow.versionId) :
    AgreesBut documentId
        { db with versions := db.versions.append (newVersionRow document documentId) hnew } ∧
      Marks { db with versions := db.versions.append (newVersionRow document documentId) hnew }
        documentId (some document.versionId) := by
  obtain ⟨d₀, hd₀, hd₀id⟩ := hdoc
  have hold : ∀ v ∈ db.versions.rows, v.versionId ≠ document.versionId :=
    fun v hv hver => hnew (List.mem_map.mpr ⟨v, hv, hver⟩)
  refine ⟨⟨h.toWellFormed.of_versions ?_, ?_⟩, ?_, ?_⟩
  · intro v hv
    rcases List.mem_append.mp hv with hv | hv
    · exact h.owned v hv
    · obtain rfl := List.mem_singleton.mp hv
      exact ⟨d₀, hd₀, hd₀id⟩
  · intro d hd hne
    have hd' := h.others d hd hne
    refine ⟨?_, ?_⟩
    · intro v hv hdoc
      rcases List.mem_append.mp hv with hv | hv
      · exact hd'.mark_iff v hv hdoc
      · obtain rfl := List.mem_singleton.mp hv
        exact absurd hdoc.symm hne
    · intro u hu
      obtain ⟨v, hv, hvu, hvd⟩ := hd'.present u hu
      exact ⟨v, List.mem_append_left _ hv, hvu, hvd⟩
  · intro v hv hdoc
    rcases List.mem_append.mp hv with hv | hv
    · simp [hmarks.not_current hv hdoc, (hold v hv).symm]
    · obtain rfl := List.mem_singleton.mp hv
      simp [newVersionRow]
  · intro u hu
    obtain rfl := Option.some.inj hu
    exact ⟨newVersionRow document documentId, by simp, rfl, rfl⟩

theorem AgreesBut.insertVersion (h : AgreesBut documentId db) (hmarks : Marks db documentId none)
    (hins : insertVersion document documentId db = .ok (versionId, db')) :
    AgreesBut documentId db' ∧ Marks db' documentId (some versionId) := by
  rcases insertVersion_cases hins with ⟨row, hrow, rfl, rfl⟩ | ⟨_, rfl, hdoc, hnew, rfl⟩
  · obtain ⟨hmem, hrowdoc, _⟩ := versionOf_some hrow
    exact h.markVersion hmarks hmem hrowdoc
  · exact h.appendVersion hmarks hdoc hnew

theorem AgreesBut.setCurrentVersion (h : AgreesBut documentId db) (target : Option UUID) :
    AgreesBut documentId (setCurrentVersion documentId target db) ∧
      ∀ d ∈ (setCurrentVersion documentId target db).documents.rows, d.documentId = documentId →
        d.currentVersionId = target := by
  refine ⟨⟨h.toWellFormed.modifyDocuments documentId (DocumentRow.point target) (fun _ => rfl)
    (fun _ => rfl) fun _ => rfl, ?_⟩, ?_⟩
  · intro d hd hne
    obtain ⟨x, hx, rfl⟩ := List.mem_map.mp hd
    by_cases hdoc : x.documentId = documentId
    · rw [if_pos hdoc] at hne
      exact absurd hdoc hne
    · rw [if_neg hdoc]
      exact ⟨(h.others x hx hdoc).mark_iff, (h.others x hx hdoc).present⟩
  · intro d hd hdoc
    obtain ⟨x, hx, rfl⟩ := List.mem_map.mp hd
    by_cases hx : x.documentId = documentId
    · rw [if_pos hx]
      rfl
    · rw [if_neg hx] at hdoc
      exact absurd hdoc hx

end Statements

open Transaction

/-- At most one version is current at every statement, and in the end the two agree. -/
theorem upsertDocument_triple (document : ParsedDocument) :
    Triple Agrees (upsertDocument document) (fun _ => Agrees) AtMostOneCurrent := by
  refine triple_bind (Q := fun _ => Agrees) ?_ fun documentId => ?_
  · exact triple_perform (fun _ h => h.at_most_one) fun _ _ _ h hins => (h.insertDocument hins).1
  refine triple_bind (Q := fun _ db => AgreesBut documentId db ∧ Marks db documentId none) ?_
    fun _ => ?_
  · exact triple_write (fun _ h => h.at_most_one) fun _ h => (h.but documentId).clearCurrent
  refine triple_bind
    (Q := fun versionId db => AgreesBut documentId db ∧ Marks db documentId (some versionId)) ?_
    fun versionId => ?_
  · exact triple_perform (fun _ h => h.1.at_most_one h.2) fun _ _ _ h hins =>
      h.1.insertVersion h.2 hins
  refine triple_bind (Q := fun _ => Agrees) ?_ fun _ => triple_pure fun _ h => h
  refine triple_write (fun _ h => h.1.at_most_one h.2) fun db h => ?_
  obtain ⟨hbut, hpointer⟩ := h.1.setCurrentVersion (some versionId)
  exact hbut.agrees ⟨h.2.mark_iff, h.2.present⟩ hpointer

theorem deleteDocument_triple (documentId : UUID) :
    Triple Agrees (deleteDocument documentId) (fun _ => Agrees) fun _ => True := by
  refine triple_bind (Q := fun _ db => AgreesBut documentId db ∧
    ∀ d ∈ db.documents.rows, d.documentId = documentId → d.currentVersionId = none) ?_ fun _ => ?_
  · exact triple_write (fun _ _ => trivial) fun _ h => (h.but documentId).setCurrentVersion none
  refine triple_write (fun _ _ => trivial) fun db h => ?_
  obtain ⟨hbut, hmarks⟩ := h.1.clearCurrent
  exact hbut.agrees hmarks h.2

theorem deactivateSource_triple (sourceId : UUID) (now : Instant) :
    Triple Agrees (deactivateSource sourceId now) (fun _ => Agrees) fun _ => True := by
  refine triple_perform (fun _ _ => trivial) fun db _ db' h hdb => ?_
  split at hdb
  · cases hdb
  · obtain ⟨_, rfl⟩ := Prod.mk.inj (Except.ok.inj hdb)
    exact ⟨⟨h.owned, h.located⟩, fun d hd => ⟨(h.marks d hd).mark_iff, (h.marks d hd).present⟩⟩

theorem body_triple (call : DocumentCall) :
    Triple Agrees call.body (fun _ => Agrees) fun _ => True := by
  cases call with
  | upsert document =>
    exact triple_bind (upsertDocument_triple document).anyRaised fun _ => triple_pure fun _ h => h
  | create document =>
    refine triple_bind (Q := fun _ => Agrees) ?_ fun _ => triple_pure fun _ h => h
    exact triple_bind (upsertDocument_triple document).anyRaised fun _ => triple_pure fun _ h => h
  | delete documentId => exact deleteDocument_triple documentId
  | deactivate sourceId now => exact deactivateSource_triple sourceId now

theorem agrees_withSources (sources : KeyedTable SourceRow.sourceId) :
    Agrees (DocumentDb.withSources sources) := by
  refine ⟨⟨?_, ?_⟩, ?_⟩ <;> simp [DocumentDb.withSources]

theorem agrees_calls (sources : KeyedTable SourceRow.sourceId) (calls : List FaultyCall) :
    Agrees (calls.foldl applyCall (DocumentDb.withSources sources)) := by
  refine List.foldlRecOn calls applyCall (agrees_withSources sources) fun db h call _ => ?_
  exact (body_triple call.1).unitOfWork (fun _ _ h => h) .commit call.2 h

theorem Marks.some_iff {db : DocumentDb} {documentId : UUID} {target : Option UUID}
    (h : Marks db documentId target) (versionId : UUID) :
    target = some versionId ↔ OnlyCurrent db documentId versionId := by
  constructor
  · intro htarget
    obtain ⟨v, hv, hver, hdoc⟩ := h.present versionId htarget
    refine ⟨⟨v, hv, hver, hdoc, (h.mark_iff v hv hdoc).mpr (by rw [htarget, hver])⟩, ?_⟩
    intro w hw hwdoc hwcur
    have hmark := (h.mark_iff w hw hwdoc).mp hwcur
    rw [htarget] at hmark
    exact (Option.some.inj hmark).symm
  · rintro ⟨⟨v, hv, hver, hdoc, hcur⟩, _⟩
    rw [(h.mark_iff v hv hdoc).mp hcur, hver]

theorem Marks.none_iff {db : DocumentDb} {documentId : UUID} {target : Option UUID}
    (h : Marks db documentId target) : target = none ↔
      ∀ v ∈ db.versions.rows, v.documentId = documentId → v.isCurrent = false := by
  constructor
  · intro htarget v hv hdoc
    have hmark := h.mark_iff v hv hdoc
    rw [htarget] at hmark
    simpa using hmark
  · intro hnone
    cases htarget : target with
    | none => rfl
    | some versionId =>
      obtain ⟨v, hv, hver, hdoc⟩ := h.present versionId htarget
      have hcur := (h.mark_iff v hv hdoc).mpr (by rw [htarget, hver])
      rw [hnone v hv hdoc] at hcur
      cases hcur

theorem Marks.filter_eq_nil {db : DocumentDb} {documentId : UUID} {target : Option UUID}
    (h : Marks db documentId target) (htarget : target = none) :
    db.versions.rows.filter (fun v => decide (v.documentId = documentId) && v.isCurrent) = [] := by
  rw [List.filter_eq_nil_iff]
  intro v hv hcur
  simp only [Bool.and_eq_true, decide_eq_true_eq] at hcur
  have hnot := h.none_iff.mp htarget v hv hcur.1
  rw [hcur.2] at hnot
  cases hnot

theorem Agrees.lookups {db : DocumentDb} (h : Agrees db) {d : DocumentRow}
    (hd : d ∈ db.documents.rows) (hactive : SourceActive db d.sourceId) : LookupsAgree db d := by
  obtain ⟨source, hsource, hsourceId, hisActive⟩ := hactive
  have hmarks := h.marks d hd
  have hget : db.documents.get? d.documentId = some d := db.documents.mem_rows_iff.mp hd
  have hgetSource : db.sources.get? d.sourceId = some source :=
    db.sources.get?_some_iff.mpr ⟨hsource, hsourceId⟩
  have hat : db.documentAt d.sourceId d.sourceLocator = some d := by
    cases hfind : db.documentAt d.sourceId d.sourceLocator with
    | none => exact absurd rfl (documentAt_none hfind d hd rfl)
    | some d' =>
      obtain ⟨hd', hs, hl⟩ := documentAt_some hfind
      rw [h.located d' hd' d hd hs hl]
  cases hpointer : d.currentVersionId with
  | none =>
    have hnone := hmarks.filter_eq_nil hpointer
    refine ⟨none, ?_, ?_⟩
    · simp [getDocument, getCurrentVersion, bind_apply, pure_apply, query_noFaults, hget, hpointer,
        hnone]
    · simp [findActiveDocument, query_noFaults, hat, hgetSource, hisActive, hpointer]
  | some versionId =>
    obtain ⟨v, hv, hver, hdoc⟩ := hmarks.present versionId hpointer
    have hgetVersion : db.versions.get? versionId = some v :=
      db.versions.get?_some_iff.mpr ⟨hv, hver⟩
    refine ⟨some (documentVersionToDomain d v), ?_, ?_⟩
    · simp [getDocument, getCurrentVersion, bind_apply, pure_apply, query_noFaults, hget, hpointer,
        hgetVersion, hdoc, Option.filter]
    · simp [findActiveDocument, query_noFaults, hat, hgetSource, hisActive, hpointer,
        documentVersionToDomain, hver]

theorem Agrees.currentVersionsAgree {db : DocumentDb} (h : Agrees db) : CurrentVersionsAgree db :=
  { some_iff := fun d hd => (h.marks d hd).some_iff
    none_iff := fun d hd => (h.marks d hd).none_iff
    lookups := fun _ hd hactive => h.lookups hd hactive
    within_upsert := fun document faults =>
      (upsertDocument_triple document).state (fun _ _ h => h.at_most_one) faults h }

/-- After any calls, in any order, whatever fails in them. -/
theorem currentVersions_agree (sources : KeyedTable SourceRow.sourceId) (calls : List FaultyCall) :
    CurrentVersionsAgree (calls.foldl applyCall (DocumentDb.withSources sources)) :=
  (agrees_calls sources calls).currentVersionsAgree

end GroundGraph.Ingestion

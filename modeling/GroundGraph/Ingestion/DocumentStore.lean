import GroundGraph.Ingestion.Documents
import GroundGraph.Library.Transaction
import GroundGraph.Outbox.Repository

/-! The tables of `infrastructure/postgres/models.py` that ingestion writes, and the
statements of `document_repository.py` and `ingestion_checkpoint_repository.py`.

`ON CONFLICT` on a unique constraint is a look for the row with these values; that there
is at most one is proved, as is that no two versions of a document are current.
-/

set_option autoImplicit false

namespace GroundGraph.Ingestion

structure SourceRow where
  sourceId : UUID
  uri : String
  tenantId : String
  allowedPrincipals : List String
  isActive : Bool := true
  deactivatedAt : Option Instant := none

structure DocumentRow where
  documentId : UUID
  sourceId : UUID
  sourceLocator : String
  title : List Char
  mediaType : String
  currentVersionId : Option UUID := none

structure VersionRow where
  versionId : UUID
  documentId : UUID
  checksum : List Char
  content : List Char
  docMetadata : JsonObject
  effectiveAt : Option Instant
  isCurrent : Bool

structure DocumentDb where
  sources : KeyedTable SourceRow.sourceId
  documents : KeyedTable DocumentRow.documentId
  versions : KeyedTable VersionRow.versionId
  chunks : KeyedTable Chunk.chunkId
  checkpoints : KeyedTable IngestionCheckpoint.key
  outbox : Outbox.OutboxTable JsonObject

/-- Sources that were registered, and nothing ingested. -/
def DocumentDb.withSources (sources : KeyedTable SourceRow.sourceId) : DocumentDb :=
  ⟨sources, .empty, .empty, .empty, .empty, .empty⟩

inductive UnsupportedReason where
  | unsupportedMediaType | pdfEncrypted | pdfScannedOnly | pdfNoTextLayer | docxParseError
  | epubParseError | emptyContent | parseError
  deriving DecidableEq, Repr

/-- What an ingestion raises, with the texts of the `ValueError`s as names. `failure` is
whatever else a call of the database, the object store or the file system raises. -/
inductive IngestError where
  | sourceNotFound (sourceId : UUID)
  | emptyTenant
  | symlinkNotAllowed (filePath : String)
  | outsideSourceRoot (filePath : String)
  | fileTooLarge (size : Nat)
  | unsupportedFormat (reason : UnsupportedReason) (detail : String)
  | assertion
  | multipleResults
  | duplicateKey (table : String)
  | foreignKey (table : String)
  | failure (text : String)
  deriving DecidableEq

/-- The steps at which an ingestion, or another call of the repositories, can fail. -/
inductive IngestStep where
  | getSource | commitRead | resolvePath | checkSize | readFile
  | objectExists | putRaw | putRawDone
  | getCheckpoint | getDocument | getCurrentVersion | findActiveDocument | getDocumentVersion
  | parse | buildDocument
  | insertDocument | clearCurrent | insertVersion | setCurrentVersion | upsertCheckpoint
  | chunk | createChunk (ordinal : Nat) | addEvent
  | clearPointer | deactivateSource
  | commit
  deriving DecidableEq

abbrev DbTransaction (α : Type) := Transaction IngestStep IngestError DocumentDb α

def DocumentRow.at? (sourceId : UUID) (sourceLocator : String) (r : DocumentRow) : Bool :=
  decide (r.sourceId = sourceId) && decide (r.sourceLocator = sourceLocator)

def VersionRow.of? (documentId : UUID) (checksum : List Char) (r : VersionRow) : Bool :=
  decide (r.documentId = documentId) && decide (r.checksum = checksum)

def DocumentDb.documentAt (db : DocumentDb) (sourceId : UUID) (sourceLocator : String) :
    Option DocumentRow :=
  db.documents.rows.find? (DocumentRow.at? sourceId sourceLocator)

def DocumentDb.versionOf (db : DocumentDb) (documentId : UUID) (checksum : List Char) :
    Option VersionRow :=
  db.versions.rows.find? (VersionRow.of? documentId checksum)

def DocumentRow.describe (title : List Char) (mediaType : String) (r : DocumentRow) : DocumentRow :=
  { r with title := title, mediaType := mediaType }

def DocumentRow.point (versionId : Option UUID) (r : DocumentRow) : DocumentRow :=
  { r with currentVersionId := versionId }

def VersionRow.setCurrent (current : Bool) (r : VersionRow) : VersionRow :=
  { r with isCurrent := current }

def newDocumentRow (document : ParsedDocument) : DocumentRow :=
  { documentId := document.documentId
    sourceId := document.sourceId
    sourceLocator := document.sourceLocator
    title := document.title
    mediaType := document.mediaType }

def newVersionRow (document : ParsedDocument) (documentId : UUID) : VersionRow :=
  { versionId := document.versionId
    documentId := documentId
    checksum := document.checksum
    content := document.content
    docMetadata := document.metadata
    effectiveAt := document.effectiveAt
    isCurrent := true }

/-- `INSERT INTO documents … ON CONFLICT (source_id, source_locator) DO UPDATE …
RETURNING document_id`. -/
def insertDocument (document : ParsedDocument) (db : DocumentDb) :
    Except IngestError (UUID × DocumentDb) :=
  match db.documentAt document.sourceId document.sourceLocator with
  | some row =>
    .ok (row.documentId, { db with
      documents := db.documents.modifyAt row.documentId
        (DocumentRow.describe document.title document.mediaType) fun _ => rfl })
  | none =>
    if (db.sources.get? document.sourceId).isNone then .error (.foreignKey "documents")
    else
      match db.documents.insert? (newDocumentRow document) with
      | some documents => .ok (document.documentId, { db with documents := documents })
      | none => .error (.duplicateKey "documents")

/-- `UPDATE document_versions SET is_current = false WHERE document_id = …`. -/
def clearCurrent (documentId : UUID) (db : DocumentDb) : DocumentDb :=
  { db with
    versions := db.versions.modify
      (fun v => if v.documentId = documentId then v.setCurrent false else v) (by
        intro v
        split <;> rfl) }

/-- `INSERT INTO document_versions … ON CONFLICT (document_id, checksum) DO UPDATE SET
is_current = TRUE RETURNING version_id`. -/
def insertVersion (document : ParsedDocument) (documentId : UUID) (db : DocumentDb) :
    Except IngestError (UUID × DocumentDb) :=
  match db.versionOf documentId document.checksum with
  | some row =>
    .ok (row.versionId, { db with
      versions := db.versions.modifyAt row.versionId (VersionRow.setCurrent true) fun _ => rfl })
  | none =>
    if (db.documents.get? documentId).isNone then .error (.foreignKey "document_versions")
    else
      match db.versions.insert? (newVersionRow document documentId) with
      | some versions => .ok (document.versionId, { db with versions := versions })
      | none => .error (.duplicateKey "document_versions")

/-- `UPDATE documents SET current_version_id = … WHERE document_id = …`. -/
def setCurrentVersion (documentId : UUID) (versionId : Option UUID) (db : DocumentDb) :
    DocumentDb :=
  { db with
    documents := db.documents.modifyAt documentId (DocumentRow.point versionId) fun _ => rfl }

def sourceToDomain (row : SourceRow) : Except IngestError SourceDescriptor :=
  if h : row.tenantId = "" then .error .emptyTenant
  else
    .ok ⟨row.sourceId, row.uri, row.tenantId, row.allowedPrincipals, row.isActive,
      row.deactivatedAt, h⟩

def documentVersionToDomain (document : DocumentRow) (version : VersionRow) : ParsedDocument :=
  { documentId := document.documentId
    versionId := version.versionId
    sourceId := document.sourceId
    sourceLocator := document.sourceLocator
    title := document.title
    mediaType := document.mediaType
    checksum := version.checksum
    content := version.content
    metadata := version.docMetadata
    effectiveAt := version.effectiveAt }

def getSource (sourceId : UUID) : DbTransaction (Option SourceDescriptor) :=
  .query .getSource fun db =>
    match db.sources.get? sourceId with
    | none => .ok none
    | some row => (sourceToDomain row).map some

def deactivateSource (sourceId : UUID) (now : Instant) : DbTransaction Unit :=
  .perform .deactivateSource fun db =>
    match db.sources.get? sourceId with
    | none => .error (.sourceNotFound sourceId)
    | some _ =>
      .ok ((), { db with
        sources := db.sources.modifyAt sourceId
          (fun r => { r with isActive := false, deactivatedAt := some now }) fun _ => rfl })

/-- `find_active_document_by_canonical_locator`. -/
def findActiveDocument (sourceId : UUID) (sourceLocator : String) :
    DbTransaction (Option (UUID × UUID)) :=
  .query .findActiveDocument fun db =>
    match db.documentAt sourceId sourceLocator, db.sources.get? sourceId with
    | some row, some source =>
      if source.isActive then .ok (row.currentVersionId.map fun v => (row.documentId, v))
      else .ok none
    | _, _ => .ok none

/-- `upsert_document`: the document as it is stored, and whether its version is new. -/
def upsertDocument (document : ParsedDocument) : DbTransaction (ParsedDocument × Bool) := do
  let documentId ← .perform .insertDocument (insertDocument document)
  .write .clearCurrent (clearCurrent documentId)
  let versionId ← .perform .insertVersion (insertVersion document documentId)
  .write .setCurrentVersion (setCurrentVersion documentId (some versionId))
  pure ({ document with documentId := documentId, versionId := versionId },
    decide (versionId = document.versionId))

def createDocument (document : ParsedDocument) : DbTransaction ParsedDocument := do
  let (stored, _) ← upsertDocument document
  pure stored

/-- `_get_current_version`: the version pointed at, or the one that is marked when there
is no pointer. -/
def getCurrentVersion (documentId : UUID) (currentVersionId : Option UUID) :
    DbTransaction (Option VersionRow) :=
  .query .getCurrentVersion fun db =>
    match currentVersionId with
    | some versionId =>
      .ok ((db.versions.get? versionId).filter fun v => decide (v.documentId = documentId))
    | none =>
      match db.versions.rows.filter fun v => decide (v.documentId = documentId) && v.isCurrent with
      | [] => .ok none
      | [v] => .ok (some v)
      | _ => .error .multipleResults

def getDocument (documentId : UUID) : DbTransaction (Option ParsedDocument) := do
  let row ← .query .getDocument fun db => .ok (db.documents.get? documentId)
  match row with
  | none => pure none
  | some row =>
    let version ← getCurrentVersion row.documentId row.currentVersionId
    pure (version.map (documentVersionToDomain row))

def getDocumentVersion (documentId versionId : UUID) : DbTransaction (Option ParsedDocument) :=
  .query .getDocumentVersion fun db =>
    match db.documents.get? documentId, db.versions.get? versionId with
    | some row, some version =>
      if version.documentId = documentId then .ok (some (documentVersionToDomain row version))
      else .ok none
    | _, _ => .ok none

def createChunk (chunk : Chunk) : DbTransaction Unit :=
  .perform (.createChunk chunk.ordinal) fun db =>
    match (db.versions.get? chunk.versionId).filter
      fun v => decide (v.documentId = chunk.documentId) with
    | none => .error (.foreignKey "chunks")
    | some _ =>
      match db.chunks.insert? chunk with
      | some chunks => .ok ((), { db with chunks := chunks })
      | none => .error (.duplicateKey "chunks")

/-- `delete_document`: the document and its versions stay, none is current. -/
def deleteDocument (documentId : UUID) : DbTransaction Unit := do
  .write .clearPointer (setCurrentVersion documentId none)
  .write .clearCurrent (clearCurrent documentId)

def getCheckpoint (key : CheckpointKey) : DbTransaction (Option IngestionCheckpoint) :=
  .query .getCheckpoint fun db => .ok (db.checkpoints.get? key)

/-- `upsert_checkpoint`; a row that is there keeps its id and its creation time. -/
def upsertCheckpoint (checkpoint : IngestionCheckpoint) : DbTransaction Unit :=
  .perform .upsertCheckpoint fun db =>
    if (db.sources.get? checkpoint.key.sourceId).isNone then
      .error (.foreignKey "ingestion_checkpoints")
    else
      let row := match db.checkpoints.get? checkpoint.key with
        | some old =>
          { checkpoint with checkpointId := old.checkpointId, createdAt := old.createdAt }
        | none => checkpoint
      .ok ((), { db with checkpoints := db.checkpoints.upsert row })

def addEvent (event : Outbox.OutboxEvent JsonObject) : DbTransaction Unit :=
  .perform .addEvent fun db =>
    match Outbox.add db.outbox event with
    | .ok outbox => .ok ((), { db with outbox := outbox })
    | .error _ => .error (.duplicateKey "outbox")

theorem documentAt_some {db : DocumentDb} {sourceId : UUID} {sourceLocator : String}
    {row : DocumentRow} (h : db.documentAt sourceId sourceLocator = some row) :
    row ∈ db.documents.rows ∧ row.sourceId = sourceId ∧ row.sourceLocator = sourceLocator := by
  have hat := List.find?_some h
  simp only [DocumentRow.at?, Bool.and_eq_true, decide_eq_true_eq] at hat
  exact ⟨List.mem_of_find?_eq_some h, hat⟩

theorem documentAt_none {db : DocumentDb} {sourceId : UUID} {sourceLocator : String}
    (h : db.documentAt sourceId sourceLocator = none) :
    ∀ r ∈ db.documents.rows, r.sourceId = sourceId → r.sourceLocator ≠ sourceLocator := by
  intro r hr hsource hlocator
  have hnot := List.find?_eq_none.mp h r hr
  simp [DocumentRow.at?, hsource, hlocator] at hnot

theorem versionOf_some {db : DocumentDb} {documentId : UUID} {checksum : List Char}
    {row : VersionRow} (h : db.versionOf documentId checksum = some row) :
    row ∈ db.versions.rows ∧ row.documentId = documentId ∧ row.checksum = checksum := by
  have hof := List.find?_some h
  simp only [VersionRow.of?, Bool.and_eq_true, decide_eq_true_eq] at hof
  exact ⟨List.mem_of_find?_eq_some h, hof⟩

theorem versionOf_none {db : DocumentDb} {documentId : UUID} {checksum : List Char}
    (h : db.versionOf documentId checksum = none) :
    ∀ r ∈ db.versions.rows, r.documentId = documentId → r.checksum ≠ checksum := by
  intro r hr hdoc hsum
  have hnot := List.find?_eq_none.mp h r hr
  simp [VersionRow.of?, hdoc, hsum] at hnot

theorem insertDocument_cases {document : ParsedDocument} {documentId : UUID} {db db' : DocumentDb}
    (h : insertDocument document db = .ok (documentId, db')) :
    (∃ row, db.documentAt document.sourceId document.sourceLocator = some row ∧
        documentId = row.documentId ∧
        db' = { db with
          documents := db.documents.modifyAt row.documentId
            (DocumentRow.describe document.title document.mediaType) fun _ => rfl }) ∨
      (db.documentAt document.sourceId document.sourceLocator = none ∧
        documentId = document.documentId ∧
        ∃ hnew, db' = { db with documents := db.documents.append (newDocumentRow document) hnew }) := by
  unfold insertDocument at h
  split at h
  · rename_i row hrow
    obtain ⟨rfl, rfl⟩ := Prod.mk.inj (Except.ok.inj h)
    exact Or.inl ⟨row, hrow, rfl, rfl⟩
  · rename_i hnone
    split at h
    · cases h
    · split at h
      · rename_i documents hins
        obtain ⟨rfl, rfl⟩ := Prod.mk.inj (Except.ok.inj h)
        obtain ⟨hnew, rfl⟩ := KeyedTable.insert?_some_iff.mp hins
        exact Or.inr ⟨hnone, rfl, hnew, rfl⟩
      · cases h

theorem insertVersion_cases {document : ParsedDocument} {documentId versionId : UUID}
    {db db' : DocumentDb} (h : insertVersion document documentId db = .ok (versionId, db')) :
    (∃ row, db.versionOf documentId document.checksum = some row ∧ versionId = row.versionId ∧
        db' = { db with
          versions := db.versions.modifyAt row.versionId (VersionRow.setCurrent true)
            fun _ => rfl }) ∨
      (db.versionOf documentId document.checksum = none ∧ versionId = document.versionId ∧
        (∃ d ∈ db.documents.rows, d.documentId = documentId) ∧
        ∃ hnew, db' = { db with
          versions := db.versions.append (newVersionRow document documentId) hnew }) := by
  unfold insertVersion at h
  split at h
  · rename_i row hrow
    obtain ⟨rfl, rfl⟩ := Prod.mk.inj (Except.ok.inj h)
    exact Or.inl ⟨row, hrow, rfl, rfl⟩
  · rename_i hnone
    split at h
    · cases h
    · rename_i hdoc
      split at h
      · rename_i versions hins
        obtain ⟨rfl, rfl⟩ := Prod.mk.inj (Except.ok.inj h)
        obtain ⟨hnew, rfl⟩ := KeyedTable.insert?_some_iff.mp hins
        obtain ⟨d, hd⟩ := Option.ne_none_iff_exists'.mp (by simpa using hdoc)
        exact Or.inr ⟨hnone, rfl, ⟨d, db.documents.get?_some_iff.mp hd⟩, hnew, rfl⟩
      · cases h

end GroundGraph.Ingestion

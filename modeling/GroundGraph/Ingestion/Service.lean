import GroundGraph.Ingestion.Chunker
import GroundGraph.Ingestion.DocumentStore

/-! `IngestionService._ingest_file_impl` (`application/ingestion/services.py`). The file
is read and put into the object store; then one unit of work looks for what is stored
already and writes the document, its checkpoint, its chunks and an outbox event.
-/

set_option autoImplicit false

namespace GroundGraph.Ingestion

open Transaction

/-- What a service is built with; `sha256` is the hexadecimal digest. -/
structure IngestionService where
  parsers : String → Option (List UInt8 → Except IngestError (ParsedContent × JsonObject))
  sha256 : List UInt8 → List Char
  config : ChunkerConfig := {}
  chunkerVersion : List Char := "v1".toList

/-- What `pathlib` says about the files. -/
structure FileSystem where
  resolve : String → String
  isSymlink : String → Bool
  isRelativeTo : String → String → Bool
  size : String → Nat
  readBytes : String → List UInt8

/-- `MarkdownParser`, which finds no metadata. -/
def markdownParser (content : List UInt8) : Except IngestError (ParsedContent × JsonObject) :=
  .ok (parseMarkdown content, [])

structure StoredObject where
  key : List Char
  data : List UInt8
  contentType : String

abbrev ObjectStore := KeyedTable StoredObject.key

structure World where
  db : DocumentDb
  objects : ObjectStore

structure IngestCall where
  sourceId : UUID
  filePath : String
  mediaType : String

/-- The values that one call draws from `uuid4()` and reads off the clock. -/
structure Draws where
  documentId : UUID
  versionId : UUID
  checkpointId : UUID
  eventId : UUID
  chunkId : UuidSource
  effectiveAt : Instant
  checkpointAt : Instant
  createdAt : Instant

structure IngestionResult where
  documentId : UUID
  versionId : UUID
  createdNewVersion : Bool
  tenantId : String
  deriving DecidableEq

structure Acquired where
  call : IngestCall
  source : SourceDescriptor
  rawBytes : List UInt8
  checksum : List Char
  canonicalLocator : String

def Acquired.key (acq : Acquired) : CheckpointKey :=
  ⟨acq.call.sourceId, acq.canonicalLocator, acq.checksum⟩

def resolveSafePath (files : FileSystem) (sourceRoot filePath : String) :
    Except IngestError String :=
  if files.isSymlink filePath then .error (.symlinkNotAllowed filePath)
  else if files.isRelativeTo (files.resolve filePath) (files.resolve sourceRoot) then
    .ok (files.resolve filePath)
  else .error (.outsideSourceRoot filePath)

def maxFileSize : Nat := 100 * 1024 * 1024

def checkSize (files : FileSystem) (path : String) : Except IngestError Unit :=
  if maxFileSize < files.size path then .error (.fileTooLarge (files.size path)) else .ok ()

/-- `_acquire_and_validate` once the source is known. -/
def acquireFile (svc : IngestionService) (files : FileSystem) (call : IngestCall)
    (source : SourceDescriptor) (faults : IngestStep → Option IngestError) :
    Except IngestError Acquired := do
  let path ← failing faults .resolvePath
    (resolveSafePath files source.uri call.filePath)
  failing faults .checkSize (checkSize files path)
  let rawBytes ← failing faults .readFile (.ok (files.readBytes path))
  pure ⟨call, source, rawBytes, svc.sha256 rawBytes, path⟩

def acquireAndValidate (svc : IngestionService) (files : FileSystem) (call : IngestCall)
    (faults : IngestStep → Option IngestError) (db : DocumentDb) :
    DocumentDb × Except IngestError Acquired :=
  match unitOfWork .commitRead (getSource call.sourceId) faults db with
  | (db, .error e) => (db, .error e)
  | (db, .ok none) => (db, .error (.sourceNotFound call.sourceId))
  | (db, .ok (some source)) => (db, acquireFile svc files call source faults)

structure Acquired.Reads (acq : Acquired) (svc : IngestionService) (files : FileSystem)
    (call : IngestCall) : Prop where
  call_eq : acq.call = call
  rawBytes_eq : acq.rawBytes = files.readBytes (files.resolve call.filePath)
  checksum_eq : acq.checksum = svc.sha256 acq.rawBytes
  canonicalLocator_eq : acq.canonicalLocator = files.resolve call.filePath

theorem resolveSafePath_ok {files : FileSystem} {sourceRoot filePath path : String}
    (h : resolveSafePath files sourceRoot filePath = .ok path) : path = files.resolve filePath := by
  unfold resolveSafePath at h
  split at h
  · cases h
  · split at h
    · exact (Except.ok.inj h).symm
    · cases h

theorem acquireFile_ok {svc : IngestionService} {files : FileSystem} {call : IngestCall}
    {source : SourceDescriptor} {faults : IngestStep → Option IngestError} {acq : Acquired}
    (h : acquireFile svc files call source faults = .ok acq) :
    acq.Reads svc files call ∧ acquireFile svc files call source noFaults = .ok acq := by
  obtain ⟨path, hpath, h⟩ := Except.bind_ok_iff.mp h
  obtain ⟨u, hsize, h⟩ := Except.bind_ok_iff.mp h
  obtain ⟨rawBytes, hread, h⟩ := Except.bind_ok_iff.mp h
  obtain ⟨_, hpath⟩ := failing_ok_iff.mp hpath
  obtain ⟨_, hsize⟩ := failing_ok_iff.mp hsize
  obtain ⟨_, hread⟩ := failing_ok_iff.mp hread
  obtain rfl := Except.ok.inj h
  obtain rfl := Except.ok.inj hread
  obtain rfl := resolveSafePath_ok hpath
  refine ⟨⟨rfl, rfl, rfl, rfl⟩, ?_⟩
  refine Except.bind_ok_iff.mpr ⟨_, hpath, ?_⟩
  exact Except.bind_ok_iff.mpr ⟨_, hsize, rfl⟩

/-- The raw object of a file, under a key that its content determines. -/
def Acquired.rawObject (acq : Acquired) : StoredObject :=
  { key := "sources/".toList ++ strUuid acq.call.sourceId ++ '/' :: acq.checksum ++ "/raw".toList
    data := acq.rawBytes
    contentType :=
      if acq.call.mediaType = "" then "application/octet-stream" else acq.call.mediaType }

/-- `if not await exists(raw_key): await put_raw(…)`; the put can fail before or after the
object is there. -/
def storeRaw (acq : Acquired) (faults : IngestStep → Option IngestError) (objects : ObjectStore) :
    ObjectStore × Except IngestError Unit :=
  match faults .objectExists with
  | some e => (objects, .error e)
  | none =>
    if (objects.get? acq.rawObject.key).isSome then (objects, .ok ())
    else
      match faults .putRaw with
      | some e => (objects, .error e)
      | none => (objects.upsert acq.rawObject, failing faults .putRawDone (.ok ()))

/-- What the lookups find: a checkpoint whose document is current, an active document with
this content or with another one, or nothing. -/
inductive Found where
  | resumed (documentId versionId : UUID)
  | current (documentId versionId : UUID)
  | changed (documentId : UUID)
  | absent

def resumeFrom (key : CheckpointKey) : Option IngestionCheckpoint → DbTransaction (Option Found)
  | none => pure none
  | some checkpoint =>
    if checkpoint.status = .persisted then
      match checkpoint.documentId, checkpoint.versionId with
      | some documentId, some _ => do
        let existing ← getDocument documentId
        match existing with
        | none => pure none
        | some document =>
          if document.checksum = key.contentChecksum then
            pure (some (.resumed documentId document.versionId))
          else pure none
      | _, _ => .raise .assertion
    else pure none

def findCurrent (key : CheckpointKey) : DbTransaction Found := do
  let existing ← findActiveDocument key.sourceId key.canonicalLocator
  match existing with
  | none => pure .absent
  | some (documentId, versionId) =>
    let current ← getDocumentVersion documentId versionId
    match current with
    | none => pure (.changed documentId)
    | some document =>
      if document.checksum = key.contentChecksum then pure (.current documentId versionId)
      else pure (.changed documentId)

def lookUp (key : CheckpointKey) : DbTransaction Found := do
  let checkpoint ← getCheckpoint key
  let resumed ← resumeFrom key checkpoint
  match resumed with
  | some found => pure found
  | none => findCurrent key

def parse (svc : IngestionService) (acq : Acquired) : Except IngestError (ParsedContent × JsonObject) :=
  match svc.parsers acq.call.mediaType with
  | none => .error (.unsupportedFormat .unsupportedMediaType acq.call.mediaType)
  | some parser => parser acq.rawBytes

def parsedDocument (acq : Acquired) (draws : Draws) (documentId : UUID) (parsed : ParsedContent)
    (metadata : JsonObject) : ParsedDocument :=
  { documentId := documentId
    versionId := draws.versionId
    sourceId := acq.call.sourceId
    sourceLocator := acq.canonicalLocator
    title := parsed.title
    mediaType := acq.call.mediaType
    checksum := acq.checksum
    content := parsed.body
    metadata := JsonObject.update
      [("file_path", .str acq.call.filePath), ("canonical_locator", .str acq.canonicalLocator)]
      metadata
    effectiveAt := some draws.effectiveAt }

def persistedCheckpoint (acq : Acquired) (draws : Draws) (documentId versionId : UUID) :
    IngestionCheckpoint :=
  { checkpointId := draws.checkpointId
    key := acq.key
    status := .persisted
    documentId := some documentId
    versionId := some versionId
    createdAt := draws.checkpointAt
    updatedAt := draws.checkpointAt
    completedAt := some draws.checkpointAt }

def encodeUtf8 (text : List Char) : List UInt8 := text.flatMap String.utf8EncodeChar

def documentChunks (svc : IngestionService) (acq : Acquired) (draws : Draws)
    (documentId versionId : UUID) (parsed : ParsedContent) : List Chunk :=
  chunk (fun text => svc.sha256 (encodeUtf8 text)) svc.config parsed
    ⟨documentId, versionId, acq.source.allowedPrincipals, svc.chunkerVersion⟩ draws.chunkId

def documentParsed (acq : Acquired) (draws : Draws) (documentId versionId : UUID) :
    Outbox.OutboxEvent JsonObject :=
  { eventId := draws.eventId
    aggregateType := "document"
    aggregateId := documentId
    eventType := .documentParsed
    payload :=
      [("document_id", .str (String.ofList (strUuid documentId))),
       ("version_id", .str (String.ofList (strUuid versionId))),
       ("source_id", .str (String.ofList (strUuid acq.call.sourceId))),
       ("tenant_id", .str acq.source.tenantId)]
    createdAt := draws.createdAt }

def storeChunks (svc : IngestionService) (acq : Acquired) (draws : Draws)
    (documentId versionId : UUID) (parsed : ParsedContent) : DbTransaction Unit := do
  let chunks ← .attempt .chunk (.ok (documentChunks svc acq draws documentId versionId parsed))
  .forEach createChunk chunks
  addEvent (documentParsed acq draws documentId versionId)

def store (svc : IngestionService) (acq : Acquired) (draws : Draws) (documentId : UUID) :
    DbTransaction IngestionResult := do
  let (parsed, metadata) ← .attempt .parse (parse svc acq)
  let document ← .attempt .buildDocument (.ok (parsedDocument acq draws documentId parsed metadata))
  let (stored, isNewVersion) ← upsertDocument document
  upsertCheckpoint (persistedCheckpoint acq draws stored.documentId stored.versionId)
  (if isNewVersion then storeChunks svc acq draws stored.documentId stored.versionId parsed
    else pure ())
  pure ⟨stored.documentId, stored.versionId, isNewVersion, acq.source.tenantId⟩

def finish (svc : IngestionService) (acq : Acquired) (draws : Draws) :
    Found → DbTransaction IngestionResult
  | .resumed documentId versionId => pure ⟨documentId, versionId, false, acq.source.tenantId⟩
  | .current documentId versionId => do
    upsertCheckpoint (persistedCheckpoint acq draws documentId versionId)
    pure ⟨documentId, versionId, false, acq.source.tenantId⟩
  | .changed documentId => store svc acq draws documentId
  | .absent => store svc acq draws draws.documentId

def ingest (svc : IngestionService) (acq : Acquired) (draws : Draws) :
    DbTransaction IngestionResult := do
  let found ← lookUp acq.key
  finish svc acq draws found

/-- `_ingest_file_impl`: the result with the size of the file. -/
def ingestFileImpl (svc : IngestionService) (files : FileSystem) (call : IngestCall)
    (draws : Draws) (faults : IngestStep → Option IngestError) (w : World) :
    World × Except IngestError (IngestionResult × Nat) :=
  match acquireAndValidate svc files call faults w.db with
  | (db, .error e) => (⟨db, w.objects⟩, .error e)
  | (db, .ok acq) =>
    match storeRaw acq faults w.objects with
    | (objects, .error e) => (⟨db, objects⟩, .error e)
    | (objects, .ok ()) =>
      match unitOfWork .commit (ingest svc acq draws) faults db with
      | (db, .error e) => (⟨db, objects⟩, .error e)
      | (db, .ok result) => (⟨db, objects⟩, .ok (result, acq.rawBytes.length))

theorem getSource_returned {sourceId : UUID} {faults : IngestStep → Option IngestError}
    {source : Option SourceDescriptor} {db db' : DocumentDb}
    (h : getSource sourceId faults db = .returned source db') :
    db' = db ∧ getSource sourceId noFaults db = .returned source db := by
  obtain ⟨_, hsource, rfl⟩ := query_returned_iff.mp h
  exact ⟨rfl, query_returned_iff.mpr ⟨rfl, hsource, rfl⟩⟩

theorem getSource_registered {sourceId : UUID} {faults : IngestStep → Option IngestError}
    {source : SourceDescriptor} {db db' : DocumentDb}
    (h : getSource sourceId faults db = .returned (some source) db') :
    (db.sources.get? sourceId).isSome = true := by
  obtain ⟨_, hsource, _⟩ := query_returned_iff.mp h
  cases hget : db.sources.get? sourceId with
  | none =>
    rw [hget] at hsource
    cases hsource
  | some row => rfl

theorem acquireAndValidate_cases (svc : IngestionService) (files : FileSystem) (call : IngestCall)
    (faults : IngestStep → Option IngestError) (db : DocumentDb) :
    (∃ e, acquireAndValidate svc files call faults db = (db, .error e)) ∨
      ∃ acq, acquireAndValidate svc files call faults db = (db, .ok acq) ∧
        acq.Reads svc files call ∧ (db.sources.get? call.sourceId).isSome = true ∧
        acquireAndValidate svc files call noFaults db = (db, .ok acq) := by
  rcases unitOfWork_cases .commitRead (getSource call.sourceId) faults db with
    ⟨e, hread⟩ | ⟨found, t, hbody, _, hread⟩
  · exact Or.inl ⟨e, by simp [acquireAndValidate, hread]⟩
  · obtain ⟨rfl, hbody⟩ := getSource_returned hbody
    cases found with
    | none => exact Or.inl ⟨.sourceNotFound call.sourceId, by simp [acquireAndValidate, hread]⟩
    | some source =>
      have hread' : unitOfWork .commitRead (getSource call.sourceId) noFaults t =
          (t, .ok (some source)) := unitOfWork_ok_iff.mpr ⟨hbody, rfl⟩
      cases hacquire : acquireFile svc files call source faults with
      | error e => exact Or.inl ⟨e, by simp [acquireAndValidate, hread, hacquire]⟩
      | ok acq =>
        obtain ⟨hreads, hacquire'⟩ := acquireFile_ok hacquire
        exact Or.inr ⟨acq, by simp [acquireAndValidate, hread, hacquire], hreads,
          getSource_registered hbody, by simp [acquireAndValidate, hread', hacquire']⟩

theorem storeRaw_cases (acq : Acquired) (faults : IngestStep → Option IngestError)
    (objects : ObjectStore) :
    (storeRaw acq faults objects).1 = objects ∨
      objects.get? acq.rawObject.key = none ∧
        (storeRaw acq faults objects).1 = objects.upsert acq.rawObject := by
  unfold storeRaw
  cases faults .objectExists with
  | some e => exact Or.inl rfl
  | none =>
    cases hget : objects.get? acq.rawObject.key with
    | some object => exact Or.inl rfl
    | none =>
      cases faults .putRaw with
      | some e => exact Or.inl rfl
      | none => exact Or.inr ⟨rfl, rfl⟩

/-- A call raises before it has its file, or at the object store, or in its unit of work, or
it returns. -/
inductive CallEnds (svc : IngestionService) (files : FileSystem) (call : IngestCall) (draws : Draws)
    (faults : IngestStep → Option IngestError) (w : World) :
    World × Except IngestError (IngestionResult × Nat) → Prop where
  | unread (e : IngestError) : CallEnds svc files call draws faults w (w, .error e)
  | raised (acq : Acquired) (e : IngestError) (reads : acq.Reads svc files call)
      (acquired : acquireAndValidate svc files call noFaults w.db = (w.db, .ok acq)) :
      CallEnds svc files call draws faults w (⟨w.db, (storeRaw acq faults w.objects).1⟩, .error e)
  | returned (acq : Acquired) (objects : ObjectStore) (db : DocumentDb) (result : IngestionResult)
      (reads : acq.Reads svc files call)
      (acquired : acquireAndValidate svc files call faults w.db = (w.db, .ok acq))
      (stored : storeRaw acq faults w.objects = (objects, .ok ()))
      (body : ingest svc acq draws faults w.db = .returned result db)
      (committed : faults .commit = none) :
      CallEnds svc files call draws faults w (⟨db, objects⟩, .ok (result, acq.rawBytes.length))

theorem ingestFileImpl_ends (svc : IngestionService) (files : FileSystem) (call : IngestCall)
    (draws : Draws) (faults : IngestStep → Option IngestError) (w : World) :
    CallEnds svc files call draws faults w (ingestFileImpl svc files call draws faults w) := by
  unfold ingestFileImpl
  rcases acquireAndValidate_cases svc files call faults w.db with
    ⟨e, hacquire⟩ | ⟨acq, hacquire, hreads, _, hacquire'⟩
  · rw [hacquire]
    exact .unread e
  · rw [hacquire]
    have hraised : ∀ e, CallEnds svc files call draws faults w
        (⟨w.db, (storeRaw acq faults w.objects).1⟩, .error e) :=
      fun e => .raised acq e hreads hacquire'
    cases hraw : storeRaw acq faults w.objects with
    | mk objects r =>
      rw [hraw] at hraised
      cases r with
      | error e =>
        simp only [hraw]
        exact hraised e
      | ok u =>
        rcases unitOfWork_cases .commit (ingest svc acq draws) faults w.db with
          ⟨e, hunit⟩ | ⟨result, db, hbody, hcommit, hunit⟩
        · simp only [hraw, hunit]
          exact hraised e
        · simp only [hraw, hunit]
          exact .returned acq objects db result hreads hacquire hraw hbody hcommit

/-! A markdown file of one heading, and a database that knows its source. -/

def sampleSource : SourceRow :=
  { sourceId := 1
    uri := "/srv/docs"
    tenantId := "acme"
    allowedPrincipals := ["team"] }

def sampleSources : KeyedTable SourceRow.sourceId := KeyedTable.empty.append sampleSource (by simp)

def sampleWorld : World := ⟨.withSources sampleSources, .empty⟩

def sampleFiles : FileSystem :=
  { resolve := id
    isSymlink := fun _ => false
    isRelativeTo := fun _ _ => true
    size := fun _ => 4
    readBytes := fun _ => [35, 32, 65, 10] }

def sampleCall : IngestCall := ⟨1, "/srv/docs/a.md", "text/markdown"⟩

def sampleSha256 (bytes : List UInt8) : List Char :=
  if bytes = [35, 32, 65, 10] then
    "aa1237b773c38dbddef583c4868aaea7a44c5237ea7923aecca5513764b42d80".toList
  else if bytes = [35, 32, 65] then
    "327f031b25e00b1a7cd9b0c18f05948b60f55d09f9b3d177d21083f83a3cb6df".toList
  else "7b61f27ecaefb5c223996ccaba3a78b0567b19b0c0fafd06ff393503db8735f3".toList

def sampleService : IngestionService :=
  { parsers := fun mediaType => if mediaType = "text/markdown" then some markdownParser else none
    sha256 := sampleSha256 }

def sampleDraws : Draws :=
  { documentId := 2
    versionId := 3
    checkpointId := 4
    eventId := 5
    chunkId := fun n => BitVec.ofNat 128 (6 + n)
    effectiveAt := 10
    checkpointAt := 11
    createdAt := 12 }

def failAt (step : IngestStep) : IngestStep → Option IngestError := fun i =>
  if i = step then some (.failure "connection lost") else none

end GroundGraph.Ingestion

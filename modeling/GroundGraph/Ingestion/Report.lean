import GroundGraph.Ingestion.StoredFiles
import Mathlib.Algebra.GroupWithZero.Nat
import Mathlib.Data.List.Dedup

/-! `IngestionService.ingest_file`, which makes a quality report once the unit of work is over, and
the workflow around it. The report counts the chunks of the version that the call ended in; they are
those of the call that made the version, whatever happened since.
-/

set_option autoImplicit false

namespace GroundGraph.Ingestion

open PyText Transaction

structure IngestionReport where
  sourceId : UUID
  documentId : UUID
  versionId : UUID
  mediaType : String
  parseSuccess : Bool
  parseError : Option (List Char) := none
  sourceSizeBytes : Nat := 0
  extractedSizeBytes : Nat := 0
  chunkCount : Nat := 0
  emptyChunkCount : Nat := 0
  duplicateChunkCount : Nat := 0
  missingAclCount : Nat := 0
  durationMs : PyFloat := 0
  timestamp : Instant

def DocumentDb.listChunks (db : DocumentDb) (documentId versionId : UUID) : List Chunk :=
  (db.chunks.rows.filter fun c =>
    decide (c.documentId = documentId) && decide (c.versionId = versionId)).insertionSort
      fun a b => a.ordinal ≤ b.ordinal

structure ChunkTally where
  chunkChecksums : List (List Char) := []
  emptyCount : Nat := 0
  duplicateCount : Nat := 0
  missingAcl : Nat := 0

def ChunkTally.add (t : ChunkTally) (c : Chunk) : ChunkTally where
  chunkChecksums :=
    if c.checksum ∈ t.chunkChecksums then t.chunkChecksums else c.checksum :: t.chunkChecksums
  emptyCount := t.emptyCount + if strip c.content = [] then 1 else 0
  duplicateCount := t.duplicateCount + if c.checksum ∈ t.chunkChecksums then 1 else 0
  missingAcl := t.missingAcl + if c.allowedPrincipals = [] then 1 else 0

def tallyChunks (chunks : List Chunk) : ChunkTally := chunks.foldl ChunkTally.add {}

structure ReportTimes where
  durationMs : PyFloat
  timestamp : Instant

def generateReport (db : DocumentDb) (sourceId : UUID) (result : IngestionResult)
    (sourceSizeBytes : Nat) (times : ReportTimes) (parseError : Option (List Char))
    (mediaType : String) : IngestionReport :=
  let chunks := db.listChunks result.documentId result.versionId
  let tally := tallyChunks chunks
  { sourceId := sourceId
    documentId := result.documentId
    versionId := result.versionId
    mediaType := mediaType
    parseSuccess := parseError.isNone
    parseError := parseError
    sourceSizeBytes := sourceSizeBytes
    extractedSizeBytes := (chunks.map fun c => c.content.length).sum
    chunkCount := chunks.length
    emptyChunkCount := tally.emptyCount
    duplicateChunkCount := tally.duplicateCount
    missingAclCount := tally.missingAcl
    durationMs := times.durationMs
    timestamp := times.timestamp }

/-- `ingest_file`; `listing` is what the unit of work of the report raises, and what others have
committed by then is `meanwhile`. -/
def ingestFile (svc : IngestionService) (files : FileSystem) (call : IngestCall) (draws : Draws)
    (faults : IngestStep → Option IngestError) (meanwhile : World → World)
    (listing : Option IngestError) (times : ReportTimes) (w : World) :
    World × Except IngestError (IngestionResult × IngestionReport) :=
  match ingestFileImpl svc files call draws faults w with
  | (w, .error e) => (w, .error e)
  | (w, .ok (result, sourceSizeBytes)) =>
    let w := meanwhile w
    match listing with
    | some e => (w, .error e)
    | none =>
      (w, .ok (result,
        generateReport w.db call.sourceId result sourceSizeBytes times none call.mediaType))

theorem ChunkTally.emptyCount_foldl (chunks : List Chunk) (t : ChunkTally) :
    (chunks.foldl add t).emptyCount =
      t.emptyCount + chunks.countP fun c => decide (strip c.content = []) := by
  induction chunks generalizing t with
  | nil => rfl
  | cons c cs ih =>
    rw [List.foldl_cons, ih, List.countP_cons]
    simp only [add, decide_eq_true_eq]
    omega

theorem ChunkTally.missingAcl_foldl (chunks : List Chunk) (t : ChunkTally) :
    (chunks.foldl add t).missingAcl =
      t.missingAcl + chunks.countP fun c => decide (c.allowedPrincipals = []) := by
  induction chunks generalizing t with
  | nil => rfl
  | cons c cs ih =>
    rw [List.foldl_cons, ih, List.countP_cons]
    simp only [add, decide_eq_true_eq]
    omega

theorem ChunkTally.duplicateCount_foldl (chunks : List Chunk) (t : ChunkTally) :
    (chunks.foldl add t).duplicateCount + (chunks.foldl add t).chunkChecksums.length =
      t.duplicateCount + t.chunkChecksums.length + chunks.length := by
  induction chunks generalizing t with
  | nil => rfl
  | cons c cs ih =>
    rw [List.foldl_cons, ih, List.length_cons]
    by_cases hseen : c.checksum ∈ t.chunkChecksums
    · simp only [add, if_pos hseen]
      omega
    · simp only [add, if_neg hseen, List.length_cons]
      omega

theorem ChunkTally.checksums_foldl (chunks : List Chunk) (t : ChunkTally)
    (h : t.chunkChecksums.Nodup) :
    (chunks.foldl add t).chunkChecksums.Nodup ∧
      ∀ x, x ∈ (chunks.foldl add t).chunkChecksums ↔
        x ∈ t.chunkChecksums ∨ x ∈ chunks.map Chunk.checksum := by
  induction chunks generalizing t with
  | nil => simp [h]
  | cons c cs ih =>
    have hadd : (t.add c).chunkChecksums.Nodup ∧
        ∀ x, x ∈ (t.add c).chunkChecksums ↔ x ∈ t.chunkChecksums ∨ x = c.checksum := by
      by_cases hseen : c.checksum ∈ t.chunkChecksums
      · simp only [add, if_pos hseen]
        refine ⟨h, fun x => ⟨Or.inl, ?_⟩⟩
        rintro (hx | rfl)
        · exact hx
        · exact hseen
      · simp only [add, if_neg hseen]
        exact ⟨h.cons hseen, fun x => by rw [List.mem_cons, or_comm]⟩
    obtain ⟨hnodup, hmem⟩ := ih (t.add c) hadd.1
    refine ⟨hnodup, fun x => ?_⟩
    rw [List.foldl_cons, hmem, hadd.2, List.map_cons, List.mem_cons, or_assoc]

theorem tallyChunks_duplicateCount (chunks : List Chunk) :
    (tallyChunks chunks).duplicateCount =
      chunks.length - (chunks.map Chunk.checksum).dedup.length := by
  have hsum := ChunkTally.duplicateCount_foldl chunks {}
  obtain ⟨hnodup, hmem⟩ := ChunkTally.checksums_foldl chunks {} List.nodup_nil
  have hperm : (tallyChunks chunks).chunkChecksums.Perm (chunks.map Chunk.checksum).dedup :=
    (List.perm_ext_iff_of_nodup hnodup (List.nodup_dedup _)).mpr fun x => by
      rw [hmem, List.mem_dedup]
      simp
  have hlength := hperm.length_eq
  simp only [tallyChunks, List.length_nil] at hsum hlength ⊢
  omega

def reportOf (svc : IngestionService) (acq : Acquired) (result : IngestionResult)
    (content : ParsedContent) (times : ReportTimes) : IngestionReport :=
  let texts := (cuts svc.config content).map fun cut => cut.piece.content
  { sourceId := acq.call.sourceId
    documentId := result.documentId
    versionId := result.versionId
    mediaType := acq.call.mediaType
    parseSuccess := true
    sourceSizeBytes := acq.rawBytes.length
    extractedSizeBytes := (texts.map List.length).sum
    chunkCount := texts.length
    emptyChunkCount := 0
    duplicateChunkCount := texts.length -
      (texts.map fun text => (svc.sha256 (encodeUtf8 text)).take 16).dedup.length
    missingAclCount := if acq.source.allowedPrincipals = [] then texts.length else 0
    durationMs := times.durationMs
    timestamp := times.timestamp }

section
variable {svc : IngestionService} {sources : KeyedTable SourceRow.sourceId} {s t : IngestState}
  {acq maker : Acquired} {r : IngestionResult} {key : CheckpointKey} {d v : UUID}

theorem map_mapIdx_of_eq {α β γ : Type} {f : Nat → α → β} {g : β → γ} {h : α → γ}
    (hfg : ∀ i x, g (f i x) = h x) (xs : List α) : (xs.mapIdx f).map g = xs.map h := by
  apply List.ext_getElem
  · simp
  · intro i _ _
    simp [hfg]

theorem strip_cut_ne_nil {config : ChunkerConfig} {content : ParsedContent} {cut : Cut}
    (h : cut ∈ cuts config content) : strip cut.piece.content ≠ [] := by
  have hplaced := (cuts_placed config content cut h).1
  intro hnil
  rw [strip_eq_nil_iff, hplaced.content, strip, blank_rstrip] at hnil
  have hraw := blank_of_blank_lstrip hnil
  rw [hplaced.text] at hraw
  cases hraw

theorem listChunks_eq (hi : IngestInv svc s) (hs : s.db.Stored key d v) :
    s.db.listChunks d v = s.db.chunksOf v := by
  obtain ⟨hordinals, hof⟩ := hi.chunk_set hs
  have hfilter : (s.db.chunks.rows.filter fun c =>
      decide (c.documentId = d) && decide (c.versionId = v)) = s.db.chunksOf v := by
    refine List.filter_congr fun c hc => ?_
    by_cases hversion : c.versionId = v
    · have hdocument := (hof c (List.mem_filter.mpr ⟨hc, by simp [hversion]⟩)).1
      simp [hversion, hdocument]
    · simp [hversion]
  have hsorted : (s.db.chunksOf v).Pairwise fun a b => a.ordinal ≤ b.ordinal := by
    have hrange : ((s.db.chunksOf v).map Chunk.ordinal).Pairwise (· ≤ ·) := by
      rw [hordinals]
      exact List.pairwise_le_range
    exact List.pairwise_map.mp hrange
  rw [DocumentDb.listChunks, hfilter]
  exact hsorted.insertionSort_eq

theorem generateReport_made (hi : IngestInv svc s) (hs : s.db.Stored key r.documentId r.versionId)
    {draws : Draws} {content : ParsedContent}
    (hchunks : s.db.chunksOf r.versionId =
      documentChunks svc maker draws r.documentId r.versionId content)
    (hprincipals : maker.source.allowedPrincipals = acq.source.allowedPrincipals)
    (times : ReportTimes) :
    generateReport s.db acq.call.sourceId r acq.rawBytes.length times none acq.call.mediaType =
      reportOf svc acq r content times := by
  have hlist : s.db.listChunks r.documentId r.versionId =
      documentChunks svc maker draws r.documentId r.versionId content :=
    (listChunks_eq hi hs).trans hchunks
  have hlength : (documentChunks svc maker draws r.documentId r.versionId content).length =
      (cuts svc.config content).length := by
    simp [documentChunks, chunk]
  have hcontent : (documentChunks svc maker draws r.documentId r.versionId content).map
      (fun c => c.content.length) = (cuts svc.config content).map fun cut =>
        cut.piece.content.length := by
    unfold documentChunks chunk
    apply map_mapIdx_of_eq
    exact fun _ _ => rfl
  have hchecksums : (documentChunks svc maker draws r.documentId r.versionId content).map
      Chunk.checksum = (cuts svc.config content).map fun cut =>
        (svc.sha256 (encodeUtf8 cut.piece.content)).take 16 := by
    unfold documentChunks chunk
    apply map_mapIdx_of_eq
    exact fun _ _ => rfl
  have hempty : (documentChunks svc maker draws r.documentId r.versionId content).countP
      (fun c => decide (strip c.content = [])) = 0 := by
    refine List.countP_eq_zero.mpr fun c hc => ?_
    obtain ⟨i, hlt, rfl⟩ := List.mem_mapIdx.mp hc
    simpa using strip_cut_ne_nil (List.getElem_mem hlt)
  have hmissing : (documentChunks svc maker draws r.documentId r.versionId content).countP
      (fun c => decide (c.allowedPrincipals = [])) =
        if acq.source.allowedPrincipals = [] then (cuts svc.config content).length else 0 := by
    have hall : ∀ c ∈ documentChunks svc maker draws r.documentId r.versionId content,
        c.allowedPrincipals = acq.source.allowedPrincipals := fun c hc =>
      (documentChunks_cut hc).2.2.2.2.trans hprincipals
    split
    · rename_i hnil
      rw [← hlength]
      exact List.countP_eq_length.mpr fun c hc => by simp [hall c hc, hnil]
    · rename_i hne
      exact List.countP_eq_zero.mpr fun c hc => by simp [hall c hc, hne]
  simp only [generateReport, reportOf, hlist, tallyChunks_duplicateCount, hlength, hcontent,
    hchecksums, List.map_map, List.length_map, Function.comp_def, Option.isNone_none]
  simp only [tallyChunks, ChunkTally.emptyCount_foldl, ChunkTally.missingAcl_foldl, hempty, hmissing,
    Nat.zero_add]

theorem ingestStep_answers {a : IngestAction} (hstep : ingestStep svc s a = some t) :
    ∀ x ∈ s.answers, x ∈ t.answers := by
  cases a with
  | begin call files faults =>
    simp only [ingestStep] at hstep
    split at hstep
    · obtain rfl := Option.some.inj hstep
      exact fun _ => id
    · split at hstep <;>
        (obtain rfl := Option.some.inj hstep; exact fun _ => id)
  | lookUp i faults =>
    simp only [ingestStep] at hstep
    split at hstep
    · split at hstep <;>
        (obtain rfl := Option.some.inj hstep; exact fun _ => id)
    · cases hstep
  | write i draws faults =>
    obtain ⟨acq, found, -, -, -, ⟨-, hanswers⟩ | ⟨r, -, hanswers⟩⟩ := ingestStep_write_cases hstep
    · rw [hanswers]
      exact fun _ => id
    · rw [hanswers]
      exact fun x hx => List.mem_append_left _ hx
  | deleteDocument documentId faults =>
    obtain rfl := Option.some.inj hstep
    exact fun _ => id
  | deactivateSource sourceId now faults =>
    obtain rfl := Option.some.inj hstep
    exact fun _ => id

theorem run_answers {actions : List IngestAction}
    (h : (ingestSystem svc sources).run s actions = some t) : ∀ x ∈ s.answers, x ∈ t.answers :=
  (ingestSystem svc sources).run_relates (I := fun _ => True)
    (R := fun s t => ∀ x ∈ s.answers, x ∈ t.answers) (fun _ _ => id)
    (fun _ _ _ hst htu x hx => htu x (hst x hx)) (fun _ _ _ _ _ => trivial)
    (fun _ _ _ _ hstep => ingestStep_answers hstep) trivial h

theorem MadeBy.unique {maker' : Acquired} (hi : IngestInv svc s) (hs : s.db.Stored key d v)
    (hm : (maker, (⟨d, v, true, maker.source.tenantId⟩ : IngestionResult)) ∈ s.answers)
    (hkey : maker.key = key) (hm' : MadeBy svc s key d v maker') : maker = maker' := by
  have hone := hi.creators_length hs
  have hmem : ∀ a ∈ s.answers, a.2.createdNewVersion = true → a.1.key = key →
      a ∈ s.creators key := fun a ha hcreated hkey =>
    List.mem_filter.mpr ⟨ha, by simp [hcreated, hkey]⟩
  obtain ⟨x, hx⟩ := List.length_eq_one_iff.mp hone
  have h₁ := hmem _ hm rfl hkey
  have h₂ := hmem _ hm'.answered rfl hm'.key_eq
  rw [hx, List.mem_singleton] at h₁ h₂
  exact congrArg Prod.fst (h₁.trans h₂.symm)

theorem allowedPrincipals_of_key (hf : FilesInv svc sources s) {result : IngestionResult}
    (ha : (acq, r) ∈ s.answers) (hm : (maker, result) ∈ s.answers) (hkey : maker.key = acq.key) :
    maker.source.allowedPrincipals = acq.source.allowedPrincipals := by
  have hfiled := hf.answers _ ha
  have hfiled' := hf.answers _ hm
  have hcall : maker.call.sourceId = acq.call.sourceId := congrArg CheckpointKey.sourceId hkey
  have hsame := registration_eq hfiled'.registered hfiled.registered
    (show maker.source.sourceId = acq.source.sourceId by
      rw [hfiled'.sourceId, hcall, hfiled.sourceId])
  exact congrArg Registration.allowedPrincipals hsame

theorem generateReport_later (hs : (ingestSystem svc sources).Reachable s) (ha : (acq, r) ∈ s.answers)
    (hmade : MadeBy svc s acq.key r.documentId r.versionId maker) {content : ParsedContent}
    {metadata : JsonObject} (hparse : parse svc maker = .ok (content, metadata))
    {actions : List IngestAction} (hrun : (ingestSystem svc sources).run s actions = some t)
    (times : ReportTimes) :
    generateReport t.db acq.call.sourceId r acq.rawBytes.length times none acq.call.mediaType =
      reportOf svc acq r content times := by
  have ht : (ingestSystem svc sources).Reachable t := LabelledSystem.Reachable.run _ hs hrun
  have hi := ingestInv_reachable ht
  have hanswers := run_answers hrun
  have hstored : t.db.Stored acq.key r.documentId r.versionId :=
    hi.answers.agree _ (List.mem_map_of_mem (hanswers _ ha))
  obtain ⟨maker', hmade'⟩ := hi.made _ _ _ hstored
  obtain rfl := hmade'.unique hi hstored (hanswers _ hmade.answered) hmade.key_eq
  obtain ⟨draws, content', metadata', hparse', hchunks, -⟩ := hmade'.records
  rw [hparse] at hparse'
  obtain ⟨rfl, rfl⟩ := Prod.mk.inj (Except.ok.inj hparse')
  exact generateReport_made hi hstored hchunks
    (allowedPrincipals_of_key (filesInv_reachable ht) (hanswers _ ha) hmade'.answered hmade.key_eq)
    times

theorem made_of_answer (hs : (ingestSystem svc sources).Reachable s) (ha : (acq, r) ∈ s.answers) :
    ∃ maker, MadeBy svc s acq.key r.documentId r.versionId maker := by
  have hi := ingestInv_reachable hs
  exact hi.made _ _ _ (hi.answers.agree _ (List.mem_map_of_mem ha))

theorem ingestFile_reports {files : FileSystem} {call : IngestCall} {draws : Draws}
    {faults : IngestStep → Option IngestError} {meanwhile : World → World}
    {listing : Option IngestError} {times : ReportTimes} {w : World} {report : IngestionReport}
    (hs : (ingestSystem svc sources).Reachable s) (hfresh : s.db.FreshVersion draws.versionId)
    (hmeanwhile : ∀ m : IngestState, (ingestSystem svc sources).Reachable m →
      ∃ actions t, (ingestSystem svc sources).run m actions = some t ∧ t.world = meanwhile m.world)
    (h : ingestFile svc files call draws faults meanwhile listing times s.world =
      (w, .ok (r, report))) :
    ∃ acq maker content metadata, acq.Reads svc files call ∧ maker.key = acq.key ∧
      parse svc maker = .ok (content, metadata) ∧ report = reportOf svc acq r content times := by
  unfold ingestFile at h
  split at h
  · cases h
  · rename_i m result size himpl
    obtain ⟨acq, hreads, hrun⟩ := run_ingestFileImpl hs hfresh himpl
    have hm : (ingestSystem svc sources).Reachable ⟨m, s.calls, s.answers ++ [(acq, result)]⟩ :=
      LabelledSystem.Reachable.run _ hs hrun
    have ha : (acq, result) ∈ s.answers ++ [(acq, result)] := List.mem_append_right _ (by simp)
    obtain ⟨maker, hmade⟩ := made_of_answer hm ha
    obtain ⟨draws', content, metadata, hparse, -⟩ := hmade.records
    obtain ⟨actions, t, hlater, hworld⟩ := hmeanwhile _ hm
    have hreport := generateReport_later hm ha hmade hparse hlater times
    have hsize : size = acq.rawBytes.length := by
      have hends := ingestFileImpl_ends svc files call draws faults s.world
      rw [himpl] at hends
      cases hends with
      | returned acq' _ _ _ hreads' => rw [hreads.rawBytes_eq, hreads'.rawBytes_eq]
    simp only at h
    split at h
    · cases h
    · obtain ⟨-, hok⟩ := Prod.mk.inj h
      obtain ⟨rfl, rfl⟩ := Prod.mk.inj (Except.ok.inj hok)
      refine ⟨acq, maker, content, metadata, hreads, hmade.key_eq, hparse, ?_⟩
      rw [← hreport, hsize, hreads.call_eq]
      show generateReport (meanwhile m).db _ _ _ _ _ _ = generateReport t.world.db _ _ _ _ _ _
      rw [hworld]

end

/-- Every report on a call counts the chunks that the maker of its version cut, at any time and
under any media type. -/
theorem report_settled {svc : IngestionService} {sources : KeyedTable SourceRow.sourceId}
    {s : IngestState} (hs : (ingestSystem svc sources).Reachable s) {acq : Acquired}
    {r : IngestionResult} (ha : (acq, r) ∈ s.answers) :
    ∃ maker content metadata, maker.key = acq.key ∧
      (maker, ⟨r.documentId, r.versionId, true, maker.source.tenantId⟩) ∈ s.answers ∧
      parse svc maker = .ok (content, metadata) ∧
      ∀ actions t times, (ingestSystem svc sources).run s actions = some t →
        generateReport t.db acq.call.sourceId r acq.rawBytes.length times none acq.call.mediaType =
          reportOf svc acq r content times := by
  obtain ⟨maker, hmade⟩ := made_of_answer hs ha
  obtain ⟨-, content, metadata, hparse, -⟩ := hmade.records
  exact ⟨maker, content, metadata, hmade.key_eq, hmade.answered, hparse,
    fun _ _ times hrun => generateReport_later hs ha hmade hparse hrun times⟩

/-- The sample file, and the same file under a media type that nothing parses. -/
def relabelledActions : List IngestAction :=
  [.begin sampleCall sampleFiles noFaults, .lookUp 0 noFaults, .write 0 sampleDraws noFaults,
    .begin { sampleCall with mediaType := "image/png" } sampleFiles noFaults, .lookUp 0 noFaults,
    .write 0 { sampleDraws with documentId := 22, versionId := 23 } noFaults]

theorem relabelled_answers :
    ((ingestSystem sampleService sampleSources).run (ingestSystem sampleService sampleSources).start
      relabelledActions).map (fun s => s.answers.map fun a =>
        (a.1.call.mediaType, a.2.createdNewVersion)) =
          some [("text/markdown", true), ("image/png", false)] := by
  decide +kernel

/-- The second report says that the file was parsed, and counts chunks. -/
theorem report_settled_relabelled :
    ∃ (s : IngestState) (acq : Acquired) (r : IngestionResult) (content : ParsedContent),
      (acq, r) ∈ s.answers ∧ acq.call.mediaType = "image/png" ∧
      ∀ times, generateReport s.db acq.call.sourceId r acq.rawBytes.length times none "image/png" =
        reportOf sampleService acq r content times := by
  obtain ⟨s, hs, hanswers⟩ := Option.map_eq_some_iff.mp relabelled_answers
  obtain ⟨⟨acq, r⟩, ha, hpair⟩ : ∃ a ∈ s.answers,
      (a.1.call.mediaType, a.2.createdNewVersion) = ("image/png", false) := by
    have hmem := List.mem_cons_of_mem ("text/markdown", true)
      (List.mem_singleton_self ("image/png", false))
    rw [← hanswers] at hmem
    exact List.mem_map.mp hmem
  have hmedia : acq.call.mediaType = "image/png" := congrArg Prod.fst hpair
  obtain ⟨maker, content, metadata, -, -, -, hreport⟩ := report_settled ⟨relabelledActions, hs⟩ ha
  refine ⟨s, acq, r, content, ha, hmedia, fun times => ?_⟩
  rw [← hmedia]
  exact hreport [] s times rfl

end GroundGraph.Ingestion

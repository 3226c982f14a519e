import GroundGraph.Ingestion.LiveChunks
import GroundGraph.Library.AtomicRegister
import Mathlib.Data.List.InsertIdx

/-! The document store is a register for each file of a source. Calls write the content that they
have read and deletions take it out; a call takes effect when it writes, or when it looks and finds
that its content is the current one. What can be searched are the chunks of what the registers
hold.
-/

set_option autoImplicit false

namespace GroundGraph.Ingestion

open Transaction AtomicRegister

/-! ## What is in the registers -/

structure FilePlace where
  sourceId : UUID
  sourceLocator : String
  deriving DecidableEq

def FilePlace.key (p : FilePlace) (checksum : List Char) : CheckpointKey :=
  ⟨p.sourceId, p.sourceLocator, checksum⟩

def CheckpointKey.filePlace (key : CheckpointKey) : FilePlace :=
  ⟨key.sourceId, key.canonicalLocator⟩

def DocumentRow.filePlace (d : DocumentRow) : FilePlace := ⟨d.sourceId, d.sourceLocator⟩

/-- The checksum of the version that the document of the file points at. -/
def DocumentDb.content (db : DocumentDb) (p : FilePlace) : Option (List Char) :=
  (db.documentAt p.sourceId p.sourceLocator).bind fun d =>
    d.currentVersionId.bind fun v => (db.versions.get? v).map VersionRow.checksum

section
variable {db db' : DocumentDb} {p : FilePlace} {checksum : List Char}
  {faults : IngestStep → Option IngestError}

theorem content_some_iff (ha : Agrees db) : db.content p = some checksum ↔
    ∃ d v, db.Stored (p.key checksum) d v ∧ PointsAt db d v := by
  simp only [DocumentDb.content, Option.bind_eq_some_iff, Option.map_eq_some_iff]
  constructor
  · rintro ⟨row, hrow, v, hpointer, w, hw, rfl⟩
    obtain ⟨hmem, hsource, hlocator⟩ := documentAt_some hrow
    obtain ⟨hwmem, rfl⟩ := db.versions.get?_some_iff.mp hw
    obtain ⟨w', hw', hid, hdoc⟩ := (ha.marks row hmem).present _ hpointer
    obtain rfl := db.versions.eq_of_mem hw' hwmem hid
    have hplace : row.place = (p.key w'.checksum).place row.documentId := by
      simp [DocumentRow.place, CheckpointKey.place, FilePlace.key, hsource, hlocator]
    exact ⟨_, _, stored_of_rows hmem hw' hplace hdoc rfl, pointsAt_of_row hmem hpointer⟩
  · rintro ⟨d, v, ⟨hplace, hedition⟩, hpoints⟩
    obtain ⟨row, hmem, hrow⟩ := mem_places_iff.mp hplace
    obtain ⟨w, hw, hwed⟩ := mem_editions_iff.mp hedition
    obtain ⟨hid, hsource, hlocator⟩ := Place.mk.inj hrow
    obtain ⟨rfl, -, hsum⟩ := Edition.mk.inj hwed
    cases hat : db.documentAt p.sourceId p.sourceLocator with
    | none => exact absurd hlocator (documentAt_none hat row hmem hsource)
    | some row' =>
      obtain ⟨hmem', hsource', hlocator'⟩ := documentAt_some hat
      obtain rfl := ha.located row' hmem' row hmem (hsource'.trans hsource.symm)
        (hlocator'.trans hlocator.symm)
      exact ⟨row', rfl, w.versionId, hpoints row' hmem hid, w,
        db.versions.get?_some_iff.mpr ⟨hw, rfl⟩, hsum⟩

theorem SameDocuments.content_eq (h : SameDocuments db db') : db'.content = db.content := by
  funext p
  simp only [DocumentDb.content, DocumentDb.documentAt, h.documents_eq, h.versions_eq]

theorem pointsAt_iff {d : DocumentRow} (hd : d ∈ db.documents.rows) {v : UUID} :
    PointsAt db d.documentId v ↔ d.currentVersionId = some v :=
  ⟨fun h => h d hd rfl, pointsAt_of_row hd⟩

theorem Entered.stored_iff_of_ne {key k : CheckpointKey} {d v d' v' : UUID} {created : Bool}
    (h : Entered key db db' d v created) (hne : k ≠ key) :
    db'.Stored k d' v' ↔ db.Stored k d' v' := by
  cases h with
  | found _ hiff _ => exact hiff k d' v'
  | created _ hiff _ _ => exact (hiff k d' v').trans (or_iff_left fun hthis => hne hthis.1)

/-! ## What the statements do to the registers -/

theorem content_eq_update {x : Option (List Char)} (ha : Agrees db) (ha' : Agrees db')
    (hhere : db'.content p = x)
    (helsewhere : ∀ q, q ≠ p → ∀ sum d v, (db'.Stored (q.key sum) d v ∧ PointsAt db' d v ↔
      db.Stored (q.key sum) d v ∧ PointsAt db d v)) :
    db'.content = Function.update db.content p x := by
  funext q
  by_cases hq : q = p
  · rw [hq, Function.update_self, hhere]
  · rw [Function.update_of_ne hq]
    refine Option.ext fun sum => ?_
    rw [content_some_iff ha', content_some_iff ha]
    simp only [helsewhere q hq]

theorem upsertDocument_content {document : ParsedDocument} {result : ParsedDocument × Bool}
    (ha : Agrees db) (hfresh : ∀ e ∈ db.editions, e.versionId ≠ document.versionId)
    (h : upsertDocument document faults db = .returned result db') :
    db'.content =
      Function.update db.content document.key.filePlace (some document.checksum) := by
  have ha' : Agrees db' := (upsertDocument_triple document).returned ha h
  obtain ⟨hentered, -, hpoints⟩ := upsertDocument_returned ha.toWellFormed hfresh h
  obtain ⟨d, v, m, m', hup⟩ := upsertDocument_cases h
  have hplace := ha.toWellFormed.insertDocument_hasPlace hup.insertDocument_eq
  have hid : result.1.documentId = d := by rw [hup.result_eq]
  refine content_eq_update ha ha'
    ((content_some_iff ha').mpr ⟨_, _, hentered.stored, hpoints⟩) fun q hq sum x w => ?_
  -- another place has another document, which keeps its pointer
  have hne : q.key sum ≠ document.key := fun hthis => hq (congrArg CheckpointKey.filePlace hthis)
  rw [hentered.stored_iff_of_ne hne]
  refine and_congr_right fun hs => ?_
  have hother : x ≠ d := by
    rintro rfl
    have hsame := hplace.by_id _ hs.1 rfl
    obtain ⟨-, hsource, hlocator⟩ := Place.mk.inj hsame
    exact hq (by simp [CheckpointKey.filePlace, ← hsource, ← hlocator, FilePlace.key])
  obtain ⟨row, hrow, hrowplace⟩ := mem_places_iff.mp hs.1
  obtain rfl : row.documentId = x := congrArg Place.documentId hrowplace
  obtain ⟨row', hrow', hid', -, hpointer⟩ := hup.pointer hrow
  rw [if_neg hother] at hpointer
  rw [pointsAt_iff hrow, ← hid', pointsAt_iff hrow', hpointer]

theorem deleteDocument_pointsAt {documentId : UUID} {key : CheckpointKey} {d v : UUID}
    (h : deleteDocument documentId faults db = .returned () db') :
    db'.Stored key d v ∧ PointsAt db' d v ↔
      d ≠ documentId ∧ db.Stored key d v ∧ PointsAt db d v := by
  obtain ⟨_, m, hpointer, hclear⟩ := bind_returned_iff.mp h
  obtain ⟨_, rfl⟩ := write_returned_iff.mp hpointer
  obtain ⟨_, rfl⟩ := write_returned_iff.mp hclear
  have hstored : (clearCurrent documentId (setCurrentVersion documentId none db)).Stored key d v ↔
      db.Stored key d v := by
    simp [DocumentDb.Stored]
  rw [hstored, ← and_left_comm]
  refine and_congr_right fun hs => ?_
  obtain ⟨row, hrow, hplace⟩ := mem_places_iff.mp hs.1
  obtain rfl : row.documentId = d := congrArg Place.documentId hplace
  have hrow' := List.mem_map_of_mem (f := fun r : DocumentRow =>
    if r.documentId = documentId then r.point none else r) hrow
  by_cases hthis : row.documentId = documentId
  · refine iff_of_false (fun hpoints => ?_) fun hboth => hboth.1 hthis
    rw [if_pos hthis] at hrow'
    have hnone := hpoints _ hrow' rfl
    cases hnone
  · rw [if_neg hthis] at hrow'
    rw [and_iff_right hthis, pointsAt_iff hrow]
    exact pointsAt_iff hrow'

theorem deleteDocument_content {documentId : UUID} (ha : Agrees db)
    (h : deleteDocument documentId faults db = .returned () db') :
    db'.content = match db.documents.get? documentId with
      | some d => Function.update db.content d.filePlace none
      | none => db.content := by
  have ha' : Agrees db' := (deleteDocument_triple documentId).returned ha h
  split
  · rename_i row hget
    obtain ⟨hrow, hid⟩ := db.documents.get?_some_iff.mp hget
    have hplace : row.place ∈ db.places := mem_places_iff.mpr ⟨row, hrow, rfl⟩
    refine content_eq_update ha ha' ?_ fun q hq sum d v => ?_
    · refine Option.eq_none_iff_forall_not_mem.mpr fun sum hsum => ?_
      obtain ⟨d, v, hboth⟩ := (content_some_iff ha').mp hsum
      obtain ⟨hne, hs, -⟩ := (deleteDocument_pointsAt h).mp hboth
      have hsame := ha.toWellFormed.place_eq hs.1 hplace rfl rfl
      exact hne ((congrArg Place.documentId hsame).trans hid)
    · rw [deleteDocument_pointsAt h]
      refine and_iff_right_of_imp fun hboth hd => hq ?_
      have hsame := place_eq_of_documentId hboth.1.1 hplace (hd.trans hid.symm)
      obtain ⟨-, hsource, hlocator⟩ := Place.mk.inj hsame
      simp [DocumentRow.filePlace, ← hsource, ← hlocator, FilePlace.key]
  · rename_i hget
    funext p
    refine Option.ext fun sum => ?_
    rw [content_some_iff ha', content_some_iff ha]
    refine exists_congr fun d => exists_congr fun v => ?_
    rw [deleteDocument_pointsAt h]
    refine and_iff_right_of_imp fun hboth hd => ?_
    obtain ⟨row, hrow, hplace⟩ := mem_places_iff.mp hboth.1.1
    exact db.documents.get?_none_iff.mp hget
      (List.mem_map.mpr ⟨row, hrow, (congrArg Place.documentId hplace).trans hd⟩)

theorem deactivateSource_content {sourceId : UUID} {now : Instant}
    (h : deactivateSource sourceId now faults db = .returned () db') :
    db'.content = db.content := by
  obtain ⟨_, hm⟩ := perform_returned_iff.mp h
  split at hm
  · cases hm
  · obtain ⟨_, rfl⟩ := Prod.mk.inj (Except.ok.inj hm)
    rfl

theorem finish_content {svc : IngestionService} {acq : Acquired} {draws : Draws} {found : Found}
    {r : IngestionResult} (ha : Agrees db)
    (hfresh : ∀ e ∈ db.editions, e.versionId ≠ draws.versionId)
    (h : finish svc acq draws found faults db = .returned r db') :
    db'.content = if found.answer.isSome then db.content
      else Function.update db.content acq.key.filePlace (some acq.checksum) := by
  have hstore : ∀ documentId, store svc acq draws documentId faults db = .returned r db' →
      db'.content = Function.update db.content acq.key.filePlace (some acq.checksum) := by
    intro documentId hstored
    obtain ⟨content, metadata, stored, m, m', hparse, hupsert, -, hcheckpoint, hchunks⟩ :=
      store_cases hstored
    obtain ⟨checkpoints, rfl, -⟩ := upsertCheckpoint_returned hcheckpoint
    obtain ⟨hsame, -, -⟩ := recorded_of_returned hparse hchunks rfl rfl
    rw [hsame.content_eq]
    exact upsertDocument_content ha hfresh hupsert
  cases found with
  | resumed d v =>
    obtain ⟨-, rfl⟩ := pure_returned_iff.mp h
    rfl
  | current d v =>
    obtain ⟨_, m, hcheckpoint, hrest⟩ := bind_returned_iff.mp h
    obtain ⟨-, rfl⟩ := pure_returned_iff.mp hrest
    obtain ⟨checkpoints, rfl, -⟩ := upsertCheckpoint_returned hcheckpoint
    rfl
  | changed d => exact hstore d h
  | absent => exact hstore _ h

end

/-! ## The calls -/

def OpenCall.toCall (c : OpenCall) : Call FilePlace (List Char) :=
  ⟨c.acq.key.filePlace, c.acq.checksum, (c.found.bind Found.answer).isSome⟩

def registerEvents (svc : IngestionService) (s : IngestState) :
    IngestAction → List (Event FilePlace (List Char))
  | .begin call files faults =>
    match acquireAndValidate svc files call faults s.db with
    | (_, .error _) => []
    | (_, .ok acq) =>
      match storeRaw acq faults s.world.objects with
      | (_, .error _) => []
      | (_, .ok ()) => [.call acq.key.filePlace acq.checksum]
  | .lookUp i faults =>
    match s.calls[i]? with
    | some ⟨acq, none⟩ =>
      match lookUp acq.key faults s.db with
      | .returned found _ => if found.answer.isSome then [.effect i] else []
      | .raised _ _ => [.giveUp i]
    | _ => []
  | .write i draws faults =>
    match s.calls[i]? with
    | some ⟨acq, some found⟩ =>
      match unitOfWork .commit (finish svc acq draws found) faults s.db with
      | (_, .error _) => [.giveUp i]
      | (_, .ok _) => if found.answer.isSome then [.answer i] else [.effect i, .answer i]
    | _ => []
  | .deleteDocument documentId faults =>
    match unitOfWork .commit (deleteDocument documentId) faults s.db with
    | (_, .error _) => []
    | (_, .ok ()) =>
      match s.db.documents.get? documentId with
      | some d => [.remove d.filePlace]
      | none => []
  | .deactivateSource _ _ _ => []

abbrev registers : LabelledSystem (AtomicRegister.State FilePlace (List Char))
    (Event FilePlace (List Char)) := system FilePlace (List Char)

/-- The registers hold what the database does, and the calls are where they are. -/
structure Follows (s : IngestState) (r : AtomicRegister.State FilePlace (List Char)) : Prop where
  contents : r.contents = s.db.content
  calls : r.calls = s.calls.map OpenCall.toCall
  answers : r.answers = s.answers.map fun a => (a.1.key.filePlace, a.1.checksum)

section
variable {svc : IngestionService} {s t : IngestState} {faults : IngestStep → Option IngestError}
  {r : AtomicRegister.State FilePlace (List Char)}

theorem Follows.call_at (h : Follows s r) {i : Nat} {c : OpenCall} (hc : s.calls[i]? = some c) :
    r.calls[i]? = some c.toCall := by
  rw [h.calls, List.getElem?_map, hc]
  rfl

theorem Follows.calls_eraseIdx (h : Follows s r) (i : Nat) :
    r.calls.eraseIdx i = (s.calls.eraseIdx i).map OpenCall.toCall := by
  rw [h.calls, List.eraseIdx_map]

theorem Follows.begin (h : Follows s r) {call : IngestCall} {files : FileSystem}
    (hstep : ingestStep svc s (.begin call files faults) = some t) :
    ∃ q, registers.run r (registerEvents svc s (.begin call files faults)) = some q ∧
      Follows t q := by
  cases hacquire : acquireAndValidate svc files call faults s.db with
  | mk db acquired =>
    have hdb := begin_db hstep
    simp only [ingestStep, hacquire] at hstep
    simp only [registerEvents, hacquire]
    cases acquired with
    | error e =>
      obtain rfl := Option.some.inj hstep
      exact ⟨r, rfl, h.contents.trans (congrArg DocumentDb.content hdb.symm), h.calls, h.answers⟩
    | ok acq =>
      cases hstored : storeRaw acq faults s.world.objects with
      | mk objects stored =>
        simp only [hstored] at hstep ⊢
        cases stored with
        | error e =>
          obtain rfl := Option.some.inj hstep
          exact ⟨r, rfl, h.contents.trans (congrArg DocumentDb.content hdb.symm), h.calls,
            h.answers⟩
        | ok =>
          obtain rfl := Option.some.inj hstep
          refine ⟨_, rfl, h.contents.trans (congrArg DocumentDb.content hdb.symm), ?_, h.answers⟩
          simp [h.calls, OpenCall.toCall]

theorem Follows.lookUp (h : Follows s r) (hi : IngestInv svc s) {i : Nat}
    (hstep : ingestStep svc s (.lookUp i faults) = some t) :
    ∃ q, registers.run r (registerEvents svc s (.lookUp i faults)) = some q ∧ Follows t q := by
  simp only [ingestStep] at hstep
  split at hstep
  · rename_i acq hcall
    have hat := h.call_at hcall
    simp only [registerEvents, hcall]
    cases hlook : Ingestion.lookUp acq.key faults s.db with
    | returned found m =>
      simp only [hlook] at hstep
      obtain rfl := Option.some.inj hstep
      obtain ⟨-, hright⟩ := lookUp_returned hi.agrees hi.checkpoints hlook
      cases hanswer : found.answer with
      | none =>
        refine ⟨r, by simp [hanswer], h.contents, ?_, h.answers⟩
        rw [List.map_set, ← h.calls]
        obtain ⟨hlt, hget⟩ := List.getElem?_eq_some_iff.mp hat
        have hself : (⟨acq, some found⟩ : OpenCall).toCall = r.calls[i] := by
          rw [hget]
          simp [OpenCall.toCall, hanswer]
        rw [hself, List.set_getElem_self]
      | some ids =>
        obtain ⟨d, v⟩ := ids
        have hsame : r.contents acq.key.filePlace = some acq.checksum := by
          rw [h.contents]
          exact (content_some_iff hi.agrees).mpr ⟨d, v, hright d v hanswer⟩
        refine ⟨{ r with calls := r.calls.set i ⟨acq.key.filePlace, acq.checksum, true⟩ }, ?_,
          h.contents, ?_, h.answers⟩
        · simpa [hanswer] using run_effect_same hat hsame
        · simp [h.calls, OpenCall.toCall, hanswer]
    | raised e m =>
      simp only [hlook] at hstep
      obtain rfl := Option.some.inj hstep
      refine ⟨_, registers.run_single (step_giveUp hat), h.contents, h.calls_eraseIdx i,
        h.answers⟩
  · cases hstep

theorem Follows.write (h : Follows s r) (hi : IngestInv svc s) {i : Nat} {draws : Draws}
    (hstep : ingestStep svc s (.write i draws faults) = some t) :
    ∃ q, registers.run r (registerEvents svc s (.write i draws faults)) = some q ∧
      Follows t q := by
  simp only [ingestStep] at hstep
  split at hstep
  · rename_i acq found hcall
    have hat := h.call_at hcall
    simp only [registerEvents, hcall]
    split at hstep
    · rename_i hfresh
      rcases unitOfWork_cases .commit (finish svc acq draws found) faults s.db with
        ⟨e, heq⟩ | ⟨result, m, hbody, -, heq⟩
      · rw [heq] at hstep ⊢
        obtain rfl := Option.some.inj hstep
        refine ⟨_, registers.run_single (step_giveUp hat), h.contents, h.calls_eraseIdx i,
          h.answers⟩
      · rw [heq] at hstep ⊢
        obtain rfl := Option.some.inj hstep
        have hcontent := finish_content hi.agrees hfresh.editions hbody
        cases hanswer : found.answer with
        | none =>
          have hcall' : r.calls[i]? = some ⟨acq.key.filePlace, acq.checksum, false⟩ := by
            rw [hat]
            simp [OpenCall.toCall, hanswer]
          refine ⟨_, by simpa [hanswer] using run_effect_answer hcall', ?_, h.calls_eraseIdx i, ?_⟩
          · simp only [hanswer] at hcontent
            rw [h.contents]
            exact hcontent.symm
          · simp [h.answers]
        | some ids =>
          have hcall' : r.calls[i]? = some ⟨acq.key.filePlace, acq.checksum, true⟩ := by
            rw [hat]
            simp [OpenCall.toCall, hanswer]
          refine ⟨_, by simpa [hanswer] using registers.run_single (step_answer hcall'), ?_,
            h.calls_eraseIdx i, ?_⟩
          · simp only [hanswer] at hcontent
            rw [h.contents]
            exact hcontent.symm
          · simp [h.answers]
    · cases hstep
  · cases hstep

theorem Follows.deleteDocument (h : Follows s r) (hi : IngestInv svc s) {documentId : UUID}
    (hstep : ingestStep svc s (.deleteDocument documentId faults) = some t) :
    ∃ q, registers.run r (registerEvents svc s (.deleteDocument documentId faults)) = some q ∧
      Follows t q := by
  obtain rfl := Option.some.inj hstep
  simp only [registerEvents]
  rcases unitOfWork_cases .commit (Ingestion.deleteDocument documentId) faults s.db with
    ⟨e, heq⟩ | ⟨u, m, hbody, -, heq⟩
  · rw [heq]
    exact ⟨r, rfl, h.contents, h.calls, h.answers⟩
  · have hcontent := deleteDocument_content hi.agrees hbody
    rw [heq]
    cases hget : s.db.documents.get? documentId with
    | none =>
      simp only [hget] at hcontent
      exact ⟨r, rfl, h.contents.trans hcontent.symm, h.calls, h.answers⟩
    | some d =>
      simp only [hget] at hcontent
      refine ⟨_, rfl, ?_, h.calls, h.answers⟩
      rw [h.contents]
      exact hcontent.symm

theorem Follows.deactivateSource (h : Follows s r) {sourceId : UUID} {now : Instant}
    (hstep : ingestStep svc s (.deactivateSource sourceId now faults) = some t) :
    ∃ q, registers.run r (registerEvents svc s (.deactivateSource sourceId now faults)) = some q ∧
      Follows t q := by
  obtain rfl := Option.some.inj hstep
  refine ⟨r, rfl, ?_, h.calls, h.answers⟩
  rcases unitOfWork_cases .commit (Ingestion.deactivateSource sourceId now) faults s.db with
    ⟨e, heq⟩ | ⟨u, m, hbody, -, heq⟩
  · rw [heq]
    exact h.contents
  · rw [heq]
    exact h.contents.trans (deactivateSource_content hbody).symm

theorem Follows.step (h : Follows s r) (hi : IngestInv svc s) {a : IngestAction}
    (hstep : ingestStep svc s a = some t) :
    ∃ q, registers.run r (registerEvents svc s a) = some q ∧ Follows t q := by
  cases a with
  | begin call files faults => exact h.begin hstep
  | lookUp i faults => exact h.lookUp hi hstep
  | write i draws faults => exact h.write hi hstep
  | deleteDocument documentId faults => exact h.deleteDocument hi hstep
  | deactivateSource sourceId now faults => exact h.deactivateSource hstep

end

/-! ## What is searched -/

def ShownAt (db : DocumentDb) (p : FilePlace) (c : Chunk) : Prop :=
  Live db c ∧ ∃ d ∈ db.documents.rows, d.documentId = c.documentId ∧ d.filePlace = p

open Classical in
noncomputable def DocumentDb.shown (db : DocumentDb) (p : FilePlace) : List Chunk :=
  db.chunks.rows.filter fun c => decide (ShownAt db p c)

/-- Of every file there are the chunks of the content that its register holds, cut from the bytes
that a finished call had read, as long as the source is active. -/
structure Shows (svc : IngestionService) (s : IngestState)
    (contents : FilePlace → Option (List Char)) : Prop where
  held : ∀ p checksum, contents p = some checksum → SourceActive s.db p.sourceId →
    ∃ acq draws d v content metadata, acq.key = p.key checksum ∧
      (acq, ⟨d, v, true, acq.source.tenantId⟩) ∈ s.answers ∧
      parse svc acq = .ok (content, metadata) ∧
      s.db.shown p = documentChunks svc acq draws d v content
  empty : ∀ p, contents p = none → s.db.shown p = []
  inactive : ∀ p, ¬ SourceActive s.db p.sourceId → s.db.shown p = []

section
variable {svc : IngestionService} {s : IngestState} {p : FilePlace} {c : Chunk}

theorem mem_shown : c ∈ s.db.shown p ↔ c ∈ s.db.chunks.rows ∧ ShownAt s.db p c := by
  simp only [DocumentDb.shown, List.mem_filter, decide_eq_true_eq]

theorem shownAt_iff {d : DocumentRow} (ha : Agrees s.db) (hd : d ∈ s.db.documents.rows)
    (hp : d.filePlace = p) : ShownAt s.db p c ↔ c.documentId = d.documentId ∧
      d.currentVersionId = some c.versionId ∧ SourceActive s.db p.sourceId := by
  subst hp
  constructor
  · rintro ⟨hlive, d', hd', hid, hplace⟩
    obtain ⟨hsource, hlocator⟩ := FilePlace.mk.inj hplace
    obtain rfl := ha.located d' hd' d hd hsource hlocator
    exact ⟨hid.symm, (live_iff hd hid).mp hlive⟩
  · rintro ⟨hid, hrest⟩
    exact ⟨(live_iff hd hid.symm).mpr hrest, d, hd, hid.symm, rfl⟩

theorem content_of_shownAt (ha : Agrees s.db) (h : ShownAt s.db p c) :
    ∃ checksum, s.db.content p = some checksum := by
  obtain ⟨hlive, d, hd, hid, rfl⟩ := h
  obtain ⟨hpointer, -⟩ := (live_iff hd hid).mp hlive
  obtain ⟨w, hw, hwid, hdoc⟩ := (ha.marks d hd).present _ hpointer
  have hstored : s.db.Stored (d.filePlace.key w.checksum) d.documentId w.versionId :=
    stored_of_rows hd hw rfl hdoc rfl
  rw [← hwid] at hpointer
  exact ⟨w.checksum, (content_some_iff ha).mpr ⟨_, _, hstored, pointsAt_of_row hd hpointer⟩⟩

theorem IngestInv.shows (hi : IngestInv svc s) : Shows svc s s.db.content := by
  refine ⟨fun p checksum hp hactive => ?_, fun p hp => ?_, fun p hp => ?_⟩
  · obtain ⟨d, v, hs, hpoints⟩ := (content_some_iff hi.agrees).mp hp
    obtain ⟨acq, hkey, hanswered, draws, content, metadata, hparse, hchunks, -⟩ := hi.made _ d v hs
    refine ⟨acq, draws, d, v, content, metadata, hkey, hanswered, hparse, ?_⟩
    rw [← hchunks]
    obtain ⟨row, hrow, hplace⟩ := mem_places_iff.mp hs.1
    obtain ⟨rfl, hsource, hlocator⟩ := Place.mk.inj hplace
    have hfile : row.filePlace = p := by
      simp [DocumentRow.filePlace, hsource, hlocator, FilePlace.key]
    refine List.filter_congr fun c hc => decide_eq_decide.mpr ?_
    rw [shownAt_iff hi.agrees hrow hfile, hpoints row hrow rfl]
    constructor
    · rintro ⟨-, hversion, -⟩
      exact (Option.some.inj hversion).symm
    · rintro rfl
      have hmem : c ∈ s.db.chunksOf c.versionId := List.mem_filter.mpr ⟨hc, decide_eq_true rfl⟩
      exact ⟨((hi.chunk_set hs).2 c hmem).1, rfl, hactive⟩
  · refine List.eq_nil_iff_forall_not_mem.mpr fun c hc => ?_
    obtain ⟨checksum, hsome⟩ := content_of_shownAt hi.agrees (mem_shown.mp hc).2
    rw [hp] at hsome
    cases hsome
  · refine List.eq_nil_iff_forall_not_mem.mpr fun c hc => hp ?_
    obtain ⟨-, hlive, d, hd, hid, rfl⟩ := mem_shown.mp hc
    exact ((live_iff hd hid).mp hlive).2

end

/-- However ingestions, deletions and deactivations interleave, registers follow them, and what can
be searched of the files of the active sources is what the registers hold. -/
theorem exists_registers {svc : IngestionService} {sources : KeyedTable SourceRow.sourceId}
    {as : List IngestAction} {s : IngestState}
    (hrun : (ingestSystem svc sources).run (ingestSystem svc sources).start as = some s) :
    ∃ r, registers.run registers.start ((ingestSystem svc sources).trace (registerEvents svc)
        (ingestSystem svc sources).start as) = some r ∧
      Follows s r ∧ Shows svc s r.contents := by
  have hstart : Follows (ingestSystem svc sources).start registers.start := ⟨rfl, rfl, rfl⟩
  obtain ⟨r, hr, hi, hfollows⟩ := (ingestSystem svc sources).run_trace registers
    (R := fun s r => IngestInv svc s ∧ Follows s r)
    (fun s a t r hs hstep => by
      obtain ⟨q, hq, hfollows⟩ := hs.2.step hs.1 hstep
      exact ⟨q, hq, hs.1.step a hstep, hfollows⟩)
    ⟨ingestInv_start svc sources, hstart⟩ hrun
  refine ⟨r, hr, hfollows, ?_⟩
  rw [hfollows.contents]
  exact hi.shows

end GroundGraph.Ingestion

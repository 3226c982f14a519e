import GroundGraph.Ingestion.Service

/-! An ingestion that raises leaves the database as it was, whichever step failed. It may
leave the raw object of its file, and a later ingestion does not see the difference.
-/

set_option autoImplicit false

namespace GroundGraph.Ingestion

open Transaction

variable {svc : IngestionService} {files : FileSystem} {call : IngestCall}
  {faults : IngestStep → Option IngestError}

structure NoTrace (svc : IngestionService) (files : FileSystem) (call : IngestCall)
    (w w' : World) : Prop where
  database : w'.db = w.db
  objects : w'.objects = w.objects ∨
    ∃ acq : Acquired, acq.Reads svc files call ∧ w.objects.get? acq.rawObject.key = none ∧
      w'.objects = w.objects.upsert acq.rawObject
  retry : ∀ draws, ingestFileImpl svc files call draws noFaults w' =
    ingestFileImpl svc files call draws noFaults w

theorem storeRaw_noFaults_present {acq : Acquired} {objects : ObjectStore}
    (h : (objects.get? acq.rawObject.key).isSome = true) :
    storeRaw acq noFaults objects = (objects, .ok ()) := by
  simp [storeRaw, noFaults, h]

theorem storeRaw_noFaults_absent {acq : Acquired} {objects : ObjectStore}
    (h : objects.get? acq.rawObject.key = none) :
    storeRaw acq noFaults objects = (objects.upsert acq.rawObject, .ok ()) := by
  simp [storeRaw, noFaults, h, failing]

/-- Whether the raw object is there already makes no difference. -/
theorem storeRaw_noFaults_upsert {acq : Acquired} {objects : ObjectStore}
    (h : objects.get? acq.rawObject.key = none) :
    storeRaw acq noFaults (objects.upsert acq.rawObject) = storeRaw acq noFaults objects := by
  rw [storeRaw_noFaults_absent h, storeRaw_noFaults_present]
  simp [objects.get?_upsert acq.rawObject]

theorem noTrace_refl (w : World) : NoTrace svc files call w w :=
  ⟨rfl, Or.inl rfl, fun _ => rfl⟩

theorem noTrace_rawObject {acq : Acquired} {w : World} (hreads : acq.Reads svc files call)
    (hacquire : acquireAndValidate svc files call noFaults w.db = (w.db, .ok acq))
    (hnone : w.objects.get? acq.rawObject.key = none) :
    NoTrace svc files call w ⟨w.db, w.objects.upsert acq.rawObject⟩ := by
  refine ⟨rfl, Or.inr ⟨acq, hreads, hnone, rfl⟩, fun draws => ?_⟩
  simp only [ingestFileImpl, hacquire, storeRaw_noFaults_upsert hnone]

theorem noTrace_of_storeRaw (faults : IngestStep → Option IngestError) {acq : Acquired} {w : World}
    (hreads : acq.Reads svc files call)
    (hacquire : acquireAndValidate svc files call noFaults w.db = (w.db, .ok acq)) :
    NoTrace svc files call w ⟨w.db, (storeRaw acq faults w.objects).1⟩ := by
  rcases storeRaw_cases acq faults w.objects with heq | ⟨hnone, heq⟩
  · rw [heq]
    exact noTrace_refl w
  · rw [heq]
    exact noTrace_rawObject hreads hacquire hnone

/-- Whichever step fails: an ingestion that raises leaves no trace. -/
theorem ingestFileImpl_error (svc : IngestionService) (files : FileSystem) (call : IngestCall)
    (draws : Draws) (faults : IngestStep → Option IngestError) (w w' : World) (e : IngestError)
    (h : ingestFileImpl svc files call draws faults w = (w', .error e)) :
    NoTrace svc files call w w' := by
  have hends := ingestFileImpl_ends svc files call draws faults w
  rw [h] at hends
  cases hends with
  | unread => exact noTrace_refl w
  | raised acq _ hreads hacquire => exact noTrace_of_storeRaw faults hreads hacquire

/-- The commit fails after everything was written. -/
theorem ingestFileImpl_error_commit :
    ∃ w', ingestFileImpl sampleService sampleFiles sampleCall sampleDraws (failAt .commit)
        sampleWorld = (w', .error (.failure "connection lost")) ∧
      NoTrace sampleService sampleFiles sampleCall sampleWorld w' :=
  ⟨_, rfl, ingestFileImpl_error sampleService sampleFiles sampleCall sampleDraws (failAt .commit)
    sampleWorld _ _ rfl⟩

end GroundGraph.Ingestion

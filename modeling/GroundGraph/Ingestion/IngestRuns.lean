import GroundGraph.Ingestion.Catalogue
import GroundGraph.Ingestion.Service
import GroundGraph.Library.LabelledSystem

/-! Ingestions in any number and any order. A call takes its file, looks at what is stored
and then writes, each at a time of its own; documents are deleted and sources deactivated
in between. The database serializes the writes and nothing else.
-/

set_option autoImplicit false

namespace GroundGraph.Ingestion

open Transaction

/-- A call that has its file, and what it has found once it has looked. -/
structure OpenCall where
  acq : Acquired
  found : Option Found := none

structure IngestState where
  world : World
  calls : List OpenCall := []
  answers : List (Acquired × IngestionResult) := []

def IngestState.db (s : IngestState) : DocumentDb := s.world.db

inductive IngestAction where
  | begin (call : IngestCall) (files : FileSystem) (faults : IngestStep → Option IngestError)
  | lookUp (i : Nat) (faults : IngestStep → Option IngestError)
  | write (i : Nat) (draws : Draws) (faults : IngestStep → Option IngestError)
  | deleteDocument (documentId : UUID) (faults : IngestStep → Option IngestError)
  | deactivateSource (sourceId : UUID) (now : Instant) (faults : IngestStep → Option IngestError)

def DocumentDb.FreshVersion (db : DocumentDb) (versionId : UUID) : Prop :=
  versionId ∉ db.versions.rows.map VersionRow.versionId

instance (db : DocumentDb) (versionId : UUID) : Decidable (db.FreshVersion versionId) :=
  inferInstanceAs (Decidable (¬ _))

/-- A call that raises is over; `uuid4()` never draws the id of a version that exists. A write ends
its call with the commit: the report that `ingest_file` reads afterwards may still raise, but it
changes nothing. -/
def ingestStep (svc : IngestionService) (s : IngestState) : IngestAction → Option IngestState
  | .begin call files faults =>
    match acquireAndValidate svc files call faults s.db with
    | (db, .error _) => some { s with world := ⟨db, s.world.objects⟩ }
    | (db, .ok acq) =>
      match storeRaw acq faults s.world.objects with
      | (objects, .error _) => some { s with world := ⟨db, objects⟩ }
      | (objects, .ok ()) => some { s with world := ⟨db, objects⟩, calls := s.calls ++ [⟨acq, none⟩] }
  | .lookUp i faults =>
    match s.calls[i]? with
    | some ⟨acq, none⟩ =>
      match lookUp acq.key faults s.db with
      | .returned found _ => some { s with calls := s.calls.set i ⟨acq, some found⟩ }
      | .raised _ _ => some { s with calls := s.calls.eraseIdx i }
    | _ => none
  | .write i draws faults =>
    match s.calls[i]? with
    | some ⟨acq, some found⟩ =>
      if s.db.FreshVersion draws.versionId then
        match unitOfWork .commit (finish svc acq draws found) faults s.db with
        | (db, .error _) => some { s with world := ⟨db, s.world.objects⟩, calls := s.calls.eraseIdx i }
        | (db, .ok result) =>
          some
            { world := ⟨db, s.world.objects⟩
              calls := s.calls.eraseIdx i
              answers := s.answers ++ [(acq, result)] }
      else none
    | _ => none
  | .deleteDocument documentId faults =>
    some { s with
      world := ⟨(unitOfWork .commit (deleteDocument documentId) faults s.db).1, s.world.objects⟩ }
  | .deactivateSource sourceId now faults =>
    some { s with
      world := ⟨(unitOfWork .commit (deactivateSource sourceId now) faults s.db).1,
        s.world.objects⟩ }

def ingestSystem (svc : IngestionService) (sources : KeyedTable SourceRow.sourceId) :
    LabelledSystem IngestState IngestAction where
  start := { world := ⟨.withSources sources, .empty⟩ }
  step := ingestStep svc

theorem DocumentDb.FreshVersion.editions {db : DocumentDb} {versionId : UUID}
    (h : db.FreshVersion versionId) : ∀ e ∈ db.editions, e.versionId ≠ versionId := by
  intro e he hid
  obtain ⟨v, hv, rfl⟩ := mem_editions_iff.mp he
  exact h (List.mem_map.mpr ⟨v, hv, hid⟩)

theorem ingestStep_write_cases {svc : IngestionService} {s t : IngestState} {i : Nat} {draws : Draws}
    {faults : IngestStep → Option IngestError}
    (h : ingestStep svc s (.write i draws faults) = some t) :
    ∃ acq found, s.calls[i]? = some ⟨acq, some found⟩ ∧ s.db.FreshVersion draws.versionId ∧
      t.calls = s.calls.eraseIdx i ∧
      (t.db = s.db ∧ t.answers = s.answers ∨
        ∃ r, finish svc acq draws found faults s.db = .returned r t.db ∧
          t.answers = s.answers ++ [(acq, r)]) := by
  simp only [ingestStep] at h
  split at h
  · rename_i acq found hcall
    split at h
    · rename_i hfresh
      rcases unitOfWork_cases .commit (finish svc acq draws found) faults s.db with
        ⟨e, heq⟩ | ⟨r, m, hbody, _, heq⟩
      · rw [heq] at h
        obtain rfl := Option.some.inj h
        exact ⟨acq, found, hcall, hfresh, rfl, Or.inl ⟨rfl, rfl⟩⟩
      · rw [heq] at h
        obtain rfl := Option.some.inj h
        exact ⟨acq, found, hcall, hfresh, rfl, Or.inr ⟨r, hbody, rfl⟩⟩
    · cases h
  · cases h

end GroundGraph.Ingestion

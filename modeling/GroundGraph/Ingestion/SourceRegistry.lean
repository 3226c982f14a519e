import GroundGraph.Ingestion.StoredFiles

/-! `SourceRegistrationService` and `find_or_create_source`, beside the ingestion that goes on with
the sources. A registration inserts its source unless there is one of the tenant with this type and
location, and then selects that one; the two statements see the database at different times.
-/

set_option autoImplicit false

namespace GroundGraph.Ingestion

open FindOrCreate

inductive SourceType where
  | filesystem | repository | objectStore | api
  deriving DecidableEq, Repr

/-- A `SourceDescriptor` with all its fields. -/
structure RegisteredSource where
  source : SourceDescriptor
  sourceType : SourceType
  classification : String

/-- `uq_sources_tenant_type_uri`. -/
structure SourceKey where
  tenantId : String
  sourceType : SourceType
  uri : String
  deriving DecidableEq

structure RegisterCall where
  sourceType : SourceType
  uri : String
  classification : String
  tenantId : String
  allowedPrincipals : List String

def registerFilesystemSource (uri classification tenantId : String)
    (allowedPrincipals : List String) : RegisterCall :=
  ⟨.filesystem, uri, classification, tenantId, allowedPrincipals⟩

def registerObjectUploadSource (uri classification tenantId : String)
    (allowedPrincipals : List String) : RegisterCall :=
  ⟨.objectStore, uri, classification, tenantId, allowedPrincipals⟩

def RegisterCall.key (call : RegisterCall) : SourceKey :=
  ⟨call.tenantId, call.sourceType, call.uri⟩

def RegisterCall.descriptor (call : RegisterCall) (sourceId : UUID) :
    Except IngestError RegisteredSource :=
  if h : call.tenantId = "" then .error .emptyTenant
  else
    .ok ⟨⟨sourceId, call.uri, call.tenantId, call.allowedPrincipals, true, none, h⟩,
      call.sourceType, call.classification⟩

/-- The columns of `sources` that only registrations look at. -/
structure SourceColumns where
  sourceId : UUID
  sourceType : SourceType
  classification : String

/-- The table `sources`, its columns in two halves. -/
structure Registry where
  sources : KeyedTable SourceRow.sourceId
  columns : KeyedTable SourceColumns.sourceId

def sourceKey (r : SourceRow) (c : SourceColumns) : SourceKey := ⟨r.tenantId, c.sourceType, r.uri⟩

def Registry.rows (g : Registry) : List (SourceRow × SourceColumns) :=
  g.sources.rows.filterMap fun r => (g.columns.get? r.sourceId).map fun c => (r, c)

def newSourceRow (s : RegisteredSource) : SourceRow :=
  { sourceId := s.source.sourceId
    uri := s.source.uri
    tenantId := s.source.tenantId
    allowedPrincipals := s.source.allowedPrincipals }

def newSourceColumns (s : RegisteredSource) : SourceColumns :=
  ⟨s.source.sourceId, s.sourceType, s.classification⟩

/-- `_source_to_domain`. -/
def registeredToDomain (r : SourceRow) (c : SourceColumns) : Except IngestError RegisteredSource :=
  (sourceToDomain r).map fun source => ⟨source, c.sourceType, c.classification⟩

/-- `INSERT INTO sources … ON CONFLICT (tenant_id, source_type, uri) DO NOTHING RETURNING …`. -/
def insertSource (s : RegisteredSource) (g : Registry) :
    Except IngestError (Option RegisteredSource × Registry) :=
  if g.rows.any fun row =>
      decide (sourceKey row.1 row.2 = ⟨s.source.tenantId, s.sourceType, s.source.uri⟩) then
    .ok (none, g)
  else
    match g.sources.insert? (newSourceRow s), g.columns.insert? (newSourceColumns s) with
    | some sources, some columns =>
      (registeredToDomain (newSourceRow s) (newSourceColumns s)).map fun stored =>
        (some stored, ⟨sources, columns⟩)
    | _, _ => .error (.duplicateKey "sources")

/-- `SELECT … FROM sources WHERE …`, with `scalar_one`. -/
def selectSource (key : SourceKey) (g : Registry) : Except IngestError RegisteredSource :=
  match g.rows.filter fun row => decide (sourceKey row.1 row.2 = key) with
  | [] => .error (.failure "NoResultFound")
  | [row] => registeredToDomain row.1 row.2
  | _ => .error .multipleResults

/-! ## Registrations beside ingestions -/

structure SourceAnswer where
  call : RegisterCall
  source : RegisteredSource
  created : Bool

/-- `calls` are those that inserted nothing and have not selected yet. -/
structure RegistryState where
  ingest : IngestState
  columns : KeyedTable SourceColumns.sourceId
  calls : List RegisterCall := []
  answers : List SourceAnswer := []

def RegistryState.registry (s : RegistryState) : Registry := ⟨s.ingest.db.sources, s.columns⟩

def IngestState.withSources (s : IngestState) (sources : KeyedTable SourceRow.sourceId) :
    IngestState :=
  { s with world := { s.world with db := { s.world.db with sources := sources } } }

/-- A call that raises is over, its transaction rolled back. -/
inductive RegistryAction where
  | insert (call : RegisterCall) (sourceId : UUID) (fault : Option IngestError)
  | select (i : Nat) (fault : Option IngestError)
  | ingest (a : IngestAction)

def registryStep (svc : IngestionService) (s : RegistryState) :
    RegistryAction → Option RegistryState
  | .insert call sourceId fault =>
    match call.descriptor sourceId with
    | .error _ => some s
    | .ok source =>
      match fault, insertSource source s.registry with
      | none, .ok (some stored, g) =>
        some
          { ingest := s.ingest.withSources g.sources
            columns := g.columns
            calls := s.calls
            answers := s.answers ++ [⟨call, stored, true⟩] }
      | none, .ok (none, _) => some { s with calls := s.calls ++ [call] }
      | _, _ => some s
  | .select i fault =>
    match s.calls[i]? with
    | none => none
    | some call =>
      match fault, selectSource call.key s.registry with
      | none, .ok stored =>
        some
          { s with
            calls := s.calls.eraseIdx i
            answers := s.answers ++ [⟨call, stored, false⟩] }
      | _, _ => some { s with calls := s.calls.eraseIdx i }
  | .ingest a => (ingestStep svc s.ingest a).map fun ingest => { s with ingest := ingest }

def registrySystem (svc : IngestionService) : LabelledSystem RegistryState RegistryAction where
  start := { ingest := (ingestSystem svc .empty).start, columns := .empty }
  step := registryStep svc

def Registry.Stored (g : Registry) (key : SourceKey) (sourceId : UUID) : Prop :=
  ∃ r c, (r, c) ∈ g.rows ∧ sourceKey r c = key ∧ r.sourceId = sourceId

structure Registry.Describes (g : Registry) (s : RegisteredSource) : Prop where
  row : ∃ r, g.sources.get? s.source.sourceId = some r ∧ r.registration = s.source.registration
  columns : g.columns.get? s.source.sourceId = some (newSourceColumns s)

section
variable {g g' : Registry} {s : RegisteredSource} {key : SourceKey} {sourceId : UUID}

theorem mem_registryRows {r : SourceRow} {c : SourceColumns} :
    (r, c) ∈ g.rows ↔
      g.sources.get? r.sourceId = some r ∧ g.columns.get? r.sourceId = some c := by
  simp only [Registry.rows, List.mem_filterMap, Option.map_eq_some_iff, Prod.mk.injEq]
  constructor
  · rintro ⟨x, hx, y, hy, rfl, rfl⟩
    exact ⟨g.sources.mem_rows_iff.mp hx, hy⟩
  · rintro ⟨hr, hc⟩
    exact ⟨r, g.sources.mem_rows_iff.mpr hr, c, hc, rfl, rfl⟩

theorem registeredToDomain_ok {r : SourceRow} {c : SourceColumns}
    (h : registeredToDomain r c = .ok s) :
    s.source.registration = r.registration ∧ s.source.isActive = r.isActive ∧
      s.sourceType = c.sourceType ∧ s.classification = c.classification := by
  unfold registeredToDomain sourceToDomain at h
  split at h
  · cases h
  · obtain rfl := Except.ok.inj h
    exact ⟨rfl, rfl, rfl, rfl⟩

theorem describes_of_row {r : SourceRow} {c : SourceColumns} (hrow : (r, c) ∈ g.rows)
    (h : registeredToDomain r c = .ok s) : g.Describes s ∧ g.Stored (sourceKey r c) s.source.sourceId := by
  obtain ⟨hr, hc⟩ := mem_registryRows.mp hrow
  obtain ⟨hregistration, -, htype, hclass⟩ := registeredToDomain_ok h
  have hid : s.source.sourceId = r.sourceId := congrArg Registration.sourceId hregistration
  have hcid : c.sourceId = r.sourceId := (g.columns.get?_some_iff.mp hc).2
  refine ⟨⟨⟨r, by rw [hid, hr], hregistration.symm⟩, ?_⟩, r, c, hrow, rfl, hid.symm⟩
  rw [hid, hc, newSourceColumns, hid, htype, hclass, ← hcid]

/-! ## The two statements -/

inductive Inserted (s : RegisteredSource) (g : Registry) : Option RegisteredSource × Registry → Prop
  | found {sourceId : UUID}
      (stored : g.Stored ⟨s.source.tenantId, s.sourceType, s.source.uri⟩ sourceId) :
      Inserted s g (none, g)
  | created {sources : KeyedTable SourceRow.sourceId} {columns : KeyedTable SourceColumns.sourceId}
      {stored : RegisteredSource}
      (absent : ∀ id, ¬ g.Stored ⟨s.source.tenantId, s.sourceType, s.source.uri⟩ id)
      (sources_eq : g.sources.insert? (newSourceRow s) = some sources)
      (columns_eq : g.columns.insert? (newSourceColumns s) = some columns)
      (stored_eq : registeredToDomain (newSourceRow s) (newSourceColumns s) = .ok stored) :
      Inserted s g (some stored, ⟨sources, columns⟩)

theorem insertSource_inserted {result : Option RegisteredSource × Registry}
    (h : insertSource s g = .ok result) : Inserted s g result := by
  unfold insertSource at h
  split at h
  · rename_i hany
    obtain rfl := Except.ok.inj h
    obtain ⟨⟨r, c⟩, hrow, hkey⟩ := List.any_eq_true.mp hany
    exact .found ⟨r, c, hrow, by simpa using hkey, rfl⟩
  · rename_i hnone
    split at h
    · rename_i sources columns hsources hcolumns
      have habsent : ∀ id, ¬ g.Stored ⟨s.source.tenantId, s.sourceType, s.source.uri⟩ id := by
        rintro id ⟨r, c, hrow, hkey, -⟩
        exact hnone (List.any_eq_true.mpr ⟨(r, c), hrow, by simpa using hkey⟩)
      cases hstored : registeredToDomain (newSourceRow s) (newSourceColumns s) with
      | error e => simp [hstored, Except.map] at h
      | ok stored =>
        simp only [hstored, Except.map, Except.ok.injEq] at h
        rw [← h]
        exact .created habsent hsources hcolumns hstored
    · cases h

theorem selectSource_row (h : selectSource key g = .ok s) :
    ∃ r c, (r, c) ∈ g.rows ∧ sourceKey r c = key ∧ registeredToDomain r c = .ok s := by
  unfold selectSource at h
  split at h
  · cases h
  · rename_i row hfilter
    have hmem : row ∈ g.rows.filter fun row => decide (sourceKey row.1 row.2 = key) := by
      rw [hfilter]
      exact List.mem_singleton_self row
    obtain ⟨hrow, hkey⟩ := List.mem_filter.mp hmem
    exact ⟨row.1, row.2, hrow, of_decide_eq_true hkey, h⟩
  · cases h

theorem selectSource_ok (h : selectSource key g = .ok s) :
    g.Describes s ∧ g.Stored key s.source.sourceId := by
  obtain ⟨r, c, hrow, rfl, hdomain⟩ := selectSource_row h
  exact describes_of_row hrow hdomain

/-! ## What the two tables keep -/

def Registry.Whole (g : Registry) : Prop :=
  ∀ id, (g.columns.get? id).isSome = (g.sources.get? id).isSome

/-- Nothing that is said for good has changed, and nothing is gone. -/
structure Registry.Grows (g g' : Registry) : Prop where
  sources : ∀ id r, g.sources.get? id = some r →
    ∃ r', g'.sources.get? id = some r' ∧ r'.registration = r.registration
  columns : ∀ id c, g.columns.get? id = some c → g'.columns.get? id = some c

theorem Registry.Describes.mono (h : g.Describes s) (hgrows : g.Grows g') : g'.Describes s := by
  obtain ⟨⟨r, hr, hregistration⟩, hcolumns⟩ := h
  obtain ⟨r', hr', hsame⟩ := hgrows.sources _ r hr
  exact ⟨⟨r', hr', hsame.trans hregistration⟩, hgrows.columns _ _ hcolumns⟩

theorem sourceKey_congr {r r' : SourceRow} (h : r'.registration = r.registration)
    (c : SourceColumns) : sourceKey r' c = sourceKey r c := by
  have htenant : r'.tenantId = r.tenantId := congrArg Registration.tenantId h
  have huri : r'.uri = r.uri := congrArg Registration.uri h
  rw [sourceKey, htenant, huri, sourceKey]

theorem Registry.Stored.mono (h : g.Stored key sourceId) (hgrows : g.Grows g') :
    g'.Stored key sourceId := by
  obtain ⟨r, c, hrow, hkey, hid⟩ := h
  obtain ⟨hr, hc⟩ := mem_registryRows.mp hrow
  obtain ⟨r', hr', hsame⟩ := hgrows.sources _ r hr
  have hid' : r'.sourceId = r.sourceId := congrArg Registration.sourceId hsame
  refine ⟨r', c, mem_registryRows.mpr ⟨hid' ▸ hr', hid' ▸ hgrows.columns _ c hc⟩, ?_, hid'.trans hid⟩
  rw [sourceKey_congr hsame, hkey]

theorem grows_inserted {sources : KeyedTable SourceRow.sourceId}
    {columns : KeyedTable SourceColumns.sourceId}
    (hsources : g.sources.insert? (newSourceRow s) = some sources)
    (hcolumns : g.columns.insert? (newSourceColumns s) = some columns) :
    g.Grows ⟨sources, columns⟩ where
  sources := fun _ r hr => ⟨r, KeyedTable.get?_of_insert? hsources hr, rfl⟩
  columns := fun _ _ hc => KeyedTable.get?_of_insert? hcolumns hc

theorem get?_inserted {sources : KeyedTable SourceRow.sourceId}
    (h : g.sources.insert? (newSourceRow s) = some sources) (id : UUID) :
    sources.get? id = if id = s.source.sourceId then some (newSourceRow s) else g.sources.get? id :=
  KeyedTable.get?_insert? h id

theorem get?_insertedColumns {columns : KeyedTable SourceColumns.sourceId}
    (h : g.columns.insert? (newSourceColumns s) = some columns) (id : UUID) :
    columns.get? id =
      if id = s.source.sourceId then some (newSourceColumns s) else g.columns.get? id :=
  KeyedTable.get?_insert? h id

theorem stored_inserted_iff {sources : KeyedTable SourceRow.sourceId}
    {columns : KeyedTable SourceColumns.sourceId}
    (hsources : g.sources.insert? (newSourceRow s) = some sources)
    (hcolumns : g.columns.insert? (newSourceColumns s) = some columns) :
    Registry.Stored ⟨sources, columns⟩ key sourceId ↔ g.Stored key sourceId ∨
      key = ⟨s.source.tenantId, s.sourceType, s.source.uri⟩ ∧ sourceId = s.source.sourceId := by
  constructor
  · rintro ⟨r, c, hrow, rfl, rfl⟩
    obtain ⟨hr, hc⟩ := mem_registryRows.mp hrow
    simp only [get?_inserted hsources, get?_insertedColumns hcolumns] at hr hc
    by_cases hid : r.sourceId = s.source.sourceId
    · rw [if_pos hid] at hr hc
      obtain rfl := Option.some.inj hr
      obtain rfl := Option.some.inj hc
      exact Or.inr ⟨rfl, rfl⟩
    · rw [if_neg hid] at hr hc
      exact Or.inl ⟨r, c, mem_registryRows.mpr ⟨hr, hc⟩, rfl, rfl⟩
  · rintro (hstored | ⟨rfl, rfl⟩)
    · exact hstored.mono (grows_inserted hsources hcolumns)
    · refine ⟨newSourceRow s, newSourceColumns s, mem_registryRows.mpr ⟨?_, ?_⟩, rfl, rfl⟩
      · exact (get?_inserted hsources _).trans (if_pos rfl)
      · exact (get?_insertedColumns hcolumns _).trans (if_pos rfl)

theorem whole_inserted {sources : KeyedTable SourceRow.sourceId}
    {columns : KeyedTable SourceColumns.sourceId} (h : g.Whole)
    (hsources : g.sources.insert? (newSourceRow s) = some sources)
    (hcolumns : g.columns.insert? (newSourceColumns s) = some columns) :
    Registry.Whole ⟨sources, columns⟩ := by
  intro id
  show (columns.get? id).isSome = (sources.get? id).isSome
  rw [get?_inserted hsources, get?_insertedColumns hcolumns]
  split
  · rfl
  · exact h id

theorem SourcesStep.get? {sources sources' : KeyedTable SourceRow.sourceId}
    (h : SourcesStep sources sources') {k : UUID} {r : SourceRow} (hr : sources.get? k = some r) :
    ∃ r', sources'.get? k = some r' ∧ r'.registration = r.registration ∧
      (r.isActive = false → r'.isActive = false) := by
  rcases h with rfl | ⟨sourceId, now, rfl⟩
  · exact ⟨r, hr, rfl, id⟩
  · rw [KeyedTable.get?_modifyAt, hr]
    split
    · exact ⟨_, rfl, rfl, fun _ => rfl⟩
    · exact ⟨r, rfl, rfl, id⟩

theorem SourcesStep.isSome_get? {sources sources' : KeyedTable SourceRow.sourceId}
    (h : SourcesStep sources sources') (k : UUID) :
    (sources'.get? k).isSome = (sources.get? k).isSome := by
  rcases h with rfl | ⟨sourceId, now, rfl⟩
  · rfl
  · rw [KeyedTable.isSome_get?_modifyAt]

end

/-! ## The invariant -/

def SourceAnswer.told (a : SourceAnswer) : Answer SourceKey UUID :=
  ⟨a.call.key, a.source.source.sourceId, a.created⟩

structure RegistryInv (svc : IngestionService) (s : RegistryState) : Prop where
  ingest : IngestInv svc s.ingest
  whole : s.registry.Whole
  answers : Consistent s.registry.Stored (s.answers.map SourceAnswer.told)
  calls : ∀ c ∈ s.calls, ∃ id, s.registry.Stored c.key id
  described : ∀ a ∈ s.answers, s.registry.Describes a.source
  /-- Who creates the source settles the rest of it. -/
  settled : ∀ a ∈ s.answers, a.created = true →
    a.source.classification = a.call.classification ∧
      a.source.source.allowedPrincipals = a.call.allowedPrincipals

variable {svc : IngestionService} {s t : RegistryState}

theorem IngestInv.withSources {s : IngestState} (h : IngestInv svc s)
    {sources : KeyedTable SourceRow.sourceId}
    (hgrow : ∀ k, (s.db.sources.get? k).isSome = true → (sources.get? k).isSome = true) :
    IngestInv svc (s.withSources sources) where
  agrees := ⟨⟨h.agrees.owned, h.agrees.located⟩, fun d hd =>
    ⟨(h.agrees.marks d hd).1, (h.agrees.marks d hd).2⟩⟩
  distinct := h.distinct
  checkpoints := h.checkpoints
  calls := fun c hc => ⟨(h.calls c hc).found, hgrow _ (h.calls c hc).source⟩
  answers := h.answers
  made := fun key d v hs => by
    obtain ⟨acq, hkey, hanswered, hrecords⟩ := h.made key d v hs
    exact ⟨acq, hkey, hanswered, hrecords⟩
  unstored := h.unstored
  registered := fun key d v hs => hgrow _ (h.registered key d v hs)

/-- A step that only reads the two tables, or grows them. -/
theorem RegistryInv.later (h : RegistryInv svc s) (hingest : IngestInv svc t.ingest)
    (hgrows : s.registry.Grows t.registry) (hwhole : t.registry.Whole)
    (hanswers : Consistent t.registry.Stored (t.answers.map SourceAnswer.told))
    (hcalls : ∀ c ∈ t.calls, c ∈ s.calls ∨ ∃ id, t.registry.Stored c.key id)
    (hnew : ∀ a ∈ t.answers, a ∈ s.answers ∨ t.registry.Describes a.source ∧
      (a.created = true → a.source.classification = a.call.classification ∧
        a.source.source.allowedPrincipals = a.call.allowedPrincipals)) : RegistryInv svc t where
  ingest := hingest
  whole := hwhole
  answers := hanswers
  calls := by
    intro c hc
    rcases hcalls c hc with hc | hstored
    · obtain ⟨id, hstored⟩ := h.calls c hc
      exact ⟨id, hstored.mono hgrows⟩
    · exact hstored
  described := by
    intro a ha
    rcases hnew a ha with ha | ⟨hdescribes, -⟩
    · exact (h.described a ha).mono hgrows
    · exact hdescribes
  settled := by
    intro a ha
    rcases hnew a ha with ha | ⟨-, hsettled⟩
    · exact h.settled a ha
    · exact hsettled

theorem Registry.Grows.refl (g : Registry) : g.Grows g :=
  ⟨fun _ r hr => ⟨r, hr, rfl⟩, fun _ _ => id⟩

theorem descriptor_ok {call : RegisterCall} {sourceId : UUID} {source : RegisteredSource}
    (h : call.descriptor sourceId = .ok source) :
    (⟨source.source.tenantId, source.sourceType, source.source.uri⟩ : SourceKey) = call.key ∧
      source.source.sourceId = sourceId ∧ source.classification = call.classification ∧
      source.source.allowedPrincipals = call.allowedPrincipals ∧ source.source.isActive = true := by
  unfold RegisterCall.descriptor at h
  split at h
  · cases h
  · obtain rfl := Except.ok.inj h
    exact ⟨rfl, rfl, rfl, rfl, rfl⟩

theorem RegistryInv.insert (h : RegistryInv svc s) {call : RegisterCall} {sourceId : UUID}
    {fault : Option IngestError} (hstep : registryStep svc s (.insert call sourceId fault) = some t) :
    RegistryInv svc t := by
  simp only [registryStep] at hstep
  split at hstep
  · obtain rfl := Option.some.inj hstep
    exact h
  · rename_i source hsource
    obtain ⟨hkey, -, hclass, hprincipals, -⟩ := descriptor_ok hsource
    split at hstep
    · rename_i stored g hinsert
      obtain rfl := Option.some.inj hstep
      cases insertSource_inserted hinsert with
      | created absent hsources hcolumns hstored =>
        have hgrows := grows_inserted hsources hcolumns
        rw [hkey] at absent
        obtain ⟨hregistration, -, htype, hclass'⟩ := registeredToDomain_ok hstored
        have hid : stored.source.sourceId = source.source.sourceId :=
          congrArg Registration.sourceId hregistration
        have hallowed : stored.source.allowedPrincipals = source.source.allowedPrincipals :=
          congrArg Registration.allowedPrincipals hregistration
        have hrow : (newSourceRow source, newSourceColumns source) ∈ (Registry.mk _ _).rows :=
          mem_registryRows.mpr ⟨(get?_inserted hsources _).trans (if_pos rfl),
            (get?_insertedColumns hcolumns _).trans (if_pos rfl)⟩
        refine h.later ?_ hgrows (whole_inserted h.whole hsources hcolumns) ?_
          (fun c hc => Or.inl hc) fun a ha => ?_
        · refine h.ingest.withSources fun k hk => ?_
          obtain ⟨r, hr⟩ := Option.isSome_iff_exists.mp hk
          rw [KeyedTable.get?_of_insert? hsources hr]
          rfl
        · rw [List.map_append]
          refine h.answers.create absent fun j id => ?_
          rw [hid, ← hkey]
          exact stored_inserted_iff hsources hcolumns
        · rcases List.mem_append.mp ha with ha | ha
          · exact Or.inl ha
          · rw [List.mem_singleton.mp ha]
            exact Or.inr ⟨(describes_of_row hrow hstored).1, fun _ =>
              ⟨hclass'.trans hclass, hallowed.trans hprincipals⟩⟩
    · rename_i g hinsert
      obtain rfl := Option.some.inj hstep
      cases insertSource_inserted hinsert with
      | found hstored =>
        rw [hkey] at hstored
        refine h.later h.ingest (.refl _) h.whole h.answers (fun c hc => ?_) fun a ha => Or.inl ha
        rcases List.mem_append.mp hc with hc | hc
        · exact Or.inl hc
        · rw [List.mem_singleton.mp hc]
          exact Or.inr ⟨_, hstored⟩
    · obtain rfl := Option.some.inj hstep
      exact h

theorem RegistryInv.select (h : RegistryInv svc s) {i : Nat} {fault : Option IngestError}
    (hstep : registryStep svc s (.select i fault) = some t) : RegistryInv svc t := by
  simp only [registryStep] at hstep
  split at hstep
  · cases hstep
  · rename_i call hcall
    split at hstep
    · rename_i stored hselect
      obtain rfl := Option.some.inj hstep
      obtain ⟨hdescribes, hstored⟩ := selectSource_ok hselect
      refine h.later h.ingest (.refl _) h.whole ?_
        (fun c hc => Or.inl (List.mem_of_mem_eraseIdx hc)) fun a ha => ?_
      · rw [List.map_append]
        exact h.answers.found hstored
      · rcases List.mem_append.mp ha with ha | ha
        · exact Or.inl ha
        · rw [List.mem_singleton.mp ha]
          exact Or.inr ⟨hdescribes, fun hcreated => by cases hcreated⟩
    · obtain rfl := Option.some.inj hstep
      exact h.later h.ingest (.refl _) h.whole h.answers
        (fun c hc => Or.inl (List.mem_of_mem_eraseIdx hc)) fun a ha => Or.inl ha

theorem SourcesStep.grows {g : Registry} {sources' : KeyedTable SourceRow.sourceId}
    (h : SourcesStep g.sources sources') : g.Grows ⟨sources', g.columns⟩ where
  sources := by
    intro k r hr
    obtain ⟨r', hr', hsame, -⟩ := h.get? hr
    exact ⟨r', hr', hsame⟩
  columns := fun _ _ => id

theorem SourcesStep.stored_iff {g : Registry} {sources' : KeyedTable SourceRow.sourceId}
    (h : SourcesStep g.sources sources') {key : SourceKey} {k : UUID} :
    Registry.Stored ⟨sources', g.columns⟩ key k ↔ g.Stored key k := by
  refine ⟨?_, fun hstored => hstored.mono h.grows⟩
  rintro ⟨r', c, hrow, rfl, rfl⟩
  obtain ⟨hr', hc⟩ := mem_registryRows.mp hrow
  have hsome := h.isSome_get? r'.sourceId
  rw [show sources'.get? r'.sourceId = some r' from hr', Option.isSome_some] at hsome
  obtain ⟨r, hr⟩ := Option.isSome_iff_exists.mp hsome.symm
  obtain ⟨x, hx, hsame, -⟩ := h.get? hr
  rw [show sources'.get? r'.sourceId = some r' from hr'] at hx
  obtain rfl := Option.some.inj hx
  have hid : r'.sourceId = r.sourceId := congrArg Registration.sourceId hsame
  exact ⟨r, c, mem_registryRows.mpr ⟨hid ▸ hr, hid ▸ hc⟩, (sourceKey_congr hsame c).symm, hid.symm⟩

theorem RegistryInv.step (h : RegistryInv svc s) (a : RegistryAction)
    (hstep : registryStep svc s a = some t) : RegistryInv svc t := by
  cases a with
  | insert call sourceId fault => exact h.insert hstep
  | select i fault => exact h.select hstep
  | ingest a =>
    obtain ⟨j, hj, rfl⟩ := Option.map_eq_some_iff.mp hstep
    have hsources : SourcesStep s.registry.sources j.db.sources := ingestStep_sources h.ingest hj
    refine h.later (h.ingest.step a hj) hsources.grows (fun k => ?_) ?_ (fun c hc => Or.inl hc)
      fun a ha => Or.inl ha
    · show (s.columns.get? k).isSome = (j.db.sources.get? k).isSome
      rw [hsources.isSome_get?]
      exact h.whole k
    · exact h.answers.congr fun key k => hsources.stored_iff

theorem registryInv_reachable (h : (registrySystem svc).Reachable s) : RegistryInv svc s :=
  (registrySystem svc).reachable_invariant
    { ingest := ingestInv_start svc .empty
      whole := fun _ => rfl
      answers := consistent_nil fun key id hs => by
        obtain ⟨r, c, hrow, -⟩ := hs
        cases hrow
      calls := List.forall_mem_nil _
      described := List.forall_mem_nil _
      settled := List.forall_mem_nil _ }
    (fun _ a _ hs hstep => hs.step a hstep) h

/-! ## What registrations return -/

/-- One source for each tenant, type and location; the registration that inserted it has settled
who may read it, and each one that has found a source can return it. -/
structure Registered (svc : IngestionService) (s : RegistryState) : Prop where
  one_source : ∀ key k k', s.registry.Stored key k → s.registry.Stored key k' → k = k'
  one_creator : ∀ a ∈ s.answers,
    (s.answers.filter fun b => b.created && decide (b.call.key = a.call.key)).length = 1
  first_wins : ∀ a ∈ s.answers, ∀ b ∈ s.answers, b.created = true → b.call.key = a.call.key →
    a.source.source.sourceId = b.source.source.sourceId ∧
      a.source.classification = b.call.classification ∧
      a.source.source.allowedPrincipals = b.call.allowedPrincipals
  returns : ∀ (i : Nat) (call : RegisterCall), s.calls[i]? = some call →
    ∃ t stored, registryStep svc s (.select i none) = some t ∧
      t.answers = s.answers ++ [⟨call, stored, false⟩]

theorem RegistryInv.creator (h : RegistryInv svc s) {key : SourceKey} {k : UUID}
    (hk : s.registry.Stored key k) :
    (s.answers.filter fun b => b.created && decide (b.call.key = key)).length = 1 := by
  have honce := h.answers.once key k hk
  simp only [creations, List.filter_map, List.length_map] at honce
  exact honce

theorem RegistryInv.first_wins (h : RegistryInv svc s) {a b : SourceAnswer} (ha : a ∈ s.answers)
    (hb : b ∈ s.answers) (hcreated : b.created = true) (hkey : b.call.key = a.call.key) :
    a.source.source.sourceId = b.source.source.sourceId ∧
      a.source.classification = b.call.classification ∧
      a.source.source.allowedPrincipals = b.call.allowedPrincipals := by
  have hid : a.source.source.sourceId = b.source.source.sourceId :=
    h.answers.same_value (List.mem_map_of_mem ha) (List.mem_map_of_mem hb) hkey.symm
  obtain ⟨⟨r, hr, hregistration⟩, hcolumns⟩ := h.described a ha
  obtain ⟨⟨r', hr', hregistration'⟩, hcolumns'⟩ := h.described b hb
  obtain ⟨hclass, hprincipals⟩ := h.settled b hb hcreated
  rw [hid] at hr hcolumns
  rw [hr] at hr'
  obtain rfl := Option.some.inj hr'
  rw [hcolumns] at hcolumns'
  have hsame : a.source.source.registration = b.source.source.registration :=
    hregistration.symm.trans hregistration'
  have hsameClass : a.source.classification = b.source.classification :=
    congrArg SourceColumns.classification (Option.some.inj hcolumns')
  exact ⟨hid, hsameClass.trans hclass,
    (congrArg Registration.allowedPrincipals hsame).trans hprincipals⟩

theorem nodup_registryRows (g : Registry) : g.rows.Nodup := by
  refine List.Nodup.filterMap ?_ g.sources.unique.of_map
  intro r r' row hrow hrow'
  obtain ⟨c, -, rfl⟩ := Option.map_eq_some_iff.mp hrow
  obtain ⟨c', -, hpair⟩ := Option.map_eq_some_iff.mp hrow'
  exact (congrArg Prod.fst hpair).symm

theorem RegistryInv.selectSource (h : RegistryInv svc s) {key : SourceKey} {k : UUID}
    (hk : s.registry.Stored key k) : ∃ stored, selectSource key s.registry = .ok stored := by
  obtain ⟨r, c, hrow, hkey, hid⟩ := hk
  have hfilter : (s.registry.rows.filter fun row => decide (sourceKey row.1 row.2 = key)) =
      [(r, c)] := by
    refine List.perm_singleton.mp ((List.perm_ext_iff_of_nodup
      ((nodup_registryRows _).filter _) (List.nodup_singleton _)).mpr ?_)
    rintro ⟨r', c'⟩
    rw [List.mem_filter, List.mem_singleton, decide_eq_true_eq]
    constructor
    · rintro ⟨hrow', hkey'⟩
      have hsame : r'.sourceId = r.sourceId :=
        h.answers.functional key _ _ ⟨r', c', hrow', hkey', rfl⟩ ⟨r, c, hrow, hkey, rfl⟩
      obtain ⟨hr, hc⟩ := mem_registryRows.mp hrow
      obtain ⟨hr', hc'⟩ := mem_registryRows.mp hrow'
      rw [hsame, hr] at hr'
      rw [hsame, hc] at hc'
      rw [Option.some.inj hr', Option.some.inj hc']
    · rintro hpair
      obtain ⟨rfl, rfl⟩ := Prod.mk.inj hpair
      exact ⟨hrow, hkey⟩
  -- the source has a creator, whose descriptor was valid
  obtain ⟨a, ha⟩ := List.length_eq_one_iff.mp (h.creator ⟨r, c, hrow, hkey, hid⟩)
  have hmem : a ∈ s.answers.filter fun b => b.created && decide (b.call.key = key) := by
    rw [ha]
    exact List.mem_singleton_self a
  obtain ⟨hanswer, hcond⟩ := List.mem_filter.mp hmem
  simp only [Bool.and_eq_true, decide_eq_true_eq] at hcond
  have hstored : s.registry.Stored a.call.key a.source.source.sourceId :=
    h.answers.agree _ (List.mem_map_of_mem hanswer)
  rw [hcond.2] at hstored
  have hsame := h.answers.functional key _ _ hstored ⟨r, c, hrow, hkey, rfl⟩
  obtain ⟨⟨x, hx, hregistration⟩, -⟩ := h.described a hanswer
  rw [hsame, (mem_registryRows.mp hrow).1] at hx
  obtain rfl := Option.some.inj hx
  have htenant : r.tenantId ≠ "" := by
    rw [show r.tenantId = a.source.source.tenantId from congrArg Registration.tenantId hregistration]
    exact a.source.source.tenantId_nonempty
  refine ⟨⟨⟨r.sourceId, r.uri, r.tenantId, r.allowedPrincipals, r.isActive, r.deactivatedAt, htenant⟩,
    c.sourceType, c.classification⟩, ?_⟩
  simp only [Ingestion.selectSource, hfilter, registeredToDomain, sourceToDomain, dif_neg htenant,
    Except.map]

theorem registrations_settled {svc : IngestionService} {s : RegistryState}
    (h : (registrySystem svc).Reachable s) : Registered svc s := by
  have hi := registryInv_reachable h
  refine ⟨hi.answers.functional, fun a ha => ?_, fun a ha b hb => hi.first_wins ha hb, ?_⟩
  · exact hi.creator (hi.answers.agree _ (List.mem_map_of_mem ha))
  · intro i call hcall
    obtain ⟨k, hk⟩ := hi.calls call (List.mem_of_getElem? hcall)
    obtain ⟨stored, hselect⟩ := hi.selectSource hk
    exact ⟨_, stored, by simp only [registryStep, hcall, hselect]; rfl, rfl⟩

def registryActions : List RegistryAction :=
  [.insert (registerFilesystemSource "/srv/docs" "internal" "acme" ["team"]) 1 none,
    .insert (registerFilesystemSource "/srv/docs" "public" "acme" []) 2 none,
    .ingest (.deactivateSource 1 20 Transaction.noFaults), .select 0 none]

theorem registry_answers :
    ((registrySystem sampleService).run (registrySystem sampleService).start registryActions).map
      (fun s => s.answers.map fun a =>
        (a.source.source.sourceId, a.source.classification, a.source.source.isActive)) =
          some [(1, "internal", true), (1, "internal", false)] := by
  decide +kernel

theorem registrations_settled_twice :
    ∃ s : RegistryState, s.answers.map (fun a => a.source.classification) =
      ["internal", "internal"] ∧ Registered sampleService s := by
  obtain ⟨s, hs, hanswers⟩ := Option.map_eq_some_iff.mp registry_answers
  refine ⟨s, ?_, registrations_settled ⟨registryActions, hs⟩⟩
  have hmap := congrArg (List.map fun x : UUID × String × Bool => x.2.1) hanswers
  rw [List.map_map] at hmap
  exact hmap

end GroundGraph.Ingestion

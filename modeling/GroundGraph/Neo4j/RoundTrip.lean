import GroundGraph.Neo4j.NodeGraph
import GroundGraph.Outbox.Emitter

/-! Emit, project, store and read back: four mappings over the fields of an object, and what
is left of it after all of them.
-/

set_option autoImplicit false

namespace GroundGraph.Neo4j.Nodes

open GroundGraph.Knowledge GroundGraph.Outbox IsoDatetime
open Transaction (noFaults query_noFaults)

/-- What `json.dumps` and `json.loads` document, for one object. -/
structure JsonText.RoundTrips (json : JsonText) (attributes : JsonObject) : Prop where
  loads_dumps : json.loads (json.dumps attributes) = some (.dict attributes)
  loads_braces : json.loads "\x7b\x7d" = some (.dict [])
  loads_empty : json.loads "" = none

variable {co : Conversions}

theorem readsUuids_of_documented (hco : Documented co) : ReadsUuids co := hco.uuid

theorem dictToEntity_entityNode (hco : Documented co) {json : JsonText} {e : CanonicalEntity}
    (hjson : json.RoundTrips e.attributes) :
    dictToEntity co json (entityNode json e) = some e := by
  have hid : readUuid co (uuidString e.entityId) = some e.entityId := hco.uuid e.entityId
  have hdumps : json.dumps e.attributes ≠ "" := by
    intro h
    have hloads := hjson.loads_dumps
    rw [h, hjson.loads_empty] at hloads
    cases hloads
  obtain ⟨entityId, entityType, canonicalName, aliases, attributes⟩ := e
  cases attributes with
  | nil => simp [dictToEntity, entityNode, hid, hjson.loads_braces, asDict]
  | cons entry rest => simp [dictToEntity, entityNode, hid, hdumps, hjson.loads_dumps, asDict]

def mergeEntity (json : JsonText) (e : CanonicalEntity) (s : NodeStore) : NodeStore :=
  { s with entities := s.entities.upsert (entityNode json e) }

theorem getEntity_mergeEntity (hco : Documented co) {json : JsonText} {e : CanonicalEntity}
    (hjson : json.RoundTrips e.attributes) (s : NodeStore) :
    getEntity co json e.entityId noFaults (mergeEntity json e s) =
      .returned (some e) (mergeEntity json e s) := by
  have hget : (mergeEntity json e s).entities.get? (uuidString e.entityId) =
      some (entityNode json e) := by
    rw [mergeEntity, KeyedTable.get?_upsert]
    exact if_pos rfl
  unfold getEntity
  rw [query_noFaults]
  simp only [hget, dictToEntity_entityNode hco hjson]

theorem getFact_mergeFact (hco : ReadsUuids co) (f : KnowledgeFact) (s : NodeStore) :
    getFact co f.factId noFaults (mergeFact f s) = .returned (some f) (mergeFact f s) := by
  have hget : (mergeFact f s).facts.get? (uuidString f.factId) = some (factNode f) := by
    rw [mergeFact, KeyedTable.get?_upsert]
    exact if_pos rfl
  unfold getFact
  rw [query_noFaults]
  simp only [hget, dictToFact_factNode hco]

theorem projectEvent_emitMention (hco : Documented co) (m : EntityMention) (eventId : UUID)
    (now later : Instant) (g : Graph) :
    projectEvent co g later (emitMention eventId now m).eventType
      (emitMention eventId now m).payload = .ok (createMention g m) := by
  simp [projectEvent, emitMention, pendingRow, mentionOfPayload_mentionPayload hco, bind,
    Except.bind, pure, Except.pure]

theorem projectEvent_emitEntity (hco : Documented co) (e : CanonicalEntity) (eventId : UUID)
    (now later : Instant) (g : Graph) :
    projectEvent co g later (emitEntity eventId now e).eventType
      (emitEntity eventId now e).payload = .ok (Neo4j.createEntity e) := by
  simp [projectEvent, emitEntity, pendingRow, entityOfPayload_entityPayload hco, bind,
    Except.bind, pure, Except.pure]

theorem projectEvent_emitFact_iff (hco : Documented co) (z : ZonedFact) (eventId : UUID)
    (now later : Instant) (g : Graph) :
    projectEvent co g later (emitFact eventId now z).eventType
      (emitFact eventId now z).payload = .ok (Neo4j.createFact g z.fact) ↔
        z.observedAt.wholeMinutes = true := by
  have hfact : factOfPayload co (Outbox.factPayload z) later = .ok z.fact ↔
      z.observedAt.wholeMinutes = true := by
    rw [factOfPayload_ok_iff, observedAtOfPayload_factPayload hco]
    simp [factFieldsOfPayload_factPayload hco]
  rw [← hfact]
  cases hread : factOfPayload co (Outbox.factPayload z) later with
  | error e => simp [projectEvent, emitFact, pendingRow, hread, bind, Except.bind]
  | ok f =>
    simp only [projectEvent, emitFact, pendingRow, hread, bind, Except.bind, pure, Except.pure,
      Neo4j.createFact, Except.ok.injEq, GraphWrite.fact.injEq]
    constructor
    · rintro ⟨rfl, -, -⟩
      rfl
    · rintro rfl
      exact ⟨rfl, rfl, rfl⟩

/-- Mentions and entities are projected as they were emitted, entities and facts are read as they
were stored, and a fact is projected as it was emitted exactly when the UTC offset of its time
of observation is a whole number of minutes. -/
theorem emit_project_get_iff (hco : Documented co) {json : JsonText} {e : CanonicalEntity}
    (hjson : json.RoundTrips e.attributes) (eventId : UUID) (now later : Instant) (g : Graph)
    (s : NodeStore) :
    (∀ m, projectEvent co g later (emitMention eventId now m).eventType
      (emitMention eventId now m).payload = .ok (createMention g m)) ∧
    projectEvent co g later (emitEntity eventId now e).eventType
      (emitEntity eventId now e).payload = .ok (Neo4j.createEntity e) ∧
    getEntity co json e.entityId noFaults (mergeEntity json e s) =
      .returned (some e) (mergeEntity json e s) ∧
    (∀ f, getFact co f.factId noFaults (mergeFact f s) = .returned (some f) (mergeFact f s)) ∧
    ∀ z : ZonedFact, projectEvent co g later (emitFact eventId now z).eventType
      (emitFact eventId now z).payload = .ok (Neo4j.createFact g z.fact) ↔
        z.observedAt.wholeMinutes = true :=
  ⟨fun m => projectEvent_emitMention hco m eventId now later g,
    projectEvent_emitEntity hco e eventId now later g, getEntity_mergeEntity hco hjson s,
    fun f => getFact_mergeFact (readsUuids_of_documented hco) f s,
    fun z => projectEvent_emitFact_iff hco z eventId now later g⟩

def isoConversions : Conversions where
  uuid
    | .str text => canonicalUuid text.toList
    | _ => none
  float
    | .float x _ => some x
    | _ => none
  datetime
    | .str text => (readRfc3339 text.toList).map fun d => .aware d.instant
    | _ => none
  fromisoformat text := (IsoDatetime.fromisoformat text.toList).map fun d => .aware d.instant

theorem documented_iso : Documented isoConversions where
  uuid u := by simp [isoConversions, uuidValue, uuidString, canonicalUuid_strUuid]
  float _ _ := rfl
  fromisoformat d := by simp [isoConversions, fromisoformat_isoformat]
  datetime d := by
    by_cases hwhole : d.wholeMinutes = true
    · simp [isoConversions, isoValue, readRfc3339_isoformat, hwhole]
    · simp [isoConversions, isoValue, readRfc3339_isoformat, hwhole]

def taggedEntity : CanonicalEntity where
  entityId := 7
  entityType := "Service"
  canonicalName := "api"
  attributes := [("tier", .int 1)]

def tierJson : JsonText where
  dumps _ := "\x7b\x22tier\x22: 1\x7d"
  loads text :=
    if text = "\x7b\x22tier\x22: 1\x7d" then some (.dict [("tier", .int 1)])
    else if text = "\x7b\x7d" then some (.dict [])
    else none

theorem roundTrips_tier : tierJson.RoundTrips taggedEntity.attributes where
  loads_dumps := rfl
  loads_braces := rfl
  loads_empty := rfl

theorem half_minute_lt : 30 < 60 := by decide

def halfMinute : Clock := { Clock.zero with second := 30, second_lt := half_minute_lt }

theorem no_instant : (none : Option Datetime).map Datetime.instant = none := rfl

def observedIn (offset : Clock) : ZonedFact where
  fact := { Nodes.bareFact with
    observedAt := Datetime.instant ⟨.epoch, .zero, false, offset⟩ }
  validFrom := none
  validTo := none
  observedAt := ⟨.epoch, .zero, false, offset⟩
  validFrom_instant := no_instant
  validTo_instant := no_instant
  observedAt_instant := rfl

theorem emit_project_get_iff_tagged :
    getEntity isoConversions tierJson taggedEntity.entityId noFaults
      (mergeEntity tierJson taggedEntity (.withEntities .empty)) =
        .returned (some taggedEntity) (mergeEntity tierJson taggedEntity (.withEntities .empty)) ∧
    projectEvent isoConversions (.empty []) 0 (emitFact 1 0 (observedIn .zero)).eventType
      (emitFact 1 0 (observedIn .zero)).payload =
        .ok (Neo4j.createFact (.empty []) (observedIn .zero).fact) := by
  obtain ⟨-, -, hget, -, hfact⟩ := emit_project_get_iff documented_iso roundTrips_tier 1 0 0
    (.empty []) (.withEntities .empty)
  exact ⟨hget, (hfact (observedIn .zero)).mpr rfl⟩

/-- With an offset of half a minute the projection fails. -/
theorem not_emit_project_get : ¬ ∀ (z : ZonedFact) (eventId : UUID) (now later : Instant) (g : Graph),
    projectEvent isoConversions g later (emitFact eventId now z).eventType
      (emitFact eventId now z).payload = .ok (Neo4j.createFact g z.fact) := by
  intro h
  have hwhole := (projectEvent_emitFact_iff documented_iso (observedIn halfMinute) 1 0 0
    (.empty [])).mp (h (observedIn halfMinute) 1 0 0 (.empty []))
  exact absurd hwhole (by decide)

end GroundGraph.Neo4j.Nodes

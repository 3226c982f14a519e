import GroundGraph.Knowledge.Payload
import GroundGraph.Library.IsoDatetime
import GroundGraph.Outbox.Repository

/-! `OutboxEmitter`: `infrastructure/postgres/outbox_emitter.py`. A payload holds texts for
ids and datetimes, and the rest of the object as JSON.
-/

set_option autoImplicit false

namespace GroundGraph.Outbox

open GroundGraph.Knowledge IsoDatetime

/-- A fact with its datetimes as they are written: in a zone, not as instants. -/
structure ZonedFact where
  fact : KnowledgeFact
  validFrom : Option Datetime
  validTo : Option Datetime
  observedAt : Datetime
  validFrom_instant : validFrom.map Datetime.instant = fact.validFrom
  validTo_instant : validTo.map Datetime.instant = fact.validTo
  observedAt_instant : observedAt.instant = fact.observedAt

theorem finite_of_unitInterval {x : PyFloat} (h : unitInterval x = true) : x.nonFinite = false := by
  simp only [Knowledge.unitInterval, Bool.or_eq_true, decide_eq_true_eq] at h
  simp only [PyFloat.nonFinite, decide_eq_false_iff_not]
  omega

def uuidValue (u : UUID) : JsonValue := .str (uuidString u)

def isoValue (d : Datetime) : JsonValue := .str (String.ofList (isoformat d))

def isoOrNull : Option Datetime → JsonValue
  | none => .null
  | some d => isoValue d

def strOrNull : Option String → JsonValue
  | none => .null
  | some s => .str s

def mentionPayload (m : EntityMention) : JsonObject :=
  [("mention_id", uuidValue m.mentionId), ("chunk_id", uuidValue m.chunkId),
   ("surface_form", .str m.surfaceForm), ("candidate_type", .str m.candidateType),
   ("locator", strOrNull m.locator),
   ("extraction_confidence",
    .float m.extractionConfidence (finite_of_unitInterval m.confidence_unit))]

def entityPayload (e : CanonicalEntity) : JsonObject :=
  [("entity_id", uuidValue e.entityId), ("entity_type", .str e.entityType),
   ("canonical_name", .str e.canonicalName), ("aliases", .list (e.aliases.map .str)),
   ("attributes", .dict e.attributes)]

def factPayload (z : ZonedFact) : JsonObject :=
  [("fact_id", uuidValue z.fact.factId), ("subject_id", uuidValue z.fact.subjectId),
   ("predicate", .str z.fact.predicate), ("object_id", uuidValue z.fact.objectId),
   ("status", .str z.fact.status.text),
   ("confidence", .float z.fact.confidence (finite_of_unitInterval z.fact.confidence_unit)),
   ("evidence_ids", .list (z.fact.evidenceIds.map uuidValue)),
   ("valid_from", isoOrNull z.validFrom), ("valid_to", isoOrNull z.validTo),
   ("observed_at", isoValue z.observedAt),
   ("extraction_method", .str z.fact.extractionMethod.text),
   ("ontology_version", .str z.fact.ontologyVersion), ("tenant_id", .str z.fact.tenantId),
   ("allowed_principals", .list (z.fact.allowedPrincipals.map .str))]

/-- The row that is added, with the defaults of the other columns; `eventId` is the `uuid4()`
and `now` the server's time. -/
def pendingRow (eventId : UUID) (now : Instant) (aggregateType : String) (aggregateId : UUID)
    (eventType : OutboxEventType) (payload : JsonObject) : OutboxRow JsonObject where
  eventId := eventId
  aggregateType := aggregateType
  aggregateId := aggregateId
  eventType := eventType
  payload := payload
  status := .pending
  attempts := 0
  lastError := none
  availableAt := now
  createdAt := now
  claimedBy := none
  claimToken := none
  claimedAt := none
  leaseExpiresAt := none
  completedAt := none

def emitMention (eventId : UUID) (now : Instant) (m : EntityMention) : OutboxRow JsonObject :=
  pendingRow eventId now "mention" m.mentionId .entityMentioned (mentionPayload m)

def emitEntity (eventId : UUID) (now : Instant) (e : CanonicalEntity) : OutboxRow JsonObject :=
  pendingRow eventId now "entity" e.entityId .entityResolved (entityPayload e)

def emitFact (eventId : UUID) (now : Instant) (z : ZonedFact) : OutboxRow JsonObject :=
  pendingRow eventId now "fact" z.fact.factId .factCandidate (factPayload z)

/-- What pydantic and `datetime.fromisoformat` document about the values that are written:
pydantic reads offsets of hours and minutes only. -/
structure Documented (co : Conversions) : Prop where
  uuid : ∀ u, co.uuid (uuidValue u) = some u
  float : ∀ x finite, co.float (.float x finite) = some x
  fromisoformat : ∀ d, co.fromisoformat (String.ofList (isoformat d)) = some (.aware d.instant)
  datetime : ∀ d, co.datetime (isoValue d) =
    if d.wholeMinutes then some (.aware d.instant) else none

section
variable {co : Conversions}

theorem mapM_asStr (texts : List String) : (texts.map JsonValue.str).mapM asStr = some texts := by
  induction texts with
  | nil => rfl
  | cons text texts ih => simp [List.mapM_cons, asStr, ih]

theorem asStrList_list (texts : List String) : asStrList (.list (texts.map .str)) = some texts :=
  mapM_asStr texts

theorem asUuidList_list (hco : Documented co) (ids : List UUID) :
    asUuidList co (.list (ids.map uuidValue)) = some ids := by
  unfold asUuidList
  simp only
  induction ids with
  | nil => rfl
  | cons id ids ih => simp [List.mapM_cons, hco.uuid, ih]

theorem asUnitFloat_float (hco : Documented co) {x : PyFloat} (h : unitInterval x = true)
    (finite : x.nonFinite = false) : asUnitFloat co (.float x finite) = some ⟨x, h⟩ := by
  simp [asUnitFloat, hco.float, h]

theorem asOptionalStr_strOrNull (s : Option String) : asOptionalStr (strOrNull s) = some s := by
  cases s <;> rfl

theorem mentionOfPayload_mentionPayload (hco : Documented co) (m : EntityMention) :
    mentionOfPayload co (mentionPayload m) = .ok m := by
  simp [mentionOfPayload, mentionPayload, required, lookup, validated, hco.uuid, asStr,
    asUnitFloat_float hco m.confidence_unit, asOptionalStr_strOrNull, bind, Except.bind, pure,
    Except.pure]

theorem entityOfPayload_entityPayload (hco : Documented co) (e : CanonicalEntity) :
    entityOfPayload co (entityPayload e) = .ok e := by
  simp [entityOfPayload, entityPayload, required, lookup, validated, hco.uuid, asStr, asDict,
    asStrList_list, bind, Except.bind, pure, Except.pure]

/-- A bound goes through `fromisoformat`, whatever its offset. -/
theorem boundOfPayload_isoOrNull (hco : Documented co) (d : Option Datetime) :
    boundOfPayload co (some (isoOrNull d)) =
      .ok (d.map fun d => .inr (.aware d.instant)) := by
  cases d with
  | none => rfl
  | some d => simp [boundOfPayload, isoOrNull, isoValue, hco.fromisoformat]

theorem validateBound_map (d : Option Datetime) :
    validateBound co (d.map fun d => .inr (.aware d.instant)) = some (d.map Datetime.instant) := by
  cases d <;> rfl

theorem factFieldsOfPayload_factPayload (hco : Documented co) (z : ZonedFact) :
    factFieldsOfPayload co (factPayload z) = .ok z.fact.toFactFields := by
  have htemporal := temporalConsistent_iff.mpr z.fact.temporal
  have hverified := z.fact.verified_evidence
  simp [factFieldsOfPayload, factPayload, required, lookup, validated, hco.uuid, asStr,
    boundOfPayload_isoOrNull hco, validateBound_map, asUuidList_list hco, asStrList_list,
    asUnitFloat_float hco z.fact.confidence_unit, FactStatus.ofText?_text,
    ExtractionMethod.ofText?_text, z.validFrom_instant, z.validTo_instant, htemporal, bind,
    Except.bind, pure, Except.pure]
  rw [dif_pos hverified]

theorem observedAtOfPayload_factPayload (hco : Documented co) (z : ZonedFact) (now : Instant) :
    observedAtOfPayload co (factPayload z) now =
      if z.observedAt.wholeMinutes then some z.fact.observedAt else none := by
  have htext : String.ofList (isoformat z.observedAt) ≠ "" := by
    intro h
    exact isoformat_ne_nil z.observedAt (by simpa using congrArg String.toList h)
  have hlookup : lookup (factPayload z) "observed_at" = some (isoValue z.observedAt) := by
    simp [lookup, factPayload]
  have htruthy : truthy (isoValue z.observedAt) = true := by simp [truthy, isoValue, htext]
  rw [observedAtOfPayload, hlookup]
  simp only [htruthy, if_true, hco.datetime]
  by_cases hwhole : z.observedAt.wholeMinutes = true
  · simp [hwhole, PyDatetime.aware?, z.observedAt_instant]
  · simp [hwhole]

end

end GroundGraph.Outbox

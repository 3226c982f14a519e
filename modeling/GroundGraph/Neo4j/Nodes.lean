import GroundGraph.Knowledge.Payload
import GroundGraph.Library.Transaction
import GroundGraph.Neo4j.Repository

/-! The nodes as Neo4j stores them: properties that nothing has validated. A fact is
validated when it is read, by the model that `_dict_to_fact` builds, and a write is a query
in a transaction that may still be rolled back.
-/

set_option autoImplicit false

namespace GroundGraph.Neo4j.Nodes

open GroundGraph.Knowledge

structure FactNode where
  factId : String
  subjectId : String
  predicate : String
  objectId : String
  status : String
  confidence : PyFloat
  evidenceIds : List String
  validFrom : Option PyDatetime
  validTo : Option PyDatetime
  observedAt : PyDatetime
  extractionMethod : String
  ontologyVersion : String
  allowedPrincipals : List String
  tenantId : String

/-- The properties of an `Entity` node; the attributes are one JSON text. -/
structure EntityNode where
  entityId : String
  entityType : String
  canonicalName : String
  aliases : List String
  attributes : String

structure NodeStore where
  facts : KeyedTable FactNode.factId
  entities : KeyedTable EntityNode.entityId
  subjectOf : Edges
  object : Edges
  supersededBy : Edges

def NodeStore.withEntities (entities : KeyedTable EntityNode.entityId) : NodeStore :=
  ⟨.empty, entities, [], [], []⟩

def NodeStore.hasEntity (s : NodeStore) (id : UUID) : Bool :=
  (s.entities.get? (uuidString id)).isSome

def NodeStore.hasFact (s : NodeStore) (id : UUID) : Bool := (s.facts.get? (uuidString id)).isSome

/-- `json.dumps` and `json.loads`. -/
structure JsonText where
  dumps : JsonObject → String
  loads : String → Option JsonValue

def factNode (f : KnowledgeFact) : FactNode where
  factId := uuidString f.factId
  subjectId := uuidString f.subjectId
  predicate := f.predicate
  objectId := uuidString f.objectId
  status := f.status.text
  confidence := f.confidence
  evidenceIds := f.evidenceIds.map uuidString
  validFrom := f.validFrom.map .aware
  validTo := f.validTo.map .aware
  observedAt := .aware f.observedAt
  extractionMethod := f.extractionMethod.text
  ontologyVersion := f.ontologyVersion
  allowedPrincipals := f.allowedPrincipals
  tenantId := f.tenantId

def entityNode (json : JsonText) (e : CanonicalEntity) : EntityNode where
  entityId := uuidString e.entityId
  entityType := e.entityType
  canonicalName := e.canonicalName
  aliases := e.aliases
  attributes := if e.attributes.isEmpty then "\x7b\x7d" else json.dumps e.attributes

def readUuid (co : Conversions) (text : String) : Option UUID := co.uuid (.str text)

theorem temporal_of_consistent {validFrom validTo : Option Instant}
    (h : temporalConsistent validFrom validTo = true) :
    ∀ f t, validFrom = some f → validTo = some t → f < t :=
  temporalConsistent_iff.mp h

/-- `_dict_to_fact`; `none` is the `ValidationError` of the model. -/
def dictToFact (co : Conversions) (n : FactNode) : Option KnowledgeFact := do
  let factId ← readUuid co n.factId
  let subjectId ← readUuid co n.subjectId
  let objectId ← readUuid co n.objectId
  let status ← FactStatus.ofText? n.status
  let evidenceIds ← n.evidenceIds.mapM (readUuid co)
  let validFrom ← awareOrAbsent n.validFrom
  let validTo ← awareOrAbsent n.validTo
  let observedAt ← n.observedAt.aware?
  let extractionMethod ← ExtractionMethod.ofText? n.extractionMethod
  if hunit : unitInterval n.confidence = true then
    if htemporal : temporalConsistent validFrom validTo = true then
      if hverified : status = .verified → evidenceIds ≠ [] then
        some
          { factId := factId
            subjectId := subjectId
            predicate := n.predicate
            objectId := objectId
            status := status
            confidence := n.confidence
            evidenceIds := evidenceIds
            validFrom := validFrom
            validTo := validTo
            extractionMethod := extractionMethod
            ontologyVersion := n.ontologyVersion
            tenantId := n.tenantId
            allowedPrincipals := n.allowedPrincipals
            confidence_unit := hunit
            temporal := temporal_of_consistent htemporal
            verified_evidence := hverified
            observedAt := observedAt }
      else none
    else none
  else none

/-- `_dict_to_entity`; `none` is an exception of the model or of `json.loads`. -/
def dictToEntity (co : Conversions) (json : JsonText) (n : EntityNode) : Option CanonicalEntity := do
  let entityId ← readUuid co n.entityId
  let attributes ← if n.attributes = "" then some [] else (json.loads n.attributes).bind asDict
  pure
    { entityId := entityId
      entityType := n.entityType
      canonicalName := n.canonicalName
      aliases := n.aliases
      attributes := attributes }

/-- `unacknowledged` is a commit that took effect although the driver raised. -/
inductive GraphError where
  | driver
  | unacknowledged
  | inactive
  | closed
  | missingNode
  | validation
  | notFound (factId : UUID)
  deriving DecidableEq, Repr

inductive GraphQuery where
  | mergeFact | mergeEntity | setStatus | readFact | readEntity | readFacts | commit | rollback
  deriving DecidableEq, Repr

abbrev GraphTransaction (α : Type) := Transaction GraphQuery GraphError NodeStore α

/-- `_FACT_MERGE`. -/
def mergeFact (f : KnowledgeFact) (s : NodeStore) : NodeStore :=
  { s with
    facts := s.facts.upsert (factNode f)
    subjectOf := if s.hasEntity f.subjectId then mergeEdge s.subjectOf (f.subjectId, f.factId)
      else s.subjectOf
    object := if s.hasEntity f.subjectId && s.hasEntity f.objectId then
      mergeEdge s.object (f.factId, f.objectId) else s.object }

def FactNode.withStatus (status : String) (n : FactNode) : FactNode := { n with status := status }

theorem FactNode.factId_withStatus (status : String) (n : FactNode) :
    (n.withStatus status).factId = n.factId := rfl

/-- `_FACT_UPDATE_STATUS`: without the fact there is no row to work on, and `MERGE` fails when
the superseding fact is missing. -/
def setStatus (factId : UUID) (status : String) (supersededBy : Option UUID) (s : NodeStore) :
    Except GraphError NodeStore :=
  if s.hasFact factId then
    let s := { s with
      facts := s.facts.modifyAt (uuidString factId) (FactNode.withStatus status)
        (FactNode.factId_withStatus status) }
    match supersededBy with
    | none => .ok s
    | some new =>
      if s.hasFact new then
        .ok { s with supersededBy := mergeEdge s.supersededBy (factId, new) }
      else .error .missingNode
  else .ok s

def createFact (f : KnowledgeFact) : GraphTransaction Unit := .write .mergeFact (mergeFact f)

def createEntity (json : JsonText) (e : CanonicalEntity) : GraphTransaction Unit :=
  .write .mergeEntity fun s => { s with entities := s.entities.upsert (entityNode json e) }

def getFact (co : Conversions) (factId : UUID) : GraphTransaction (Option KnowledgeFact) :=
  .query .readFact fun s =>
    match s.facts.get? (uuidString factId) with
    | none => .ok none
    | some n =>
      match dictToFact co n with
      | some f => .ok (some f)
      | none => .error .validation

def getEntity (co : Conversions) (json : JsonText) (entityId : UUID) :
    GraphTransaction (Option CanonicalEntity) :=
  .query .readEntity fun s =>
    match s.entities.get? (uuidString entityId) with
    | none => .ok none
    | some n =>
      match dictToEntity co json n with
      | some e => .ok (some e)
      | none => .error .validation

/-- `update_fact_status`: the write first, and the validation by reading back. -/
def updateFactStatus (co : Conversions) (factId : UUID) (status : String)
    (supersededBy : Option UUID) : GraphTransaction KnowledgeFact := do
  .perform .setStatus fun s => (setStatus factId status supersededBy s).map fun t => ((), t)
  let fact ← getFact co factId
  match fact with
  | none => .raise (.notFound factId)
  | some f => pure f

/-- One match of `(s:Entity)-[:SUBJECT_OF]->(f:Fact)-[:OBJECT]->(o:Entity)`. -/
structure NodeRow where
  subject : UUID
  node : FactNode
  object : UUID

def NodeStore.rows (s : NodeStore) : List NodeRow :=
  s.subjectOf.flatMap fun e => s.object.filterMap fun o =>
    if o.1 = e.2 ∧ s.hasEntity e.1 = true ∧ s.hasEntity o.2 = true then
      (s.facts.get? (uuidString e.2)).map fun n => ⟨e.1, n, o.2⟩
    else none

/-- The `WHERE` clause of `find_facts`, on the properties of the node. -/
def admitsNode (q : FactFilter) (row : NodeRow) : Bool :=
  idCondition q.subjectId row.subject && textCondition q.predicate row.node.predicate &&
    idCondition q.objectId row.object && textCondition q.status row.node.status &&
    tenantCondition q.tenantId row.node.tenantId &&
    aclCondition q.allowedPrincipals row.node.allowedPrincipals

structure NodeOrder where
  arrange : List NodeRow → List NodeRow
  perm : ∀ rows, (arrange rows).Perm rows

def findFacts (co : Conversions) (q : FactFilter) (order : NodeOrder) :
    GraphTransaction (List KnowledgeFact) :=
  .query .readFacts fun s =>
    match ((order.arrange (s.rows.filter (admitsNode q))).take findFactsLimit).mapM
        fun row => dictToFact co row.node with
    | some fs => .ok fs
    | none => .error .validation

/-- Pydantic reads the text of a UUID, as `str` writes it. -/
def ReadsUuids (co : Conversions) : Prop := ∀ u, co.uuid (.str (uuidString u)) = some u

theorem readsUuids_plain : ReadsUuids plainConversions := by
  intro u
  simp [plainConversions, uuidString, canonicalUuid_strUuid]

variable {co : Conversions}

theorem mapM_readUuid (hco : ReadsUuids co) (ids : List UUID) :
    (ids.map uuidString).mapM (readUuid co) = some ids := by
  induction ids with
  | nil => rfl
  | cons id ids ih =>
    have hid : readUuid co (uuidString id) = some id := hco id
    simp [List.mapM_cons, hid, ih]

@[simp] theorem awareOrAbsent_map (t : Option Instant) :
    awareOrAbsent (t.map .aware) = some t := by
  cases t <;> rfl

theorem dictToFact_factNode (hco : ReadsUuids co) (f : KnowledgeFact) :
    dictToFact co (factNode f) = some f := by
  have hid : ∀ u, readUuid co (uuidString u) = some u := hco
  have htemporal := temporalConsistent_iff.mpr f.temporal
  simp [dictToFact, factNode, hid, FactStatus.ofText?_text, mapM_readUuid hco,
    ExtractionMethod.ofText?_text, PyDatetime.aware?, f.confidence_unit, htemporal]
  exact f.verified_evidence

theorem dictToFact_withStatus {n : FactNode} {f : KnowledgeFact} (h : dictToFact co n = some f)
    (status : String) :
    dictToFact co (n.withStatus status) = (FactStatus.ofText? status).bind f.withStatus? := by
  obtain ⟨factId, hfact, h⟩ := Option.bind_eq_some_iff.mp h
  obtain ⟨subjectId, hsubject, h⟩ := Option.bind_eq_some_iff.mp h
  obtain ⟨objectId, hobject, h⟩ := Option.bind_eq_some_iff.mp h
  obtain ⟨old, hold, h⟩ := Option.bind_eq_some_iff.mp h
  obtain ⟨evidenceIds, hevidence, h⟩ := Option.bind_eq_some_iff.mp h
  obtain ⟨validFrom, hfrom, h⟩ := Option.bind_eq_some_iff.mp h
  obtain ⟨validTo, hto, h⟩ := Option.bind_eq_some_iff.mp h
  obtain ⟨observedAt, hobserved, h⟩ := Option.bind_eq_some_iff.mp h
  obtain ⟨method, hmethod, h⟩ := Option.bind_eq_some_iff.mp h
  split at h
  · rename_i hunit
    split at h
    · rename_i htemporal
      split at h
      · obtain rfl := Option.some.inj h
        simp only [dictToFact, FactNode.withStatus, hfact, hsubject, hobject, hevidence, hfrom, hto,
          hobserved, hmethod, hunit, htemporal, dif_pos, bind, Option.bind_some]
        rfl
      · cases h
    · cases h
  · cases h

end GroundGraph.Neo4j.Nodes

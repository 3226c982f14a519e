import GroundGraph.Identifiers
import GroundGraph.Json

/-! Mentions, entities and facts: `domain/knowledge.py`. The validators are fields. -/

set_option autoImplicit false

namespace GroundGraph.Knowledge

/-- `0.0 <= x <= 1.0` on the bits of a double: the order of the non-negative
doubles is the order of their bits, and `-0.0` is equal to zero. -/
def unitInterval (x : PyFloat) : Bool :=
  decide (x.toNat ≤ 0x3FF0000000000000) || decide (x.toNat = 0x8000000000000000)

/-- `0.5`. -/
def half : PyFloat := 0x3FE0000000000000

theorem half_unit : unitInterval half = true := by decide

inductive FactStatus where
  | candidate | verified | rejected | superseded
  deriving DecidableEq, Repr

def FactStatus.text : FactStatus → String
  | .candidate => "candidate"
  | .verified => "verified"
  | .rejected => "rejected"
  | .superseded => "superseded"

def FactStatus.ofText? : String → Option FactStatus
  | "candidate" => some .candidate
  | "verified" => some .verified
  | "rejected" => some .rejected
  | "superseded" => some .superseded
  | _ => none

theorem FactStatus.ofText?_text (a : FactStatus) : ofText? a.text = some a := by
  cases a <;> rfl

theorem FactStatus.text_of_ofText? {text : String} {a : FactStatus} (h : ofText? text = some a) :
    text = a.text := by
  unfold ofText? at h
  split at h <;> cases h <;> rfl

theorem verified_by_one : FactStatus.verified = .verified → ([9] : List UUID) ≠ [] := by simp

theorem candidate_unbacked (ids : List UUID) : FactStatus.candidate = .verified → ids ≠ [] := nofun

inductive ExtractionMethod where
  | structured | rule | llm | human
  deriving DecidableEq, Repr

def ExtractionMethod.text : ExtractionMethod → String
  | .structured => "structured"
  | .rule => "rule"
  | .llm => "llm"
  | .human => "human"

def ExtractionMethod.ofText? : String → Option ExtractionMethod
  | "structured" => some .structured
  | "rule" => some .rule
  | "llm" => some .llm
  | "human" => some .human
  | _ => none

theorem ExtractionMethod.ofText?_text (m : ExtractionMethod) : ofText? m.text = some m := by
  cases m <;> rfl

structure EntityMention where
  mentionId : UUID
  chunkId : UUID
  surfaceForm : String
  candidateType : String
  locator : Option String := none
  extractionConfidence : PyFloat
  confidence_unit : unitInterval extractionConfidence = true

structure CanonicalEntity where
  entityId : UUID
  entityType : String
  canonicalName : String
  aliases : List String := []
  attributes : JsonObject := []

/-- A fact but for the time it was observed. -/
structure FactFields where
  factId : UUID
  subjectId : UUID
  predicate : String
  objectId : UUID
  status : FactStatus
  confidence : PyFloat
  evidenceIds : List UUID := []
  validFrom : Option Instant := none
  validTo : Option Instant := none
  extractionMethod : ExtractionMethod
  ontologyVersion : String
  tenantId : String
  allowedPrincipals : List String := []
  confidence_unit : unitInterval confidence = true
  temporal : ∀ f t, validFrom = some f → validTo = some t → f < t
  verified_evidence : status = .verified → evidenceIds ≠ []

structure KnowledgeFact extends FactFields where
  observedAt : Instant

/-- A parsed `datetime`, with or without a time zone. -/
inductive PyDatetime where
  | naive (wall : Int)
  | aware (t : Instant)
  deriving DecidableEq, Repr

def PyDatetime.aware? : PyDatetime → Option Instant
  | .naive _ => none
  | .aware t => some t

/-- `valid_from` and `valid_to` as the validator lets them pass. -/
def awareOrAbsent : Option PyDatetime → Option (Option Instant)
  | none => some none
  | some d => d.aware?.map some

def temporalConsistent (validFrom validTo : Option Instant) : Bool :=
  match validFrom, validTo with
  | some f, some t => decide (f < t)
  | _, _ => true

theorem temporalConsistent_iff {validFrom validTo : Option Instant} :
    temporalConsistent validFrom validTo = true ↔
      ∀ f t, validFrom = some f → validTo = some t → f < t := by
  cases validFrom <;> cases validTo <;> simp [temporalConsistent]

/-- A node with another status; `none` when the model refuses it. -/
def KnowledgeFact.withStatus? (f : KnowledgeFact) (status : FactStatus) : Option KnowledgeFact :=
  if h : status = .verified → f.evidenceIds ≠ [] then
    some { f with status := status, verified_evidence := h }
  else none

theorem KnowledgeFact.withStatus?_some {f f' : KnowledgeFact} {status : FactStatus}
    (h : f.withStatus? status = some f') : f'.factId = f.factId ∧ f'.status = status := by
  unfold withStatus? at h
  split at h
  · obtain rfl := Option.some.inj h
    exact ⟨rfl, rfl⟩
  · cases h

theorem KnowledgeFact.withStatus?_evidenceIds {f f' : KnowledgeFact} {status : FactStatus}
    (h : f.withStatus? status = some f') : f'.evidenceIds = f.evidenceIds := by
  unfold withStatus? at h
  split at h
  · obtain rfl := Option.some.inj h
    rfl
  · cases h

/-- Setting the status a node already has leaves the node alone. -/
theorem KnowledgeFact.withStatus?_self (f : KnowledgeFact) : f.withStatus? f.status = some f := by
  unfold withStatus?
  rw [dif_pos f.verified_evidence]

theorem KnowledgeFact.withStatus?_eq_self_iff {f f' : KnowledgeFact} {status : FactStatus}
    (h : f.withStatus? status = some f') : f' = f ↔ status = f.status := by
  constructor
  · rintro rfl
    exact (withStatus?_some h).2.symm
  · rintro rfl
    rw [withStatus?_self] at h
    exact (Option.some.inj h).symm

end GroundGraph.Knowledge

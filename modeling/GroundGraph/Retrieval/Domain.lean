import GroundGraph.Json
import GroundGraph.Identifiers

/-! Evidence, claims, citations and responses: `domain/retrieval.py`. A validator
of a pydantic model is a field of its structure, so a value that exists has
passed it; constructing one from loose parts may fail.
-/

set_option autoImplicit false

namespace GroundGraph.Retrieval

inductive RetrievalMethod where
  | vector | keyword | graph | structured
  deriving DecidableEq, Repr

structure Evidence where
  evidenceId : UUID
  sourceId : UUID
  documentId : Option UUID := none
  chunkId : Option UUID := none
  versionId : Option UUID := none
  structuredRecordId : Option (List Char) := none
  content : List Char
  retrievalMethod : RetrievalMethod
  vectorScore : Option PyFloat := none
  rerankScore : Option PyFloat := none
  graphPathFactIds : List UUID := []
  validFrom : Option Instant := none
  validTo : Option Instant := none
  allowedPrincipals : List String := []
  temporalBounds : ∀ f t, validFrom = some f → validTo = some t → f < t

inductive SupportStatus where
  | supported | partiallySupported | unsupported
  deriving DecidableEq, Repr

/-- The literal with this text, if there is one. -/
def SupportStatus.ofText? (text : List Char) : Option SupportStatus :=
  if text = "supported".toList then some .supported
  else if text = "partially_supported".toList then some .partiallySupported
  else if text = "unsupported".toList then some .unsupported
  else none

structure Citation where
  citationId : UUID
  claimId : UUID
  evidenceId : UUID
  locator : List Char
  allowedPrincipals : List String

structure AnswerClaim where
  claimId : UUID
  text : List Char
  factual : Bool
  evidenceIds : List UUID := []
  supportStatus : SupportStatus
  /-- Unsupported exactly when no evidence is listed. -/
  evidenceForSupportStatus : supportStatus = .unsupported ↔ evidenceIds = []

/-- `AnswerClaim(…)`; `none` is the validator's `ValueError`. -/
def AnswerClaim.make? (claimId : UUID) (text : List Char) (factual : Bool)
    (evidenceIds : List UUID) (supportStatus : SupportStatus) : Option AnswerClaim :=
  if h : supportStatus = .unsupported ↔ evidenceIds = [] then
    some ⟨claimId, text, factual, evidenceIds, supportStatus, h⟩
  else none

inductive ResponseStatus where
  | answered | clarificationRequired | insufficientEvidence | failed
  deriving DecidableEq, Repr

inductive ConfidenceBand where
  | high | medium | low
  deriving DecidableEq, Repr

/-- `_validate_answer_status_consistency`. -/
def answerConsistent (status : ResponseStatus) (answer : Option (List Char)) : Bool :=
  if status = .answered then decide (answer ≠ none ∧ answer ≠ some []) else decide (answer = none)

structure QueryResponse where
  executionRunId : UUID
  answer : Option (List Char) := none
  status : ResponseStatus
  claims : List AnswerClaim := []
  citations : List Citation := []
  confidenceBand : ConfidenceBand
  warnings : List (List Char) := []
  answerStatusConsistency : answerConsistent status answer = true

def QueryResponse.make? (executionRunId : UUID) (answer : Option (List Char))
    (status : ResponseStatus) (claims : List AnswerClaim) (citations : List Citation)
    (confidenceBand : ConfidenceBand) (warnings : List (List Char)) : Option QueryResponse :=
  if h : answerConsistent status answer = true then
    some ⟨executionRunId, answer, status, claims, citations, confidenceBand, warnings, h⟩
  else none

theorem AnswerClaim.make?_some_iff {claimId : UUID} {text : List Char} {factual : Bool}
    {evidenceIds : List UUID} {supportStatus : SupportStatus} {c : AnswerClaim} :
    AnswerClaim.make? claimId text factual evidenceIds supportStatus = some c ↔
      c.claimId = claimId ∧ c.text = text ∧ c.factual = factual ∧ c.evidenceIds = evidenceIds ∧
        c.supportStatus = supportStatus := by
  obtain ⟨claimId', text', factual', evidenceIds', supportStatus', hc⟩ := c
  unfold make?
  constructor
  · intro h
    split at h
    · cases h
      exact ⟨rfl, rfl, rfl, rfl, rfl⟩
    · cases h
  · rintro ⟨rfl, rfl, rfl, rfl, rfl⟩
    rw [dif_pos hc]

theorem AnswerClaim.make?_isSome_iff (claimId : UUID) (text : List Char) (factual : Bool)
    {evidenceIds : List UUID} {supportStatus : SupportStatus} :
    (AnswerClaim.make? claimId text factual evidenceIds supportStatus).isSome ↔
      (supportStatus = .unsupported ↔ evidenceIds = []) := by
  unfold make?
  split <;> simp_all

theorem QueryResponse.make?_isSome_iff (executionRunId : UUID) {status : ResponseStatus}
    {answer : Option (List Char)} (claims : List AnswerClaim) (citations : List Citation)
    (confidenceBand : ConfidenceBand) (warnings : List (List Char)) :
    (QueryResponse.make? executionRunId answer status claims citations confidenceBand
      warnings).isSome ↔ answerConsistent status answer = true := by
  unfold make?
  split <;> simp_all

theorem QueryResponse.make?_some {executionRunId : UUID} {answer : Option (List Char)}
    {status : ResponseStatus} {claims : List AnswerClaim} {citations : List Citation}
    {confidenceBand : ConfidenceBand} {warnings : List (List Char)} {r : QueryResponse}
    (h : QueryResponse.make? executionRunId answer status claims citations confidenceBand warnings =
      some r) :
    r.answer = answer ∧ r.status = status ∧ r.claims = claims ∧ r.citations = citations := by
  unfold make? at h
  split at h
  · cases h
    exact ⟨rfl, rfl, rfl, rfl⟩
  · cases h

end GroundGraph.Retrieval

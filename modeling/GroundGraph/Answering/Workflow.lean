import GroundGraph.Answering.Citations

/-! What happens to a response after generation: the deterministic claim validator
(`application/answering/claim_validator.py`) and the validate and decide nodes of
the query workflow (`workflows/query_graph.py`).
-/

set_option autoImplicit false

namespace GroundGraph.Answering

open GroundGraph.Retrieval

/-- `eid in evidence_map`. -/
def retrieved (evidence : List Evidence) (id : UUID) : Bool :=
  evidence.any fun ev => decide (ev.evidenceId = id)

/-- The claim that keeps only the retrieved ids, with the status that fits them.
Listing nothing and listing nothing retrieved end in the same claim. -/
def validateClaim (evidence : List Evidence) (claim : AnswerClaim) : AnswerClaim :=
  if claim.supportStatus = .unsupported then claim
  else
    let presentIds := claim.evidenceIds.filter (retrieved evidence)
    if h : presentIds = [] then
      ⟨claim.claimId, claim.text, claim.factual, [], .unsupported, by simp⟩
    else if presentIds.length < claim.evidenceIds.length then
      ⟨claim.claimId, claim.text, claim.factual, presentIds, .partiallySupported, by simp [h]⟩
    else claim

/-- The citations of the response's claims, claim by claim, that point into the
evidence. -/
def validateCitations (evidence : List Evidence) (r : QueryResponse) : List Citation :=
  r.claims.flatMap fun claim => r.citations.filter fun cit =>
    decide (cit.claimId = claim.claimId) && retrieved evidence cit.evidenceId

def isUnsupported (c : AnswerClaim) : Bool := decide (c.supportStatus = .unsupported)

/-- `DeterministicClaimValidator.validate`. Answer and status are passed on. -/
def validate (r : QueryResponse) (evidence : List Evidence) : QueryResponse :=
  let claims := r.claims.map (validateClaim evidence)
  let unsupported := claims.countP isUnsupported
  { executionRunId := r.executionRunId
    answer := r.answer
    status := r.status
    claims := claims
    citations := validateCitations evidence r
    confidenceBand := r.confidenceBand
    warnings := if unsupported > 0 then
        r.warnings ++ [(Nat.repr unsupported).toList ++ " unsupported claim(s) detected".toList]
      else r.warnings
    answerStatusConsistency := r.answerStatusConsistency }

/-- `QueryWorkflow._validate_node`, on a response that is there. -/
def validateNode (r : QueryResponse) (evidence : List Evidence) : QueryResponse :=
  let validated := validate r evidence
  let unsupportedFactual := validated.claims.filter fun c => c.factual && isUnsupported c
  if unsupportedFactual ≠ [] then
    { executionRunId := validated.executionRunId
      answer := none
      status := .insufficientEvidence
      claims := []
      citations := []
      confidenceBand := .low
      warnings := validated.warnings ++ (unsupportedFactual.take 3).map fun c =>
        "Unsupported factual claim: ".toList ++ c.text.take 50
      answerStatusConsistency := rfl }
  else validated

inductive Route where
  | retry | fail | done
  deriving DecidableEq, Repr

/-- `QueryWorkflow._decide_route`; `error` says that the execute node raised. -/
def decideRoute (error : Bool) (response : Option QueryResponse) (retries maxRetries : Nat) :
    Route :=
  if error then (if retries < maxRetries then .retry else .fail)
  else
    match response with
    | none => .fail
    | some r =>
      match r.status with
      | .failed => .fail
      | .clarificationRequired => .done
      | .insufficientEvidence => if retries < maxRetries then .retry else .fail
      | .answered => .done

/-- Generation followed by validation; `none` when generation raises. -/
def answerAndValidate (uuid4 : UuidSource) (output : ResponseOutput) (evidence : List Evidence) :
    Option QueryResponse :=
  (buildResponse uuid4 output evidence).map fun r => validateNode r evidence

end GroundGraph.Answering

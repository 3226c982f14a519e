import GroundGraph.Library.PyText
import GroundGraph.Retrieval.Domain

/-! Building a response from a structured LLM output:
`infrastructure/openai/answer_generator.py`.
-/

set_option autoImplicit false

namespace GroundGraph.Answering

open GroundGraph.Retrieval

structure ClaimOutput where
  text : List Char
  factual : Bool
  supportStatus : List Char
  evidenceIds : List (List Char)

structure ResponseOutput where
  answer : List Char
  claims : List ClaimOutput

/-- `evidence_map.get(cid)`: of evidences with one id, the last. -/
def evidenceMap (evidence : List Evidence) (cid : List Char) : Option Evidence :=
  evidence.reverse.find? fun ev => decide (strUuid ev.evidenceId = cid)

/-- `mapped_ids`: what is listed and was retrieved, in the listed order. -/
def mappedIds (evidence : List Evidence) (output : ClaimOutput) : List UUID :=
  output.evidenceIds.filterMap fun cid => (evidenceMap evidence cid).map Evidence.evidenceId

/-- `raw_status` up to the check against the real evidence. -/
def rawStatus (output : ClaimOutput) : SupportStatus :=
  let raw := if output.supportStatus = [] then "unsupported".toList else output.supportStatus
  (SupportStatus.ofText? raw).getD .unsupported

def groundedStatus (evidence : List Evidence) (output : ClaimOutput) : SupportStatus :=
  if rawStatus output ≠ .unsupported ∧ mappedIds evidence output = [] then .unsupported
  else rawStatus output

def chunkLocator (ev : Evidence) : List Char :=
  match ev.chunkId, ev.versionId with
  | some chunkId, some versionId => strUuid chunkId ++ '@' :: strUuid versionId
  | _, _ =>
    match ev.structuredRecordId with
    | some (c :: cs) => c :: cs
    | _ => strUuid ev.evidenceId

/-- Where the loop over `output.claims` stands. `draws` counts `uuid4()` calls. -/
structure BuildState where
  claims : List AnswerClaim
  citations : List Citation
  claimId : UUID
  draws : Nat

/-- The citations of one claim, each with its own `uuid4()`. -/
def buildCitations (evidence : List Evidence) (uuid4 : UuidSource) (claimId : UUID) :
    Nat → List UUID → List Citation
  | _, [] => []
  | draws, evidenceId :: ids =>
    match evidenceMap evidence (strUuid evidenceId) with
    | some ev =>
      ⟨uuid4 draws, claimId, evidenceId, chunkLocator ev, ev.allowedPrincipals⟩ ::
        buildCitations evidence uuid4 claimId (draws + 1) ids
    | none => buildCitations evidence uuid4 claimId draws ids

/-- One pass of the loop. A claim that does not validate is skipped, and takes a
claim id with it. -/
def buildClaim (evidence : List Evidence) (uuid4 : UuidSource) (s : BuildState)
    (output : ClaimOutput) : BuildState :=
  let ids := mappedIds evidence output
  match AnswerClaim.make? s.claimId output.text output.factual ids
    (groundedStatus evidence output) with
  | none => { s with claimId := uuid4 s.draws, draws := s.draws + 1 }
  | some claim =>
    let citations := buildCitations evidence uuid4 s.claimId s.draws ids
    { claims := s.claims ++ [claim]
      citations := s.citations ++ citations
      claimId := uuid4 (s.draws + citations.length)
      draws := s.draws + citations.length + 1 }

def buildClaims (evidence : List Evidence) (uuid4 : UuidSource) (outputs : List ClaimOutput) :
    BuildState :=
  outputs.foldl (buildClaim evidence uuid4) ⟨[], [], uuid4 0, 1⟩

def isSupported (c : AnswerClaim) : Bool := decide (c.supportStatus ≠ .unsupported)

/-- `none` is the `ValidationError` of a response whose answer is white space. -/
def buildResponse (uuid4 : UuidSource) (output : ResponseOutput) (evidence : List Evidence) :
    Option QueryResponse :=
  let s := buildClaims evidence uuid4 output.claims
  let supported := s.claims.countP isSupported
  if PyText.strip output.answer ≠ [] then
    if supported = 0 then
      QueryResponse.make? (uuid4 s.draws) none .insufficientEvidence [] [] .low
        ["LLM answer had no supported claims".toList]
    else
      QueryResponse.make? (uuid4 s.draws) (some output.answer) .answered s.claims s.citations
        (if supported ≥ 3 then .high else .medium) []
  else
    QueryResponse.make? (uuid4 s.draws) (if output.answer ≠ [] then some output.answer else none)
      .insufficientEvidence s.claims s.citations .low []

end GroundGraph.Answering

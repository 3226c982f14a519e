import GroundGraph.Execution.StateMachine
import GroundGraph.Retrieval.Domain

/-! `POST /v1/query` (`api/query.py`): the run row is created, moved to RUNNING, closed
as SUCCEEDED with the output of the workflow, or as FAILED by the exception handler.
All three updates go through one database session.
-/

set_option autoImplicit false

namespace GroundGraph.Api

open GroundGraph.Execution GroundGraph.Retrieval

/-- What an `await` may raise; `except Exception` does not catch a cancellation. -/
inductive Raised where
  | exception (text : String)
  | cancelled

/-- What the database does to one committing call: nothing special, or it raises, before or
after the commit took effect, and leaves the session usable or not. -/
inductive Fault where
  | none
  | raises (error : Raised) (committed usable : Bool)

inductive WorkflowOutcome where
  | raised (error : Raised)
  | returned (response : QueryResponse)

/-- What one call of the handler meets; `str` is the text of an exception and `aborted` that
of a statement in a session that cannot go on. -/
structure Surroundings where
  toRunning : Fault
  workflow : WorkflowOutcome
  recording : Fault
  failing : Fault
  str : ExecutionError → String
  aborted : String

/-- The request with the trusted identity, and the values the handler draws. -/
structure QueryCall where
  question : String
  indexName : Option String := none
  principal : String
  tenantId : String
  runId : UUID
  indexVersionId : UUID
  modelVersion : String
  startedAt : Instant
  runningAt : Instant
  finishedAt : Instant

structure ClaimModel where
  claimId : UUID
  text : List Char
  factual : Bool
  supportStatus : SupportStatus
  evidenceIds : List UUID

structure CitationModel where
  citationId : UUID
  claimId : UUID
  evidenceId : UUID
  locator : List Char

structure VectorQueryResponse where
  answer : Option (List Char)
  status : ResponseStatus
  claims : List ClaimModel
  citations : List CitationModel
  confidenceBand : ConfidenceBand
  executionRunId : UUID
  warnings : List (List Char)

inductive HttpAnswer where
  | ok (response : VectorQueryResponse)
  | error (statusCode : Nat) (detail : String)
  | raised (error : Raised)

def responseStatusText : ResponseStatus → String
  | .answered => "answered"
  | .clarificationRequired => "clarification_required"
  | .insufficientEvidence => "insufficient_evidence"
  | .failed => "failed"

def confidenceBandText : ConfidenceBand → String
  | .high => "high"
  | .medium => "medium"
  | .low => "low"

def vectorQueryResponse (runId : UUID) (result : QueryResponse) : VectorQueryResponse :=
  { answer := result.answer
    status := result.status
    claims := result.claims.map fun c =>
      ⟨c.claimId, c.text, c.factual, c.supportStatus, c.evidenceIds⟩
    citations := result.citations.map fun c =>
      ⟨c.citationId, c.claimId, c.evidenceId, c.locator⟩
    confidenceBand := result.confidenceBand
    executionRunId := runId
    warnings := result.warnings }

def runInput (call : QueryCall) : JsonObject :=
  ("question", .str call.question) ::
    match call.indexName with
    | none => []
    | some name => if name = "" then [] else [("index_name", .str name)]

def newRun (call : QueryCall) : ExecutionRun :=
  { runId := call.runId
    workflow := "query"
    status := .pending
    principal := call.principal
    tenantId := call.tenantId
    input := runInput call
    output := []
    startedAt := some call.startedAt
    indexVersionId := some call.indexVersionId
    modelVersion := some call.modelVersion
    terminalConsistency := by simp [ExecutionRunStatus.isTerminal] }

/-- `run_output`. The ids of the citations are put in as they are, as `UUID` objects. -/
def runOutput (result : QueryResponse) : PyValue :=
  .dict
    [(.inl "answer", match result.answer with
        | none => .none
        | some answer => .str (String.ofList answer)),
     (.inl "status", .str (responseStatusText result.status)),
     (.inl "claims_count", .int result.claims.length),
     (.inl "citation_ids", .list (result.citations.map fun _ => .other "UUID")),
     (.inl "confidence_band", .str (confidenceBandText result.confidenceBand)),
     (.inl "warnings", .list (result.warnings.map fun w => .str (String.ofList w)))]

def outputDocument (result : QueryResponse) : JsonObject :=
  [("answer", match result.answer with
      | none => .null
      | some answer => .str (String.ofList answer)),
   ("status", .str (responseStatusText result.status)),
   ("claims_count", .int result.claims.length),
   ("citation_ids",
     .list (result.citations.map fun c => .str (String.ofList (strUuid c.evidenceId)))),
   ("confidence_band", .str (confidenceBandText result.confidenceBand)),
   ("warnings", .list (result.warnings.map fun w => .str (String.ofList w)))]

def toRunningUpdate (call : QueryCall) : RunUpdate :=
  { runId := call.runId, expectedStatus := .pending, newStatus := .running }

def succeededUpdate (call : QueryCall) (result : QueryResponse) : RunUpdate :=
  { runId := call.runId, expectedStatus := .running, newStatus := .succeeded
    output := some (runOutput result) }

def failedUpdate (call : QueryCall) (message : String) : RunUpdate :=
  { runId := call.runId, expectedStatus := .running, newStatus := .failed
    errorCode := some "WORKFLOW_FAILED", errorMessage := some message }

structure Session where
  runs : RunTable
  usable : Bool

/-- `repo.update_run_status(…, commit=True)`. -/
def commitUpdate (env : Surroundings) (s : Session) (u : RunUpdate) (now : Instant)
    (fault : Fault) : Session × Except Raised Unit :=
  if s.usable = false then (s, .error (.exception env.aborted))
  else
    match updateRunStatus s.runs u now (s.runs.get? u.runId) with
    | .error e => (s, .error (.exception (env.str e)))
    | .ok (runs, _) =>
      match fault with
      | .none => (⟨runs, true⟩, .ok ())
      | .raises error committed usable =>
        (⟨if committed then runs else s.runs, usable⟩, .error error)

def runQuery (env : Surroundings) (call : QueryCall) (s : Session) :
    Session × Except Raised QueryResponse :=
  match commitUpdate env s (toRunningUpdate call) call.runningAt env.toRunning with
  | (s, .error error) => (s, .error error)
  | (s, .ok ()) =>
    match env.workflow with
    | .raised error => (s, .error error)
    | .returned result =>
      match commitUpdate env s (succeededUpdate call result) call.finishedAt env.recording with
      | (s, .error error) => (s, .error error)
      | (s, .ok ()) => (s, .ok result)

def closeRun (env : Surroundings) (call : QueryCall) (s : Session) : RunTable × HttpAnswer :=
  match runQuery env call s with
  | (s, .ok result) => (s.runs, .ok (vectorQueryResponse call.runId result))
  | (s, .error .cancelled) => (s.runs, .raised .cancelled)
  | (s, .error (.exception text)) =>
    match commitUpdate env s (failedUpdate call text) call.finishedAt env.failing with
    | (s, .ok ()) => (s.runs, .error 500 "Internal server error")
    | (s, .error error) => (s.runs, .raised error)

def queryV1 (env : Surroundings) (call : QueryCall) (runs : RunTable) : RunTable × HttpAnswer :=
  match createRun runs (newRun call) with
  | .error e => (runs, .raised (.exception (env.str e)))
  | .ok (runs, _) => closeRun env call ⟨runs, true⟩

theorem itemsToPy_strings {α : Type} (text : α → String) (l : List α) :
    itemsToPy (l.map fun x => JsonValue.str (text x)) = l.map fun x => PyValue.str (text x) := by
  induction l with
  | nil => rfl
  | cons x l ih => simp [itemsToPy, JsonValue.toPy, ih]

theorem runOutput_of_uncited {result : QueryResponse} (h : result.citations = []) :
    runOutput result = JsonObject.toPy (outputDocument result) := by
  cases hanswer : result.answer <;>
    simp [runOutput, outputDocument, JsonObject.toPy, entriesToPy, JsonValue.toPy, itemsToPy, h,
      hanswer, itemsToPy_strings]

theorem runOutput_of_cited {result : QueryResponse} (h : result.citations ≠ []) :
    snapshotOptional (some (runOutput result)) = .error (.json (.notJson "UUID")) := by
  cases hcitations : result.citations with
  | nil => exact absurd hcitations h
  | cons c cs =>
    cases hanswer : result.answer <;>
      simp [snapshotOptional, snapshot, snapshotJsonObject, runOutput, hcitations, hanswer,
        validateJsonValue, validateEntries, validateItems]

end GroundGraph.Api

import GroundGraph.Api.QueryClosure
import GroundGraph.Answering.QueryGraph
import GroundGraph.Knowledge.Payload
import GroundGraph.Retrieval.EvidencePassed
import GroundGraph.Versioning.IndexVersions

/-! `POST /v1/executions/{run_id}/replay` (`api/execution.py`): the input of a finished run is
put to the query workflow once more, under a new run. In the meantime index versions are
published and other runs go on. The workflow would resolve the index anew at each execution, but
the call of its graph is refused.
-/

set_option autoImplicit false

namespace GroundGraph.Api

open GroundGraph.Execution GroundGraph.Retrieval GroundGraph.Versioning GroundGraph.Answering
open GroundGraph.Knowledge

inductive OtherCall where
  | create (run : ExecutionRun)
  | update (u : RunUpdate) (now : Instant)

def OtherCall.runId : OtherCall → UUID
  | .create run => run.runId
  | .update u _ => u.runId

/-- A call that raises leaves the table as it was. -/
def OtherCall.apply (runs : RunTable) : OtherCall → RunTable
  | .create run =>
    match createRun runs run with
    | .ok (runs, _) => runs
    | .error _ => runs
  | .update u now =>
    match updateRunStatus runs u now (runs.get? u.runId) with
    | .ok (runs, _) => runs
    | .error _ => runs

def Session.after (s : Session) (calls : List OtherCall) : Session :=
  { s with runs := calls.foldl OtherCall.apply s.runs }

/-- Where a port raises in one execution of the query, if one does. -/
inductive PortFault where
  | none
  | beforeSearch (text : List Char)
  | afterSearch (text : List Char)

def PortFault.reachesSearch : PortFault → Bool
  | .beforeSearch _ => false
  | _ => true

/-- What one execution meets: the services, and how many of the calls on the index versions are
committed when it resolves the index. -/
structure Moment where
  service : HybridRetrievalConfig
  committed : Nat
  port : PortFault := .none

/-- What one call of the handler meets. `interrupted` is an error that ends the workflow after
so many steps of its graph. -/
structure ReplaySurroundings where
  reading : Option Raised := none
  creating : Fault := .none
  toRunning : Fault := .none
  recording : Fault := .none
  failing : Fault := .none
  interrupted : Option (Nat × Raised) := none
  beforeCreate : List OtherCall := []
  beforeRunning : List OtherCall := []
  duringWorkflow : List OtherCall := []
  beforeFailing : List OtherCall := []
  indexes : IndexTable
  publications : List IndexCall
  moments : Nat → Moment
  workflowRunId : UUID
  str : ExecutionError → String
  errorText : QueryError → List Char
  notText : List Char
  /-- The text of the `ValueError` for a missing `thread_id`. -/
  noThread : String
  aborted : String

/-- The path parameter and the identity, with the values the handler draws. -/
structure ReplayCall where
  runId : UUID
  principal : String
  tenantId : String
  newRunId : UUID
  startedAt : Instant
  runningAt : Instant
  finishedAt : Instant

inductive ReplayAnswer where
  | ok (newRunId originalRunId : UUID) (status : String)
  | error (statusCode : Nat) (detail : List Char)
  | raised (error : Raised)

/-- What the handler leaves behind. Each execution that no port stops before the search counts
with the index version it sent the vector search to, if it sent it. -/
structure Replayed where
  runs : RunTable
  searches : List (Option UUID)
  answer : ReplayAnswer

namespace ReplaySurroundings

variable (env : ReplaySurroundings) (call : ReplayCall) (original : ExecutionRun)

def otherCalls : List OtherCall :=
  env.beforeCreate ++ env.beforeRunning ++ env.duringWorkflow ++ env.beforeFailing

def indexesAt (i : Nat) : IndexTable :=
  (indexSystem.run env.indexes (env.publications.take (env.moments i).committed)).getD env.indexes

end ReplaySurroundings

/-- The row that `resolve_active` finds. -/
def activeRow (t : IndexTable) (indexName : List Char) : Option IndexVersion :=
  ((t.activeOf indexName).insertionSort fun a b => b.createdAt ≤ a.createdAt).head?

/-- `question` and `index_name` of the stored input, where they are texts. -/
def replayArguments (input : JsonObject) : Option (List Char × Option (List Char)) :=
  match input.find "question" with
  | some (.str question) =>
    match input.find "index_name" with
    | none => some (question.toList, none)
    | some (.str name) => some (question.toList, some name.toList)
    | some value => if truthy value then none else some (question.toList, none)
  | _ => none

def searchedVersion (cfg : HybridRetrievalConfig) (req : HybridRequest) : Option UUID :=
  if req.tenantId = "" then none else (cfg.activeIndex req).toOption

namespace ReplaySurroundings

variable (env : ReplaySurroundings) (call : ReplayCall) (original : ExecutionRun)

def serviceAt (i : Nat) : HybridRetrievalConfig :=
  { (env.moments i).service with resolveActive := activeRow (env.indexesAt i) }

/-- The arguments of `query_with_evidence` in the workflow. -/
def request (arguments : List Char × Option (List Char)) : HybridRequest :=
  { question := arguments.1
    principal := call.principal
    tenantId := call.tenantId
    indexName := arguments.2 }

/-- `_execute_node`. Arguments that are no texts raise before anything is searched. -/
def outcome (i : Nat) : ExecutionOutcome :=
  match replayArguments original.input with
  | none => .raised env.notText
  | some arguments =>
    match (env.moments i).port with
    | .beforeSearch text => .raised text
    | .afterSearch text =>
      match (env.serviceAt i).retrieve (request call arguments) with
      | .error e => .raised (env.errorText e)
      | .ok _ => .raised text
    | .none =>
      match (env.serviceAt i).queryWithEvidence (request call arguments) with
      | .error e => .raised (env.errorText e)
      | .ok result => .returned result.response result.evidence

/-- How far `workflow.ainvoke` gets, with the default of one retry. -/
def workflowRun : GraphRun :=
  let start := graphStart env.workflowRunId 1
  if queryGraph.accepts ainvokeThread then
    match env.interrupted with
    | none => graphRun env.workflowRunId 1 (env.outcome call original)
    | some (steps, _) => Iteration.run (graphStep (env.outcome call original)) steps start
  else start

def workflowOutcome : WorkflowOutcome :=
  match env.interrupted with
  | some (_, error) => .raised error
  | none =>
    if queryGraph.accepts ainvokeThread then
      .returned (finalResponse (env.workflowRun call original).state)
    else .raised (.exception env.noThread)

def searchOf (i : Nat) : Option UUID :=
  (replayArguments original.input).bind fun arguments =>
    searchedVersion (env.serviceAt i) (request call arguments)

def searchesOf (executions : Nat) : List (Option UUID) :=
  ((List.range executions).filter fun i => (env.moments i).port.reachesSearch).map
    (env.searchOf call original)

def searches : List (Option UUID) :=
  env.searchesOf call original (env.workflowRun call original).executions

def updating : Surroundings :=
  { toRunning := env.toRunning
    workflow := env.workflowOutcome call original
    recording := env.recording
    failing := env.failing
    str := env.str
    aborted := env.aborted }

end ReplaySurroundings

theorem pending_terminalConsistency :
    ExecutionRunStatus.pending.isTerminal = true → (none : Option Instant).isSome = true :=
  fun h => absurd h Bool.false_ne_true

def replayRun (call : ReplayCall) (original : ExecutionRun) : ExecutionRun :=
  { runId := call.newRunId
    workflow := "query"
    status := .pending
    principal := call.principal
    tenantId := call.tenantId
    input := original.input
    output := []
    startedAt := some call.startedAt
    terminalConsistency := pending_terminalConsistency }

def replayRunning (call : ReplayCall) : RunUpdate :=
  { runId := call.newRunId, expectedStatus := .pending, newStatus := .running }

def replaySucceeded (call : ReplayCall) : RunUpdate :=
  { runId := call.newRunId, expectedStatus := .running, newStatus := .succeeded }

def replayFailed (call : ReplayCall) (message : String) : RunUpdate :=
  { runId := call.newRunId, expectedStatus := .running, newStatus := .failed
    errorCode := some "REPLAY_FAILED", errorMessage := some message }

/-- How the `try` block ends, and whether it came to the workflow. -/
structure Attempt where
  session : Session
  invoked : Bool
  result : Except Raised Unit

namespace ReplaySurroundings

variable (env : ReplaySurroundings) (call : ReplayCall) (original : ExecutionRun)

/-- `repo.create_run(new_run, commit=True)`, in a session that was only read from. -/
def commitCreate (runs : RunTable) : Session × Except Raised Unit :=
  match createRun runs (replayRun call original) with
  | .error e => (⟨runs, true⟩, .error (.exception (env.str e)))
  | .ok (created, _) =>
    match env.creating with
    | .none => (⟨created, true⟩, .ok ())
    | .raises error committed usable => (⟨if committed then created else runs, usable⟩, .error error)

def attempt (s : Session) : Attempt :=
  let updating := env.updating call original
  match commitUpdate updating (s.after env.beforeRunning) (replayRunning call) call.runningAt
    env.toRunning with
  | (s, .error error) => ⟨s, false, .error error⟩
  | (s, .ok ()) =>
    let s := s.after env.duringWorkflow
    match updating.workflow with
    | .raised error => ⟨s, true, .error error⟩
    | .returned _ =>
      match commitUpdate updating s (replaySucceeded call) call.finishedAt env.recording with
      | (s, result) => ⟨s, true, result⟩

def close (s : Session) : Replayed :=
  let attempted := env.attempt call original s
  let searches := if attempted.invoked then env.searches call original else []
  match attempted.result with
  | .ok () => ⟨attempted.session.runs, searches, .ok call.newRunId call.runId "succeeded"⟩
  | .error .cancelled => ⟨attempted.session.runs, searches, .raised .cancelled⟩
  | .error (.exception text) =>
    match commitUpdate (env.updating call original) (attempted.session.after env.beforeFailing)
      (replayFailed call text) call.finishedAt env.failing with
    | (s, .ok ()) => ⟨s.runs, searches, .raised (.exception text)⟩
    | (s, .error error) => ⟨s.runs, searches, .raised error⟩

end ReplaySurroundings

def notFoundDetail (runId : UUID) : List Char :=
  "Execution run ".toList ++ strUuid runId ++ " not found".toList

/-- `not question`. -/
def hasQuestion (input : JsonObject) : Bool :=
  match input.find "question" with
  | none => false
  | some question => truthy question

def replayRefusal (call : ReplayCall) (original : ExecutionRun) : Option (Nat × List Char) :=
  if original.tenantId ≠ call.tenantId ∨ original.principal ≠ call.principal then
    some (404, notFoundDetail call.runId)
  else if original.status ∉ [ExecutionRunStatus.succeeded, .failed] then
    some (409, "Cannot replay run in status ".toList ++ original.status.value.toList ++
      ". Only succeeded or failed runs can be replayed.".toList)
  else if hasQuestion original.input = false then
    some (422, "Original run has no question in input; replay requires a query-type run.".toList)
  else none

def replayExecution (env : ReplaySurroundings) (call : ReplayCall) (runs : RunTable) : Replayed :=
  match env.reading with
  | some error => ⟨runs, [], .raised error⟩
  | none =>
    match runs.get? call.runId with
    | none => ⟨runs, [], .error 404 (notFoundDetail call.runId)⟩
    | some row =>
      match sqlRunToDomain row with
      | .error e => ⟨runs, [], .raised (.exception (env.str e))⟩
      | .ok original =>
        match replayRefusal call original with
        | some (statusCode, detail) => ⟨runs, [], .error statusCode detail⟩
        | none =>
          match env.commitCreate call original (Session.after ⟨runs, true⟩ env.beforeCreate).runs with
          | (s, .error error) => ⟨s.runs, [], .raised error⟩
          | (s, .ok ()) => env.close call original s

theorem resolveActive_eq_map_info (t : IndexTable) (indexName : List Char) :
    resolveActive t indexName = (activeRow t indexName).map IndexVersion.info := rfl

theorem retrieve_of_searched {cfg : HybridRetrievalConfig} {req : HybridRequest}
    {indexVersionId : UUID} (h : searchedVersion cfg req = some indexVersionId) :
    cfg.retrieve req =
      .ok (cfg.vectorSearch (cfg.embedOne req.question)
          (orDefault req.vectorTopK cfg.settings.vectorTopK) (ofPrincipal req) indexVersionId,
        cfg.keywordSearch req.question cfg.settings.keywordTopK (ofPrincipal req)) := by
  unfold searchedVersion at h
  unfold HybridRetrievalConfig.retrieve
  by_cases htenant : req.tenantId = ""
  · rw [if_pos htenant] at h
    cases h
  · rw [if_neg htenant] at h ⊢
    cases hactive : cfg.activeIndex req with
    | error e =>
      rw [hactive] at h
      cases h
    | ok active =>
      rw [hactive] at h
      obtain rfl := Option.some.inj h
      rfl

theorem retrieve_of_not_searched {cfg : HybridRetrievalConfig} {req : HybridRequest}
    (h : searchedVersion cfg req = none) : ∃ e, cfg.retrieve req = .error e := by
  unfold searchedVersion at h
  unfold HybridRetrievalConfig.retrieve
  by_cases htenant : req.tenantId = ""
  · rw [if_pos htenant]
    exact ⟨_, rfl⟩
  · rw [if_neg htenant] at h ⊢
    cases hactive : cfg.activeIndex req with
    | error e => exact ⟨e, rfl⟩
    | ok active =>
      rw [hactive] at h
      cases h

theorem searchedVersion_eq_some_iff {cfg : HybridRetrievalConfig} {req : HybridRequest}
    {recorded : UUID} :
    searchedVersion cfg req = some recorded ↔ req.tenantId ≠ "" ∧
      ∃ active,
        cfg.resolveActive (nameOrDefault req.indexName cfg.settings.defaultIndexName) =
          some active ∧
        active.embeddingModel = cfg.embedModel ∧ active.versionId = recorded := by
  unfold searchedVersion HybridRetrievalConfig.activeIndex
  by_cases htenant : req.tenantId = ""
  · simp [htenant]
  · rw [if_neg htenant]
    cases hactive : cfg.resolveActive
        (nameOrDefault req.indexName cfg.settings.defaultIndexName) with
    | none => simp [hactive, Except.toOption]
    | some active =>
      by_cases hmodel : active.embeddingModel = cfg.embedModel
      · simp [hactive, hmodel, htenant, Except.toOption]
      · simp [hactive, hmodel, Except.toOption]

end GroundGraph.Api

import GroundGraph.Answering.Provenance
import GroundGraph.Api.QueryClosure

/-! What `POST /v1/query` hands out when its workflow runs over the service and the generator of
answers. An answer has a supported claim, a supported claim has a citation, and an output with a
citation is not recorded: no answer ever reaches the client.
-/

set_option autoImplicit false

namespace GroundGraph.Api

open GroundGraph.Answering GroundGraph.Execution GroundGraph.Retrieval

/-- The final response of `QueryWorkflow.ainvoke` over these executions. -/
def workflowResponse (executionRunId : UUID) (maxRetries : Nat) (executions : Nat → Execution)
    (req : HybridRequest) : QueryResponse :=
  finalResponse (graphRun executionRunId maxRetries fun i => (executions i).outcome req).state

theorem graphRun_settled (executionRunId : UUID) (maxRetries : Nat)
    (outcomes : Nat → ExecutionOutcome) :
    ∃ last, Settled (graphRun executionRunId maxRetries outcomes).state (outcomes last) := by
  have hfinish := graphRun_finish executionRunId maxRetries outcomes
  have hat := atNode_graphRun executionRunId maxRetries outcomes
  generalize graphRun executionRunId maxRetries outcomes = run at hfinish hat
  obtain ⟨node, state, executions⟩ := run
  cases node with
  | finish => exact ⟨state.retries, hat.2.2⟩
  | execute | validate | decide | retry | fail => cases hfinish

theorem generate_status {llm : AnswerModel} {uuid4 : UuidSource} {question : List Char}
    {evidence : List Evidence} {r : QueryResponse}
    (h : generate llm uuid4 question evidence = some r) : r.status ≠ .clarificationRequired := by
  have hmade : ∀ {status answer claims citations band warnings},
      QueryResponse.make? (uuid4 0) answer status claims citations band warnings = some r →
        r.status = status :=
    fun hr => (QueryResponse.make?_some hr).2.1
  unfold generate at h
  split at h
  · rw [hmade h]
    decide
  · split at h
    · rw [hmade h]
      decide
    · unfold buildResponse at h
      simp only at h
      split at h
      · split at h
        · rw [(QueryResponse.make?_some h).2.1]
          decide
        · rw [(QueryResponse.make?_some h).2.1]
          decide
      · rw [(QueryResponse.make?_some h).2.1]
        decide

theorem validateNode_status {r : QueryResponse} {evidence : List Evidence} :
    (validateNode r evidence).status = r.status ∨
      (validateNode r evidence).status = .insufficientEvidence := by
  unfold validateNode
  simp only
  split
  · exact Or.inr rfl
  · exact Or.inl rfl

theorem workflowResponse_cases (executionRunId : UUID) (maxRetries : Nat)
    (executions : Nat → Execution) (req : HybridRequest) :
    (workflowResponse executionRunId maxRetries executions req).status = .answered ∨
      ∃ runId warning, workflowResponse executionRunId maxRetries executions req =
        failedResponse runId warning := by
  obtain ⟨last, hsettled⟩ := graphRun_settled executionRunId maxRetries
    fun i => (executions i).outcome req
  rcases hsettled with ⟨r, evidence, hlast, hresponse, hstatus⟩ | ⟨runId, warning, hresponse⟩
  · have hfinal : workflowResponse executionRunId maxRetries executions req =
        validateNode r evidence := by
      simp [workflowResponse, finalResponse, hresponse]
    rw [hfinal]
    rcases hstatus with hanswered | hasks
    · exact Or.inl hanswered
    · obtain ⟨-, hgenerate⟩ := outcome_returned hlast
      rcases @validateNode_status r evidence with hsame | hinsufficient
      · exact absurd (hsame.symm.trans hasks) (generate_status hgenerate)
      · rw [hinsufficient] at hasks
        cases hasks
  · exact Or.inr ⟨runId, warning, by simp [workflowResponse, finalResponse, hresponse]⟩

/-- Support is needed for an answer, and support is cited. -/
theorem workflowResponse_cited {executionRunId : UUID} {maxRetries : Nat}
    {executions : Nat → Execution} {req : HybridRequest}
    (hanswered : (workflowResponse executionRunId maxRetries executions req).status = .answered) :
    (workflowResponse executionRunId maxRetries executions req).citations ≠ [] := by
  obtain ⟨-, hsound⟩ := graphRun_sound executionRunId maxRetries fun i => (executions i).outcome req
  obtain ⟨r, evidence, hlast, hfinal, -⟩ := hsound.answered hanswered
  obtain ⟨-, hgenerate⟩ := outcome_returned hlast
  unfold workflowResponse at hanswered ⊢
  rw [hfinal] at hanswered ⊢
  have hattested := generated_attested hgenerate hanswered
  obtain ⟨claim, hclaim, hids⟩ := hattested.supported
  obtain ⟨id, hid⟩ := List.exists_mem_of_ne_nil _ hids
  obtain ⟨c, hc, -⟩ := hattested.cited claim hclaim id hid
  exact List.ne_nil_of_mem hc

/-- What is not cited is the response of the fail node. -/
theorem workflowResponse_uncited {executionRunId : UUID} {maxRetries : Nat}
    {executions : Nat → Execution} {req : HybridRequest}
    (huncited : (workflowResponse executionRunId maxRetries executions req).citations = []) :
    ∃ runId warning, workflowResponse executionRunId maxRetries executions req =
      failedResponse runId warning :=
  (workflowResponse_cases executionRunId maxRetries executions req).resolve_left
    fun hanswered => workflowResponse_cited hanswered huncited

def RunsQueryWorkflow (env : Surroundings) : Prop :=
  ∀ result, env.workflow = .returned result → ∃ executionRunId maxRetries executions req,
    result = workflowResponse executionRunId maxRetries executions req

theorem closeRun_ok {env : Surroundings} {call : QueryCall} {s : Session} {result : QueryResponse}
    {response : VectorQueryResponse} (hworkflow : env.workflow = .returned result)
    (h : (closeRun env call s).2 = .ok response) :
    result.citations = [] ∧ response = vectorQueryResponse call.runId result := by
  cases hrun : runQuery env call s with
  | mk s' outcome =>
    cases outcome with
    | error error =>
      cases error with
      | cancelled => simp [closeRun, hrun] at h
      | exception text =>
        simp only [closeRun, hrun] at h
        split at h <;> cases h
    | ok returned =>
      simp only [closeRun, hrun, HttpAnswer.ok.injEq] at h
      unfold runQuery at hrun
      split at hrun
      · cases hrun
      · simp only [hworkflow] at hrun
        split at hrun
        · cases hrun
        · rename_i hrecorded
          obtain rfl := Except.ok.inj (Prod.mk.inj hrun).2
          refine ⟨?_, h.symm⟩
          by_contra hcited
          obtain ⟨text, hrefused⟩ := recording_refused env call hcited _
          rw [hrefused] at hrecorded
          cases hrecorded

theorem closeRun_cited {env : Surroundings} {call : QueryCall} {s : Session} {r : RunRow}
    {result : QueryResponse} (husable : s.usable = true) (hget : s.runs.get? call.runId = some r)
    (hpending : r.status = "pending") (hworkflow : env.workflow = .returned result)
    (hcited : result.citations ≠ []) (hrunning : env.toRunning = .none)
    (hfailing : env.failing = .none) :
    (closeRun env call s).2 = .error 500 "Internal server error" ∧
      ∃ row, (closeRun env call s).1.get? call.runId = some row ∧ row.status = "failed" := by
  obtain ⟨s₁, r₁, hcommit₁, husable₁, hget₁, hstatus₁⟩ :=
    toRunning_accepted env call husable hget hpending
  rw [hrunning] at hcommit₁ husable₁ hstatus₁
  obtain ⟨text, hrefused⟩ := recording_refused env call hcited s₁
  have hrun : runQuery env call s = (s₁, .error (.exception text)) := by
    simp only [runQuery, hrunning, hcommit₁, Fault.result, hworkflow, hrefused]
  obtain ⟨s₂, hcommit₂, -, hget₂⟩ := commitUpdate_accepted env
    (u := failedUpdate call text) husable₁ allowed_failed rfl hget₁ hstatus₁ call.finishedAt
    env.failing
  rw [hfailing] at hcommit₂ hget₂
  have hclosed : closeRun env call s = (s₂.runs, .error 500 "Internal server error") := by
    simp only [closeRun, hrun, hfailing, hcommit₂, Fault.result]
  rw [hclosed]
  exact ⟨rfl, _, hget₂, rfl⟩

structure AnswersLost (env : Surroundings) (call : QueryCall) (runs : RunTable)
    (result : QueryResponse) : Prop where
  /-- Only failures are returned. -/
  returned : ∀ response, (queryV1 env call runs).2 = .ok response →
    response.status = .failed ∧ response.answer = none ∧ response.citations = []
  /-- And an answer is an internal error, without any failure of the database. -/
  lost : result.status = .answered → env.toRunning = .none → env.failing = .none →
    (queryV1 env call runs).2 = .error 500 "Internal server error" ∧
      ∃ row, (queryV1 env call runs).1.get? call.runId = some row ∧ row.status = "failed"

/-- Whatever the stores hold, the model says and the database does. -/
theorem queryV1_loses_answers {env : Surroundings} {executionRunId : UUID} {maxRetries : Nat}
    {executions : Nat → Execution} {req : HybridRequest} (call : QueryCall) {runs : RunTable}
    (hfresh : runs.get? call.runId = none)
    (hworkflow : env.workflow =
      .returned (workflowResponse executionRunId maxRetries executions req)) :
    AnswersLost env call runs (workflowResponse executionRunId maxRetries executions req) := by
  obtain ⟨created, row, heq, hget, hpending⟩ := queryV1_created env call hfresh
  constructor
  · intro response hok
    rw [heq] at hok
    obtain ⟨huncited, rfl⟩ := closeRun_ok hworkflow hok
    obtain ⟨runId, warning, hfailed⟩ := workflowResponse_uncited huncited
    rw [hfailed]
    exact ⟨rfl, rfl, rfl⟩
  · intro hanswered hrunning hfailing
    rw [heq]
    exact closeRun_cited rfl hget hpending hworkflow (workflowResponse_cited hanswered) hrunning
      hfailing

/-- The second execution answers, and the client is told of an internal error. -/
theorem queryV1_loses_answers_lateIndex :
    (workflowResponse 1 1 lateIndex isIt).status = .answered ∧
      AnswersLost (quietRun (workflowResponse 1 1 lateIndex isIt)) sampleCall .empty
        (workflowResponse 1 1 lateIndex isIt) :=
  ⟨by decide, queryV1_loses_answers sampleCall rfl rfl⟩

end GroundGraph.Api

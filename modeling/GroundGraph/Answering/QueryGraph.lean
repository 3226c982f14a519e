import GroundGraph.Answering.Workflow
import GroundGraph.Library.Iteration

/-! The query workflow as the graph it is (`workflows/query_graph.py`): execute,
validate, decide, retry and fail over one state that every node updates in part.
What the retrieval service does is a sequence of outcomes, one for each execution.
-/

set_option autoImplicit false

namespace GroundGraph.Answering

open GroundGraph.Retrieval

/-- What one call of `query_with_evidence` does; `raised` carries `str(exc)`. -/
inductive ExecutionOutcome where
  | raised (error : List Char)
  | returned (response : QueryResponse) (evidence : List Evidence)

structure QueryWorkflowState where
  executionRunId : UUID
  evidence : List Evidence := []
  response : Option QueryResponse := none
  error : Option (List Char) := none
  retries : Nat := 0
  maxRetries : Nat := 1

/-- `_execute_node`. An exception leaves response and evidence of an earlier pass. -/
def executeNode (state : QueryWorkflowState) : ExecutionOutcome → QueryWorkflowState
  | .raised error => { state with error := some error }
  | .returned response evidence =>
    { state with response := some response, evidence := evidence, error := none }

/-- `_validate_node`, on the response of this pass or of an earlier one. -/
def validateResponse (state : QueryWorkflowState) : QueryWorkflowState :=
  { state with response := state.response.map fun r => validateNode r state.evidence }

def retryNode (state : QueryWorkflowState) : QueryWorkflowState :=
  { state with retries := state.retries + 1 }

def failedResponse (executionRunId : UUID) (warning : List Char) : QueryResponse :=
  { executionRunId := executionRunId
    status := .failed
    confidenceBand := .low
    warnings := [warning]
    answerStatusConsistency := rfl }

/-- `_fail_node`. An exception without a text counts as none. -/
def failNode (state : QueryWorkflowState) : QueryWorkflowState :=
  let warning := match state.error with
    | some (c :: cs) => c :: cs
    | _ => "Query workflow failed after retries".toList
  { state with response := some (failedResponse state.executionRunId warning) }

inductive Node where
  | execute | validate | decide | retry | fail | finish
  deriving DecidableEq, Repr

def Route.node : Route → Node
  | .retry => .retry
  | .fail => .fail
  | .done => .finish

/-- Where a run of the graph stands; `executions` counts the calls made. -/
structure GraphRun where
  node : Node
  state : QueryWorkflowState
  executions : Nat

/-- The nodes and edges of `_build_graph`. -/
def graphStep (outcomes : Nat → ExecutionOutcome) (run : GraphRun) : Option GraphRun :=
  match run.node with
  | .execute =>
    some ⟨.validate, executeNode run.state (outcomes run.executions), run.executions + 1⟩
  | .validate => some ⟨.decide, validateResponse run.state, run.executions⟩
  | .decide =>
    some ⟨(decideRoute run.state.error.isSome run.state.response run.state.retries
      run.state.maxRetries).node, run.state, run.executions⟩
  | .retry => some ⟨.execute, retryNode run.state, run.executions⟩
  | .fail => some ⟨.finish, failNode run.state, run.executions⟩
  | .finish => none

def graphStart (executionRunId : UUID) (maxRetries : Nat) : GraphRun :=
  ⟨.execute, { executionRunId := executionRunId, maxRetries := maxRetries }, 0⟩

def graphRun (executionRunId : UUID) (maxRetries : Nat) (outcomes : Nat → ExecutionOutcome) :
    GraphRun :=
  Iteration.run (graphStep outcomes) (5 * maxRetries + 5) (graphStart executionRunId maxRetries)

/-- What `QueryWorkflow.ainvoke` returns of the state that the graph ended in. -/
def finalResponse (state : QueryWorkflowState) : QueryResponse :=
  state.response.getD
    (failedResponse state.executionRunId "Query workflow produced no response".toList)

structure CompiledGraph where
  hasCheckpointer : Bool

/-- `g.compile(checkpointer=MemorySaver())`. -/
def queryGraph : CompiledGraph := ⟨true⟩

/-- The checkpoints of a call are those of its thread: a graph with a checkpointer raises a
`ValueError` before its first node if there is no `thread_id` in the config. -/
def CompiledGraph.accepts (graph : CompiledGraph) (threadId : Option (List Char)) : Bool :=
  !graph.hasCheckpointer || threadId.isSome

/-- `QueryWorkflow.ainvoke` calls `self._graph.ainvoke(state)`, without a config. -/
def ainvokeThread : Option (List Char) := none

/-- The last outcome, as the state records it once `post` was applied to a response. -/
def Recorded (post : QueryResponse → List Evidence → QueryResponse) (state : QueryWorkflowState) :
    ExecutionOutcome → Prop
  | .raised error => state.error = some error
  | .returned response evidence =>
    state.error = none ∧ state.evidence = evidence ∧ state.response = some (post response evidence)

/-- The response of the last execution after validation, or the one of the fail node. -/
def Settled (state : QueryWorkflowState) (last : ExecutionOutcome) : Prop :=
  (∃ r evidence, last = .returned r evidence ∧ state.response = some (validateNode r evidence) ∧
    ((validateNode r evidence).status = .answered ∨
      (validateNode r evidence).status = .clarificationRequired)) ∨
  ∃ executionRunId warning, state.response = some (failedResponse executionRunId warning)

/-- `last` is the outcome of the execution that was made last. -/
def AtNode (outcomes : Nat → ExecutionOutcome) (run : GraphRun) : Prop :=
  match run.node with
  | .execute => run.executions = run.state.retries ∧ run.state.retries ≤ run.state.maxRetries
  | .validate => run.executions = run.state.retries + 1 ∧
      run.state.retries ≤ run.state.maxRetries ∧
      Recorded (fun r _ => r) run.state (outcomes run.state.retries)
  | .decide => run.executions = run.state.retries + 1 ∧
      run.state.retries ≤ run.state.maxRetries ∧
      Recorded validateNode run.state (outcomes run.state.retries)
  | .retry => run.executions = run.state.retries + 1 ∧ run.state.retries < run.state.maxRetries
  | .fail => run.executions = run.state.retries + 1 ∧ run.state.retries ≤ run.state.maxRetries
  | .finish => run.executions = run.state.retries + 1 ∧
      run.state.retries ≤ run.state.maxRetries ∧
      Settled run.state (outcomes run.state.retries)

theorem recorded_executeNode (state : QueryWorkflowState) (outcome : ExecutionOutcome) :
    Recorded (fun r _ => r) (executeNode state outcome) outcome := by
  cases outcome with
  | raised error => rfl
  | returned response evidence => exact ⟨rfl, rfl, rfl⟩

theorem recorded_validateResponse {state : QueryWorkflowState} {outcome : ExecutionOutcome}
    (h : Recorded (fun r _ => r) state outcome) :
    Recorded validateNode (validateResponse state) outcome := by
  cases outcome with
  | raised error => exact h
  | returned response evidence =>
    obtain ⟨herror, hevidence, hresponse⟩ := h
    exact ⟨herror, hevidence, by simp [validateResponse, hresponse, hevidence]⟩

theorem decideRoute_retry {error : Bool} {response : Option QueryResponse}
    {retries maxRetries : Nat} (h : decideRoute error response retries maxRetries = .retry) :
    retries < maxRetries := by
  unfold decideRoute at h
  grind

theorem decideRoute_done {error : Bool} {response : Option QueryResponse}
    {retries maxRetries : Nat} (h : decideRoute error response retries maxRetries = .done) :
    error = false ∧ ∃ r, response = some r ∧
      (r.status = .answered ∨ r.status = .clarificationRequired) := by
  unfold decideRoute at h
  grind

theorem settled_of_done {state : QueryWorkflowState} {last : ExecutionOutcome}
    (hrecorded : Recorded validateNode state last)
    (hdone : decideRoute state.error.isSome state.response state.retries state.maxRetries = .done) :
    Settled state last := by
  obtain ⟨herror, r, hr, hstatus⟩ := decideRoute_done hdone
  cases last with
  | raised error =>
    have hraised : state.error = some error := hrecorded
    rw [hraised] at herror
    cases herror
  | returned response evidence =>
    obtain ⟨_, _, hresponse⟩ := hrecorded
    rw [hresponse] at hr
    obtain rfl := Option.some.inj hr
    exact Or.inl ⟨response, evidence, rfl, hresponse, hstatus⟩

theorem settled_failNode (state : QueryWorkflowState) (last : ExecutionOutcome) :
    Settled (failNode state) last :=
  Or.inr ⟨_, _, rfl⟩

@[simp] theorem executeNode_retries (state : QueryWorkflowState) (outcome : ExecutionOutcome) :
    (executeNode state outcome).retries = state.retries := by cases outcome <;> rfl

@[simp] theorem executeNode_maxRetries (state : QueryWorkflowState) (outcome : ExecutionOutcome) :
    (executeNode state outcome).maxRetries = state.maxRetries := by cases outcome <;> rfl

variable {outcomes : Nat → ExecutionOutcome}

theorem atNode_step (run run' : GraphRun) (h : AtNode outcomes run)
    (hstep : graphStep outcomes run = some run') : AtNode outcomes run' := by
  obtain ⟨node, state, executions⟩ := run
  cases node with
  | execute =>
    obtain ⟨hexec, hle⟩ := h
    simp only at hexec hle
    subst hexec
    obtain rfl := Option.some.inj hstep
    refine ⟨by simp, by simpa using hle, ?_⟩
    simpa using recorded_executeNode state (outcomes state.retries)
  | validate =>
    obtain ⟨hexec, hle, hrecorded⟩ := h
    obtain rfl := Option.some.inj hstep
    exact ⟨hexec, hle, recorded_validateResponse hrecorded⟩
  | decide =>
    obtain ⟨hexec, hle, hrecorded⟩ := h
    obtain rfl := Option.some.inj hstep
    cases hroute : decideRoute state.error.isSome state.response state.retries state.maxRetries with
    | retry => simpa [AtNode, hroute, Route.node] using ⟨hexec, decideRoute_retry hroute⟩
    | fail => simpa [AtNode, hroute, Route.node] using ⟨hexec, hle⟩
    | done =>
      simpa [AtNode, hroute, Route.node] using ⟨hexec, hle, settled_of_done hrecorded hroute⟩
  | retry =>
    obtain ⟨hexec, hlt⟩ := h
    obtain rfl := Option.some.inj hstep
    exact ⟨hexec, hlt⟩
  | fail =>
    obtain ⟨hexec, hle⟩ := h
    obtain rfl := Option.some.inj hstep
    exact ⟨hexec, hle, settled_failNode state _⟩
  | finish => cases hstep

theorem graphStep_maxRetries {run run' : GraphRun} (hstep : graphStep outcomes run = some run') :
    run'.state.maxRetries = run.state.maxRetries := by
  obtain ⟨node, state, executions⟩ := run
  cases node with
  | execute =>
    obtain rfl := Option.some.inj hstep
    exact executeNode_maxRetries state _
  | validate | decide | retry | fail =>
    obtain rfl := Option.some.inj hstep
    rfl
  | finish => cases hstep

/-- Five for every retry that is left, and the nodes up to the next one. -/
def rank (run : GraphRun) : Nat :=
  5 * (run.state.maxRetries - run.state.retries) +
    match run.node with
    | .execute => 4
    | .validate => 3
    | .decide => 2
    | .retry => 0
    | .fail => 1
    | .finish => 0

theorem rank_step (run run' : GraphRun) (h : AtNode outcomes run)
    (hstep : graphStep outcomes run = some run') : rank run' < rank run := by
  obtain ⟨node, state, executions⟩ := run
  cases node with
  | execute | validate | fail =>
    obtain rfl := Option.some.inj hstep
    simp [rank, validateResponse, failNode]
  | decide =>
    obtain rfl := Option.some.inj hstep
    cases hroute : decideRoute state.error.isSome state.response state.retries state.maxRetries <;>
      simp [rank, Route.node]
  | retry =>
    obtain ⟨_, hlt⟩ := h
    obtain rfl := Option.some.inj hstep
    simp only [rank, retryNode] at hlt ⊢
    omega
  | finish => cases hstep

theorem atNode_start (executionRunId : UUID) (maxRetries : Nat) :
    AtNode outcomes (graphStart executionRunId maxRetries) :=
  ⟨rfl, Nat.zero_le maxRetries⟩

theorem atNode_graphRun (executionRunId : UUID) (maxRetries : Nat)
    (outcomes : Nat → ExecutionOutcome) :
    AtNode outcomes (graphRun executionRunId maxRetries outcomes) :=
  Iteration.run_preserves (AtNode outcomes) atNode_step _ _ (atNode_start executionRunId maxRetries)

theorem graphRun_finish (executionRunId : UUID) (maxRetries : Nat)
    (outcomes : Nat → ExecutionOutcome) :
    graphStep outcomes (graphRun executionRunId maxRetries outcomes) = none :=
  Iteration.step_run_eq_none_of (AtNode outcomes) atNode_step rank rank_step _ _
    (atNode_start executionRunId maxRetries) (by simp [rank, graphStart])

theorem graphRun_maxRetries (executionRunId : UUID) (maxRetries : Nat)
    (outcomes : Nat → ExecutionOutcome) :
    (graphRun executionRunId maxRetries outcomes).state.maxRetries = maxRetries :=
  Iteration.run_preserves (fun run => run.state.maxRetries = maxRetries)
    (fun _ _ h hstep => (graphStep_maxRetries hstep).trans h) _ _ rfl

/-- The validate node answers only with claims that are not factual or have support. -/
theorem validateNode_answered {r : QueryResponse} {evidence : List Evidence}
    (h : (validateNode r evidence).status = .answered) :
    ∀ c ∈ (validateNode r evidence).claims, c.factual = true → c.supportStatus ≠ .unsupported := by
  intro c hc hfactual hunsupported
  unfold validateNode at h hc
  simp only at h hc
  split at h
  · cases h
  · rename_i hnone
    rw [if_neg hnone] at hc
    apply hnone
    refine List.ne_nil_of_mem (a := c) (List.mem_filter.mpr ⟨hc, ?_⟩)
    simp [hfactual, isUnsupported, hunsupported]

/-- What a caller of the workflow may rely on, whatever the executions did. -/
structure SoundRun (maxRetries : Nat) (outcomes : Nat → ExecutionOutcome) (run : GraphRun) :
    Prop where
  finished : graphStep outcomes run = none
  bounded : run.executions ≤ maxRetries + 1
  answered : (finalResponse run.state).status = .answered →
    ∃ r evidence, outcomes (run.executions - 1) = .returned r evidence ∧
      finalResponse run.state = validateNode r evidence ∧
      ∀ c ∈ (finalResponse run.state).claims, c.factual = true → c.supportStatus ≠ .unsupported
  failed : ∀ error, outcomes (run.executions - 1) = .raised error →
    (finalResponse run.state).status = .failed
  never_insufficient : (finalResponse run.state).status ≠ .insufficientEvidence

theorem graphRun_sound (executionRunId : UUID) (maxRetries : Nat)
    (outcomes : Nat → ExecutionOutcome) :
    0 < (graphRun executionRunId maxRetries outcomes).executions ∧
      SoundRun maxRetries outcomes (graphRun executionRunId maxRetries outcomes) := by
  have hfinish := graphRun_finish executionRunId maxRetries outcomes
  have hat := atNode_graphRun executionRunId maxRetries outcomes
  have hmax := graphRun_maxRetries executionRunId maxRetries outcomes
  generalize graphRun executionRunId maxRetries outcomes = run at hfinish hat hmax
  obtain ⟨node, state, executions⟩ := run
  obtain rfl : node = .finish := by
    cases node with
    | finish => rfl
    | execute | validate | decide | retry | fail => cases hfinish
  obtain ⟨hexec, hle, hsettled⟩ := hat
  simp only at hexec hle hsettled hmax
  obtain rfl := hexec
  refine ⟨Nat.succ_pos _, hfinish, by simp only; omega, ?_, ?_, ?_⟩
  · intro hanswered
    rcases hsettled with ⟨r, evidence, hlast, hresponse, _⟩ | ⟨_, _, hresponse⟩
    · have hfinal : finalResponse state = validateNode r evidence := by
        simp [finalResponse, hresponse]
      simp only [hfinal] at hanswered ⊢
      exact ⟨r, evidence, hlast, rfl, validateNode_answered hanswered⟩
    · simp [finalResponse, hresponse, failedResponse] at hanswered
  · intro error hraised
    rcases hsettled with ⟨r, evidence, hlast, _, _⟩ | ⟨_, _, hresponse⟩
    · simp only [Nat.add_sub_cancel] at hraised
      rw [hraised] at hlast
      cases hlast
    · simp [finalResponse, hresponse, failedResponse]
  · rcases hsettled with ⟨r, evidence, _, hresponse, h | h⟩ | ⟨_, _, hresponse⟩
    · simp [finalResponse, hresponse, h]
    · simp [finalResponse, hresponse, h]
    · simp [finalResponse, hresponse, failedResponse]

end GroundGraph.Answering

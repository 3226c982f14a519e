import GroundGraph.Api.QueryRun

/-! Which runs of `POST /v1/query` are closed with the right outcome, for every response of
the workflow and every point of failure.
-/

set_option autoImplicit false

namespace GroundGraph.Api

open GroundGraph.Execution GroundGraph.Retrieval

def EndsTerminal (runId : UUID) (runs : RunTable) : Prop :=
  ∃ row status, runs.get? runId = some row ∧ row.status = ExecutionRunStatus.value status ∧
    status.isTerminal = true

/-- The run is recorded as SUCCEEDED with the output, and the response is returned. -/
def RecordsSuccess (runId : UUID) (result : QueryResponse) (closed : RunTable × HttpAnswer) :
    Prop :=
  closed.2 = .ok (vectorQueryResponse runId result) ∧
    ∃ row, closed.1.get? runId = some row ∧ row.status = "succeeded" ∧
      row.output = outputDocument result

/-- Neither the transition to RUNNING nor the workflow nor the database at the recording of
the output raises. -/
def Undisturbed (env : Surroundings) (result : QueryResponse) : Prop :=
  env.toRunning = .none ∧ env.workflow = .returned result ∧ env.recording = .none

structure ClosedRight (env : Surroundings) (runId : UUID) (closed : RunTable × HttpAnswer) :
    Prop where
  succeeded : ∀ result, Undisturbed env result → RecordsSuccess runId result closed
  failed : (¬ ∃ result, Undisturbed env result) → EndsTerminal runId closed.1

def Raised.isException : Raised → Bool
  | .exception _ => true
  | .cancelled => false

def Fault.commits : Fault → Bool
  | .none => true
  | .raises _ committed _ => committed

def Fault.usable : Fault → Bool
  | .none => true
  | .raises _ _ usable => usable

def Fault.result : Fault → Except Raised Unit
  | .none => .ok ()
  | .raises error _ _ => .error error

/-- Without a failure: no citation. With one: an exception, raised with the run committed as
RUNNING and the session usable, and a handler whose own update is committed; or anything
raised after the commit of SUCCEEDED. -/
def ClosesRun (env : Surroundings) : Prop :=
  match env.toRunning with
  | .raises error committed usable =>
    error.isException = true ∧ committed = true ∧ usable = true ∧ env.failing.commits = true
  | .none =>
    match env.workflow with
    | .raised error => error.isException = true ∧ env.failing.commits = true
    | .returned result =>
      if result.citations = [] then
        match env.recording with
        | .none => True
        | .raises error committed usable => committed = true ∨
          (error.isException = true ∧ usable = true ∧ env.failing.commits = true)
      else env.recording ≠ .none ∧ env.failing.commits = true

variable {env : Surroundings} {call : QueryCall} {s : Session} {r : RunRow}

theorem endsTerminal_iff {runId : UUID} {runs : RunTable} {row : RunRow}
    {status : ExecutionRunStatus} (hget : runs.get? runId = some row)
    (hstatus : row.status = status.value) :
    EndsTerminal runId runs ↔ status.isTerminal = true := by
  constructor
  · rintro ⟨row', status', hget', hstatus', hterm⟩
    rw [hget] at hget'
    obtain rfl := Option.some.inj hget'
    rw [hstatus] at hstatus'
    rw [ExecutionRunStatus.value_injective _ _ hstatus']
    exact hterm
  · intro hterm
    exact ⟨row, status, hget, hstatus, hterm⟩

theorem commitUpdate_accepted (env : Surroundings) {u : RunUpdate} {output : Option JsonObject}
    (husable : s.usable = true) (hallowed : u.newStatus ∈ allowedRunTransitions u.expectedStatus)
    (hout : snapshotOptional u.output = .ok output) (hget : s.runs.get? u.runId = some r)
    (hstatus : r.status = u.expectedStatus.value) (now : Instant) (fault : Fault) :
    ∃ s', commitUpdate env s u now fault = (s', fault.result) ∧ s'.usable = fault.usable ∧
      s'.runs.get? u.runId = some (if fault.commits then u.write output now r else r) := by
  have hwritten : (s.runs.modifyAt u.runId (u.write output now) (u.write_runId output now)).get?
      u.runId = some (u.write output now r) := by
    rw [KeyedTable.get?_modifyAt, if_pos rfl, hget, Option.map_some]
  simp only [commitUpdate, husable, Bool.true_eq_false, if_false,
    updateRunStatus_of_match hallowed hout hget hstatus]
  cases fault with
  | none => exact ⟨_, rfl, rfl, hwritten⟩
  | raises error committed usable =>
    refine ⟨_, rfl, rfl, ?_⟩
    cases committed with
    | true => exact hwritten
    | false => exact hget

theorem commitUpdate_refused {u : RunUpdate} {now : Instant} {fault : Fault}
    (h : s.usable = false ∨ ∃ e, updateRunStatus s.runs u now (s.runs.get? u.runId) = .error e) :
    ∃ text, commitUpdate env s u now fault = (s, .error (.exception text)) := by
  unfold commitUpdate
  by_cases husable : s.usable = false
  · exact ⟨_, if_pos husable⟩
  · obtain ⟨e, he⟩ := h.resolve_left husable
    rw [if_neg husable, he]
    exact ⟨_, rfl⟩

theorem allowed_running : ExecutionRunStatus.running ∈ allowedRunTransitions .pending := by decide

theorem allowed_succeeded : ExecutionRunStatus.succeeded ∈ allowedRunTransitions .running := by
  decide

theorem allowed_failed : ExecutionRunStatus.failed ∈ allowedRunTransitions .running := by decide

theorem closeRun_cancelled {s' : Session} (hrun : runQuery env call s = (s', .error .cancelled)) :
    (closeRun env call s).1 = s'.runs := by
  simp [closeRun, hrun]

theorem closeRun_exception_fst {s' : Session} {text : String}
    (hrun : runQuery env call s = (s', .error (.exception text))) :
    (closeRun env call s).1 =
      (commitUpdate env s' (failedUpdate call text) call.finishedAt env.failing).1.runs := by
  simp only [closeRun, hrun]
  split
  · rename_i s'' hcommit
    rw [hcommit]
  · rename_i s'' error hcommit
    rw [hcommit]

theorem endsTerminal_failing_iff (env : Surroundings) {u : RunUpdate} (hexpected : u.expectedStatus = .running)
    (hnew : u.newStatus = .failed) (hout : u.output = none) (hget : s.runs.get? u.runId = some r)
    {status : ExecutionRunStatus} (hstatus : r.status = status.value) (now : Instant)
    (fault : Fault) :
    EndsTerminal u.runId (commitUpdate env s u now fault).1.runs ↔ status.isTerminal = true ∨
      (s.usable = true ∧ status = .running ∧ fault.commits = true) := by
  by_cases haccepted : s.usable = true ∧ status = .running
  · obtain ⟨husable, rfl⟩ := haccepted
    have hallowed : u.newStatus ∈ allowedRunTransitions u.expectedStatus := by
      rw [hexpected, hnew]
      exact allowed_failed
    have hsnapshot : snapshotOptional u.output = .ok none := by rw [hout]; rfl
    rw [← hexpected] at hstatus
    obtain ⟨s', hcommit, _, hafter⟩ := commitUpdate_accepted env husable hallowed hsnapshot hget
      hstatus now fault
    rw [hcommit]
    cases hcommits : fault.commits with
    | true =>
      rw [hcommits] at hafter
      have hfailed : (u.write none now r).status = ExecutionRunStatus.failed.value :=
        congrArg ExecutionRunStatus.value hnew
      rw [endsTerminal_iff hafter hfailed]
      simp [ExecutionRunStatus.isTerminal, husable]
    | false =>
      rw [hcommits] at hafter
      rw [hexpected] at hstatus
      rw [endsTerminal_iff hafter hstatus]
      simp
  · have hrefused : ∃ text, commitUpdate env s u now fault = (s, .error (.exception text)) := by
      apply commitUpdate_refused
      by_cases husable : s.usable = false
      · exact Or.inl husable
      · right
        refine updateRunStatus_of_other hget ?_ _ _
        intro hsame
        rw [hstatus, hexpected] at hsame
        exact haccepted ⟨by simpa using husable, ExecutionRunStatus.value_injective _ _ hsame⟩
    obtain ⟨text, hcommit⟩ := hrefused
    rw [hcommit, endsTerminal_iff hget hstatus]
    constructor
    · exact Or.inl
    · rintro (hterm | ⟨husable, hrunning, _⟩)
      · exact hterm
      · exact absurd ⟨husable, hrunning⟩ haccepted

theorem closeRun_exception_iff {s' : Session} {text : String}
    (hrun : runQuery env call s = (s', .error (.exception text)))
    (hget : s'.runs.get? call.runId = some r) {status : ExecutionRunStatus}
    (hstatus : r.status = status.value) :
    EndsTerminal call.runId (closeRun env call s).1 ↔ status.isTerminal = true ∨
      (s'.usable = true ∧ status = .running ∧ env.failing.commits = true) := by
  rw [closeRun_exception_fst hrun]
  exact endsTerminal_failing_iff env (show (failedUpdate call text).expectedStatus = _ from rfl)
    rfl rfl hget hstatus call.finishedAt env.failing

theorem endsTerminal_raised_iff {s' : Session} {error : Raised}
    (hrun : runQuery env call s = (s', .error error))
    (hget : s'.runs.get? call.runId = some r) {status : ExecutionRunStatus}
    (hstatus : r.status = status.value) :
    EndsTerminal call.runId (closeRun env call s).1 ↔ status.isTerminal = true ∨
      (error.isException = true ∧ s'.usable = true ∧ status = .running ∧
        env.failing.commits = true) := by
  cases error with
  | cancelled =>
    rw [closeRun_cancelled hrun, endsTerminal_iff hget hstatus]
    simp [Raised.isException]
  | exception text =>
    rw [closeRun_exception_iff hrun hget hstatus]
    simp [Raised.isException]

theorem toRunning_accepted (env : Surroundings) (call : QueryCall) (husable : s.usable = true)
    (hget : s.runs.get? call.runId = some r) (hpending : r.status = "pending") :
    ∃ s' r', commitUpdate env s (toRunningUpdate call) call.runningAt env.toRunning =
        (s', env.toRunning.result) ∧ s'.usable = env.toRunning.usable ∧
      s'.runs.get? call.runId = some r' ∧
      r'.status = (if env.toRunning.commits then ExecutionRunStatus.running else .pending).value := by
  obtain ⟨s', hcommit, husable', hafter⟩ := commitUpdate_accepted env
    (u := toRunningUpdate call) husable allowed_running rfl hget hpending call.runningAt
    env.toRunning
  refine ⟨s', _, hcommit, husable', hafter, ?_⟩
  cases env.toRunning.commits with
  | true => rfl
  | false => exact hpending

theorem recording_accepted (env : Surroundings) (call : QueryCall) {result : QueryResponse}
    (huncited : result.citations = []) (husable : s.usable = true)
    (hget : s.runs.get? call.runId = some r) (hrunning : r.status = "running") :
    ∃ s' r', commitUpdate env s (succeededUpdate call result) call.finishedAt env.recording =
        (s', env.recording.result) ∧ s'.usable = env.recording.usable ∧
      s'.runs.get? call.runId = some r' ∧
      r'.status =
        (if env.recording.commits then ExecutionRunStatus.succeeded else .running).value ∧
      (env.recording.commits = true → r'.output = outputDocument result) := by
  have hout : snapshotOptional (succeededUpdate call result).output =
      .ok (some (outputDocument result)) := by
    simp [succeededUpdate, runOutput_of_uncited huncited, snapshotOptional]
  obtain ⟨s', hcommit, husable', hafter⟩ := commitUpdate_accepted env
    (u := succeededUpdate call result) husable allowed_succeeded hout hget hrunning
    call.finishedAt env.recording
  refine ⟨s', _, hcommit, husable', hafter, ?_⟩
  cases env.recording.commits with
  | true => exact ⟨rfl, fun _ => rfl⟩
  | false => exact ⟨hrunning, fun h => by cases h⟩

/-- The snapshot of a cited output raises before the database is asked. -/
theorem recording_refused (env : Surroundings) (call : QueryCall) {result : QueryResponse}
    (hcited : result.citations ≠ []) (s : Session) :
    ∃ text, commitUpdate env s (succeededUpdate call result) call.finishedAt env.recording =
      (s, .error (.exception text)) := by
  apply commitUpdate_refused
  right
  cases hupdate : updateRunStatus s.runs (succeededUpdate call result) call.finishedAt
    (s.runs.get? (succeededUpdate call result).runId) with
  | error e => exact ⟨e, rfl⟩
  | ok updated =>
    obtain ⟨_, output, hout, _⟩ := updateRunStatus_ok hupdate
    have hraises := runOutput_of_cited hcited
    simp only [succeededUpdate] at hout
    rw [hraises] at hout
    cases hout

theorem closedRight_of_disturbed {runId : UUID} {closed : RunTable × HttpAnswer}
    (h : ¬ ∃ result, Undisturbed env result) :
    ClosedRight env runId closed ↔ EndsTerminal runId closed.1 :=
  ⟨fun hclosed => hclosed.failed h, fun hend => ⟨fun result hr => absurd ⟨result, hr⟩ h,
    fun _ => hend⟩⟩

theorem closed_toRunning_raises {s₁ : Session} {r₁ : RunRow} {error : Raised}
    {committed usable : Bool} (hfault : env.toRunning = .raises error committed usable)
    (hrun : runQuery env call s = (s₁, .error error)) (husable : s₁.usable = usable)
    (hget : s₁.runs.get? call.runId = some r₁)
    (hstatus : r₁.status = (if committed then ExecutionRunStatus.running else .pending).value) :
    ClosedRight env call.runId (closeRun env call s) ↔ ClosesRun env := by
  have hdisturbed : ¬ ∃ result, Undisturbed env result := by
    rintro ⟨result, hnone, _⟩
    rw [hfault] at hnone
    cases hnone
  rw [closedRight_of_disturbed hdisturbed, endsTerminal_raised_iff hrun hget hstatus, husable]
  cases committed <;> simp [ClosesRun, hfault, ExecutionRunStatus.isTerminal]

theorem closed_workflow_raises {s₁ : Session} {r₁ : RunRow} {error : Raised}
    (hfault : env.toRunning = .none) (hworkflow : env.workflow = .raised error)
    (hrun : runQuery env call s = (s₁, .error error)) (husable : s₁.usable = true)
    (hget : s₁.runs.get? call.runId = some r₁)
    (hrunning : r₁.status = ExecutionRunStatus.running.value) :
    ClosedRight env call.runId (closeRun env call s) ↔ ClosesRun env := by
  have hdisturbed : ¬ ∃ result, Undisturbed env result := by
    rintro ⟨result, _, hreturned, _⟩
    rw [hworkflow] at hreturned
    cases hreturned
  rw [closedRight_of_disturbed hdisturbed, endsTerminal_raised_iff hrun hget hrunning]
  simp [ClosesRun, hfault, hworkflow, husable, ExecutionRunStatus.isTerminal]

theorem closed_uncited {s₂ : Session} {r₂ : RunRow} {result : QueryResponse}
    (hfault : env.toRunning = .none) (hworkflow : env.workflow = .returned result)
    (huncited : result.citations = [])
    (hrun : runQuery env call s =
      (s₂, match env.recording.result with | .ok () => .ok result | .error error => .error error))
    (husable : s₂.usable = env.recording.usable) (hget : s₂.runs.get? call.runId = some r₂)
    (hstatus : r₂.status =
      (if env.recording.commits then ExecutionRunStatus.succeeded else .running).value)
    (houtput : env.recording.commits = true → r₂.output = outputDocument result) :
    ClosedRight env call.runId (closeRun env call s) ↔ ClosesRun env := by
  cases hrecording : env.recording with
  | none =>
    rw [hrecording] at hrun hstatus houtput
    have hclosed : closeRun env call s =
        (s₂.runs, .ok (vectorQueryResponse call.runId result)) := by
      simp only [closeRun, hrun, Fault.result]
    refine iff_of_true ⟨?_, ?_⟩ (by simp [ClosesRun, hfault, hworkflow, huncited, hrecording])
    · rintro result' ⟨_, hreturned, _⟩
      rw [hworkflow] at hreturned
      obtain rfl := WorkflowOutcome.returned.inj hreturned
      rw [hclosed]
      exact ⟨rfl, r₂, hget, hstatus, houtput rfl⟩
    · intro hdisturbed
      exact absurd ⟨result, hfault, hworkflow, hrecording⟩ hdisturbed
  | raises error committed usable =>
    rw [hrecording] at hrun hstatus husable
    have hdisturbed : ¬ ∃ result, Undisturbed env result := by
      rintro ⟨_, _, _, hnone⟩
      rw [hrecording] at hnone
      cases hnone
    rw [closedRight_of_disturbed hdisturbed, endsTerminal_raised_iff hrun hget hstatus, husable]
    cases committed <;>
      simp [ClosesRun, hfault, hworkflow, huncited, hrecording, Fault.commits, Fault.usable,
        ExecutionRunStatus.isTerminal]

/-- A response with citations never gets recorded. -/
theorem closed_cited {s₁ : Session} {r₁ : RunRow} {result : QueryResponse} {text : String}
    (hfault : env.toRunning = .none) (hworkflow : env.workflow = .returned result)
    (hcited : result.citations ≠ [])
    (hrun : runQuery env call s = (s₁, .error (.exception text))) (husable : s₁.usable = true)
    (hget : s₁.runs.get? call.runId = some r₁)
    (hrunning : r₁.status = ExecutionRunStatus.running.value) :
    ClosedRight env call.runId (closeRun env call s) ↔ ClosesRun env := by
  cases hrecording : env.recording with
  | none =>
    refine iff_of_false ?_ (by simp [ClosesRun, hfault, hworkflow, hcited, hrecording])
    intro hclosed
    obtain ⟨hanswer, _⟩ := hclosed.succeeded result ⟨hfault, hworkflow, hrecording⟩
    simp only [closeRun, hrun] at hanswer
    split at hanswer <;> cases hanswer
  | raises error committed usable =>
    have hdisturbed : ¬ ∃ result, Undisturbed env result := by
      rintro ⟨_, _, _, hnone⟩
      rw [hrecording] at hnone
      cases hnone
    rw [closedRight_of_disturbed hdisturbed, endsTerminal_raised_iff hrun hget hrunning]
    simp [ClosesRun, hfault, hworkflow, hcited, hrecording, husable, Raised.isException,
      ExecutionRunStatus.isTerminal]

theorem closeRun_closed_iff (husable : s.usable = true) (hget : s.runs.get? call.runId = some r)
    (hpending : r.status = "pending") :
    ClosedRight env call.runId (closeRun env call s) ↔ ClosesRun env := by
  obtain ⟨s₁, r₁, hcommit₁, husable₁, hget₁, hstatus₁⟩ :=
    toRunning_accepted env call husable hget hpending
  cases hfault : env.toRunning with
  | raises error committed usable =>
    rw [hfault] at hcommit₁ husable₁ hstatus₁
    have hrun : runQuery env call s = (s₁, .error error) := by
      simp only [runQuery, hfault, hcommit₁, Fault.result]
    exact closed_toRunning_raises hfault hrun husable₁ hget₁ hstatus₁
  | none =>
    rw [hfault] at hcommit₁ husable₁ hstatus₁
    cases hworkflow : env.workflow with
    | raised error =>
      have hrun : runQuery env call s = (s₁, .error error) := by
        simp only [runQuery, hfault, hcommit₁, Fault.result, hworkflow]
      exact closed_workflow_raises hfault hworkflow hrun husable₁ hget₁ hstatus₁
    | returned result =>
      by_cases hcited : result.citations = []
      · obtain ⟨s₂, r₂, hcommit₂, husable₂, hget₂, hstatus₂, houtput₂⟩ :=
          recording_accepted env call hcited husable₁ hget₁ hstatus₁
        have hrun : runQuery env call s = (s₂, match env.recording.result with
            | .ok () => .ok result
            | .error error => .error error) := by
          simp only [runQuery, hfault, hcommit₁, Fault.result, hworkflow, hcommit₂]
          cases env.recording <;> rfl
        exact closed_uncited hfault hworkflow hcited hrun husable₂ hget₂ hstatus₂ houtput₂
      · obtain ⟨text, hcommit₂⟩ := recording_refused env call hcited s₁
        have hrun : runQuery env call s = (s₁, .error (.exception text)) := by
          simp only [runQuery, hfault, hcommit₁, Fault.result, hworkflow, hcommit₂]
        exact closed_cited hfault hworkflow hcited hrun husable₁ hget₁ hstatus₁

theorem createRun_of_fresh {runs : RunTable} {run : ExecutionRun}
    (hfresh : runs.get? run.runId = none) :
    ∃ created row, createRun runs run = .ok (created, row) ∧
      created.get? run.runId = some row ∧ row.status = run.status.value := by
  cases hcreate : createRun runs run with
  | ok result =>
    obtain ⟨created, row⟩ := result
    obtain ⟨hins, hid, hstatus, _⟩ := createRun_ok hcreate
    refine ⟨created, row, rfl, ?_, hstatus⟩
    rw [KeyedTable.get?_insert? hins, hid]
    exact if_pos rfl
  | error e =>
    have hnew := runs.get?_none_iff.mp hfresh
    simp [createRun, bind, Except.bind, KeyedTable.insert?, hnew, pure, Except.pure] at hcreate

theorem queryV1_created (env : Surroundings) (call : QueryCall) {runs : RunTable}
    (hfresh : runs.get? call.runId = none) :
    ∃ created row, queryV1 env call runs = closeRun env call ⟨created, true⟩ ∧
      created.get? call.runId = some row ∧ row.status = "pending" := by
  obtain ⟨created, row, hcreate, hget, hstatus⟩ :=
    createRun_of_fresh (show runs.get? (newRun call).runId = none from hfresh)
  exact ⟨created, row, by simp only [queryV1, hcreate], hget, hstatus⟩

/-- For every response and every point of failure. -/
theorem queryV1_closed_iff (env : Surroundings) (call : QueryCall) {runs : RunTable}
    (hfresh : runs.get? call.runId = none) :
    ClosedRight env call.runId (queryV1 env call runs) ↔ ClosesRun env := by
  obtain ⟨created, row, heq, hget, hpending⟩ := queryV1_created env call hfresh
  rw [heq]
  exact closeRun_closed_iff rfl hget hpending

def sampleCall : QueryCall :=
  { question := "Who?", principal := "p", tenantId := "t", runId := 1, indexVersionId := 2
    modelVersion := "m", startedAt := 0, runningAt := 1, finishedAt := 2 }

def answeredWith (citations : List Citation) : QueryResponse :=
  { executionRunId := 3, answer := some "Ada.".toList, status := .answered, citations := citations
    confidenceBand := .high, answerStatusConsistency := by decide }

def quietRun (result : QueryResponse) : Surroundings :=
  { toRunning := .none, workflow := .returned result, recording := .none, failing := .none
    str := fun _ => "", aborted := "" }

theorem queryV1_closed_iff_sample :
    ClosedRight (quietRun (answeredWith [])) 1
      (queryV1 (quietRun (answeredWith [])) sampleCall .empty) :=
  (queryV1_closed_iff (quietRun (answeredWith [])) sampleCall rfl).mpr trivial

/-- An answer with one citation is lost: the run ends FAILED and the client gets an error. -/
theorem not_closedRight_cited :
    ¬ ∀ (env : Surroundings) (call : QueryCall) (runs : RunTable),
      runs.get? call.runId = none → ClosedRight env call.runId (queryV1 env call runs) := by
  intro h
  have hclosed := h (quietRun (answeredWith [⟨4, 5, 6, "L1".toList, ["p"]⟩])) sampleCall .empty rfl
  obtain ⟨created, row, heq, hget, hpending⟩ := queryV1_created
    (quietRun (answeredWith [⟨4, 5, 6, "L1".toList, ["p"]⟩])) sampleCall
    (show KeyedTable.empty.get? sampleCall.runId = none from rfl)
  rw [heq, closeRun_closed_iff rfl hget hpending] at hclosed
  exact hclosed.1 rfl

end GroundGraph.Api

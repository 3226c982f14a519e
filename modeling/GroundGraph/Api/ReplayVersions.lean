import GroundGraph.Api.Replay
import GroundGraph.Versioning.Publication

/-! What a replay does instead of what its documentation says, for every interleaving and every
point of failure: it leaves the original alone, but the call of the workflow's graph is refused, so
that nothing is searched, and the new run fails.
-/

set_option autoImplicit false

namespace GroundGraph.Api

open GroundGraph.Execution GroundGraph.Retrieval GroundGraph.Versioning GroundGraph.Answering

/-- The replay searches, and the index version of the original; it leaves the original as it is,
and a new run that it creates ends in a terminal status. -/
structure ReplaysOriginal (original : ExecutionRun) (call : ReplayCall) (runs : RunTable)
    (done : Replayed) : Prop where
  searches : done.searches ≠ []
  version : ∀ searched ∈ done.searches, searched = original.indexVersionId
  unchanged : done.runs.get? call.runId = runs.get? call.runId
  closed : (done.runs.get? call.newRunId).isSome = true → EndsTerminal call.newRunId done.runs

/-- The version that is active for the index name of the original input when the execution looks
for it, and that the provider can search. -/
def ActiveAt (env : ReplaySurroundings) (call : ReplayCall) (original : ExecutionRun)
    (recorded : UUID) (i : Nat) : Prop :=
  call.tenantId ≠ "" ∧ ∃ arguments active, replayArguments original.input = some arguments ∧
    resolveActive (env.indexesAt i)
      (nameOrDefault arguments.2 (env.moments i).service.settings.defaultIndexName) = some active ∧
    active.embeddingModel = (env.moments i).service.embedModel ∧ active.versionId = recorded

def ReplaySurroundings.workflowError (env : ReplaySurroundings) : Raised :=
  match env.interrupted with
  | some (_, error) => error
  | none => .exception env.noThread

/-- Once the run is created: an exception, raised with the run committed as RUNNING and the
session usable, and a handler whose own update is committed. -/
def ClosesAttempt (env : ReplaySurroundings) : Prop :=
  match env.toRunning with
  | .raises error committed usable =>
    error.isException = true ∧ committed = true ∧ usable = true ∧ env.failing.commits = true
  | .none => env.workflowError.isException = true ∧ env.failing.commits = true

/-- A creation that raises is not committed. -/
def ClosesReplay (env : ReplaySurroundings) : Prop :=
  match env.creating with
  | .raises _ committed _ => committed = false
  | .none => ClosesAttempt env

/-! ## Rows that a call leaves alone -/

theorem createRun_get?_of_ne {t t' : RunTable} {run : ExecutionRun} {row : RunRow} {id : UUID}
    (h : createRun t run = .ok (t', row)) (hne : run.runId ≠ id) : t'.get? id = t.get? id := by
  obtain ⟨hins, hid, _⟩ := createRun_ok h
  rw [KeyedTable.get?_insert? hins, hid, if_neg (Ne.symm hne)]

theorem updateRunStatus_get?_of_ne {t t' : RunTable} {u : RunUpdate} {now : Instant}
    {existing : Option RunRow} {row : RunRow} {id : UUID}
    (h : updateRunStatus t u now existing = .ok (t', row)) (hne : u.runId ≠ id) :
    t'.get? id = t.get? id := by
  obtain ⟨_, output, _, hret⟩ := updateRunStatus_ok h
  obtain ⟨_, _, _, rfl, _⟩ := KeyedTable.updateReturning_some_iff.mp hret
  rw [KeyedTable.get?_modifyAt, if_neg (Ne.symm hne)]

theorem apply_get?_of_ne {c : OtherCall} {id : UUID} (hne : c.runId ≠ id) (runs : RunTable) :
    (c.apply runs).get? id = runs.get? id := by
  cases c with
  | create run =>
    simp only [OtherCall.apply]
    split
    · rename_i created row hcreate
      exact createRun_get?_of_ne hcreate hne
    · rfl
  | update u now =>
    simp only [OtherCall.apply]
    split
    · rename_i updated row hupdate
      exact updateRunStatus_get?_of_ne hupdate hne
    · rfl

theorem updateRunStatus_of_terminal {t : RunTable} {u : RunUpdate} {row : RunRow}
    {status : ExecutionRunStatus} (hget : t.get? u.runId = some row)
    (hstatus : row.status = status.value) (hterm : status.isTerminal = true) (now : Instant)
    (existing : Option RunRow) : ∃ e, updateRunStatus t u now existing = .error e := by
  cases h : updateRunStatus t u now existing with
  | error e => exact ⟨e, rfl⟩
  | ok updated =>
    obtain ⟨hallowed, output, _, hret⟩ := updateRunStatus_ok h
    obtain ⟨r, hr, hmatch, _⟩ := KeyedTable.updateReturning_some_iff.mp hret
    rw [hget] at hr
    obtain rfl := Option.some.inj hr
    have hsame : u.expectedStatus = status :=
      ExecutionRunStatus.value_injective _ _ ((of_decide_eq_true hmatch).symm.trans hstatus)
    have hway := (run_terminal_iff status).mpr hterm u.newStatus
    rw [← hsame] at hway
    exact absurd hallowed (of_decide_eq_false hway)

theorem apply_get?_of_terminal {runs : RunTable} {id : UUID} {row : RunRow}
    {status : ExecutionRunStatus} (hget : runs.get? id = some row)
    (hstatus : row.status = status.value) (hterm : status.isTerminal = true) (c : OtherCall) :
    (c.apply runs).get? id = some row := by
  by_cases hid : c.runId = id
  · cases c with
    | create run =>
      simp only [OtherCall.apply]
      split
      · rename_i created _ hcreate
        obtain ⟨hins, _⟩ := createRun_ok hcreate
        exact KeyedTable.get?_of_insert? hins hget
      · exact hget
    | update u now =>
      rw [← show u.runId = id from hid] at hget
      obtain ⟨e, he⟩ := updateRunStatus_of_terminal hget hstatus hterm now (runs.get? u.runId)
      simp only [OtherCall.apply, he]
      exact (congrArg runs.get? hid).symm.trans hget
  · exact (apply_get?_of_ne hid runs).trans hget

theorem after_get?_of_ne {id : UUID} {calls : List OtherCall} (hne : ∀ c ∈ calls, c.runId ≠ id)
    (s : Session) : (s.after calls).runs.get? id = s.runs.get? id := by
  obtain ⟨runs, usable⟩ := s
  simp only [Session.after]
  induction calls generalizing runs with
  | nil => rfl
  | cons c calls ih =>
    rw [List.foldl_cons, ih (fun c hc => hne c (List.mem_cons_of_mem _ hc))]
    exact apply_get?_of_ne (hne c List.mem_cons_self) runs

theorem after_get?_of_terminal {s : Session} {id : UUID} {row : RunRow}
    {status : ExecutionRunStatus} (hget : s.runs.get? id = some row)
    (hstatus : row.status = status.value) (hterm : status.isTerminal = true)
    (calls : List OtherCall) : (s.after calls).runs.get? id = some row := by
  obtain ⟨runs, usable⟩ := s
  simp only [Session.after]
  induction calls generalizing runs with
  | nil => exact hget
  | cons c calls ih =>
    rw [List.foldl_cons]
    exact ih _ (apply_get?_of_terminal hget hstatus hterm c)

@[simp] theorem after_usable (s : Session) (calls : List OtherCall) :
    (s.after calls).usable = s.usable := rfl

theorem commitUpdate_get?_of_ne (env : Surroundings) {s : Session} {u : RunUpdate} {id : UUID}
    (hne : u.runId ≠ id) (now : Instant) (fault : Fault) :
    (commitUpdate env s u now fault).1.runs.get? id = s.runs.get? id := by
  unfold commitUpdate
  split
  · rfl
  · split
    · rfl
    · rename_i updated _ hupdate
      have hkept := updateRunStatus_get?_of_ne hupdate hne
      cases fault with
      | none => exact hkept
      | raises error committed usable =>
        cases committed with
        | true => exact hkept
        | false => rfl

variable {env : ReplaySurroundings} {call : ReplayCall} {original : ExecutionRun} {runs : RunTable}

section Unchanged

variable (env original)

variable {id : UUID} {row : RunRow} {status : ExecutionRunStatus}

theorem commitCreate_get?_of_ne (hne : call.newRunId ≠ id) :
    (env.commitCreate call original runs).1.runs.get? id = runs.get? id := by
  unfold ReplaySurroundings.commitCreate
  split
  · rfl
  · rename_i created _ hcreate
    have hkept := createRun_get?_of_ne hcreate hne
    cases env.creating with
    | none => exact hkept
    | raises error committed usable =>
      cases committed with
      | true => exact hkept
      | false => rfl

theorem attempt_get?_of_terminal {s : Session} (hne : call.newRunId ≠ id)
    (hget : s.runs.get? id = some row) (hstatus : row.status = status.value)
    (hterm : status.isTerminal = true) :
    (env.attempt call original s).session.runs.get? id = some row := by
  have hbefore := after_get?_of_terminal hget hstatus hterm env.beforeRunning
  rw [← commitUpdate_get?_of_ne (env.updating call original)
    (show (replayRunning call).runId ≠ id from hne) call.runningAt env.toRunning] at hbefore
  simp only [ReplaySurroundings.attempt]
  split
  · rename_i s' error hcommit
    rw [hcommit] at hbefore
    exact hbefore
  · rename_i s' hcommit
    rw [hcommit] at hbefore
    have hduring := after_get?_of_terminal hbefore hstatus hterm env.duringWorkflow
    split
    · exact hduring
    · rw [← commitUpdate_get?_of_ne (env.updating call original)
        (show (replaySucceeded call).runId ≠ id from hne) call.finishedAt env.recording] at hduring
      exact hduring

theorem close_get?_of_terminal {s : Session} (hne : call.newRunId ≠ id)
    (hget : s.runs.get? id = some row) (hstatus : row.status = status.value)
    (hterm : status.isTerminal = true) :
    (env.close call original s).runs.get? id = some row := by
  have hattempt := attempt_get?_of_terminal env original hne hget hstatus hterm
  simp only [ReplaySurroundings.close]
  split
  · exact hattempt
  · exact hattempt
  · rename_i text hresult
    have hbefore := after_get?_of_terminal hattempt hstatus hterm env.beforeFailing
    rw [← commitUpdate_get?_of_ne (env.updating call original)
      (show (replayFailed call text).runId ≠ id from hne) call.finishedAt env.failing] at hbefore
    split
    · rename_i s' hcommit
      rw [hcommit] at hbefore
      exact hbefore
    · rename_i s' error hcommit
      rw [hcommit] at hbefore
      exact hbefore

end Unchanged

theorem replayExecution_get?_of_terminal {id : UUID} {row : RunRow} {status : ExecutionRunStatus}
    (hget : runs.get? id = some row) (hstatus : row.status = status.value)
    (hterm : status.isTerminal = true) (hne : call.newRunId ≠ id) :
    (replayExecution env call runs).runs.get? id = some row := by
  have hbefore := after_get?_of_terminal (s := ⟨runs, true⟩) hget hstatus hterm env.beforeCreate
  unfold replayExecution
  split
  · exact hget
  · split
    · exact hget
    · split
      · exact hget
      · rename_i original _
        split
        · exact hget
        · rw [← commitCreate_get?_of_ne env original hne] at hbefore
          split
          · rename_i s error hcommit
            rw [hcommit] at hbefore
            exact hbefore
          · rename_i s hcommit
            rw [hcommit] at hbefore
            exact close_get?_of_terminal env original hne hbefore hstatus hterm

/-! ## The searches -/

theorem searchOf_eq_some_iff {recorded : UUID} {i : Nat} :
    env.searchOf call original i = some recorded ↔ ActiveAt env call original recorded i := by
  simp only [ReplaySurroundings.searchOf, Option.bind_eq_some_iff, searchedVersion_eq_some_iff,
    ActiveAt, resolveActive_eq_map_info, Option.map_eq_some_iff]
  constructor
  · rintro ⟨arguments, hargs, htenant, active, hactive, hmodel, hid⟩
    exact ⟨htenant, arguments, active.info, hargs, ⟨active, hactive, rfl⟩, hmodel, hid⟩
  · rintro ⟨htenant, arguments, _, hargs, ⟨active, hactive, rfl⟩, hmodel, hid⟩
    exact ⟨arguments, hargs, htenant, active, hactive, hmodel, hid⟩

theorem searchesOf_recorded_iff {recorded : UUID} {executions : Nat} :
    (∀ searched ∈ env.searchesOf call original executions, searched = some recorded) ↔
      ∀ i < executions, (env.moments i).port.reachesSearch = true →
        ActiveAt env call original recorded i := by
  simp only [ReplaySurroundings.searchesOf, List.forall_mem_map, List.mem_filter, List.mem_range,
    searchOf_eq_some_iff]
  exact ⟨fun h i hi hport => h i ⟨hi, hport⟩, fun h i hi => h i hi.1 hi.2⟩

theorem queryGraph_refuses : queryGraph.accepts ainvokeThread = false := rfl

theorem workflowOutcome_eq :
    env.workflowOutcome call original = .raised env.workflowError := by
  unfold ReplaySurroundings.workflowOutcome ReplaySurroundings.workflowError
  cases env.interrupted with
  | none => simp [queryGraph_refuses]
  | some interruption => rfl

theorem searches_eq_nil : env.searches call original = [] := by
  simp [ReplaySurroundings.searches, ReplaySurroundings.workflowRun, queryGraph_refuses, graphStart,
    ReplaySurroundings.searchesOf]

theorem close_searches (s : Session) : (env.close call original s).searches = [] := by
  simp only [ReplaySurroundings.close, searches_eq_nil, ite_self]
  split
  · rfl
  · rfl
  · split <;> rfl

/-- However the replay goes, it searches nothing. -/
theorem replayExecution_searches : (replayExecution env call runs).searches = [] := by
  unfold replayExecution
  split
  · rfl
  · split
    · rfl
    · split
      · rfl
      · split
        · rfl
        · split
          · rfl
          · exact close_searches _

/-! ## How the new run ends -/

section Closing

variable (original)

variable {s : Session} {r : RunRow}

theorem otherCalls_apart (hothers : ∀ c ∈ env.otherCalls, c.runId ≠ call.newRunId) :
    (∀ c ∈ env.beforeCreate, c.runId ≠ call.newRunId) ∧
    (∀ c ∈ env.beforeRunning, c.runId ≠ call.newRunId) ∧
    (∀ c ∈ env.duringWorkflow, c.runId ≠ call.newRunId) ∧
    ∀ c ∈ env.beforeFailing, c.runId ≠ call.newRunId := by
  simp only [ReplaySurroundings.otherCalls, List.mem_append, or_imp, forall_and] at hothers
  obtain ⟨⟨⟨hcreate, hrunning⟩, hduring⟩, hfailing⟩ := hothers
  exact ⟨hcreate, hrunning, hduring, hfailing⟩

theorem replayRunning_accepted (husable : s.usable = true)
    (hget : s.runs.get? call.newRunId = some r) (hpending : r.status = "pending")
    (hothers : ∀ c ∈ env.otherCalls, c.runId ≠ call.newRunId) :
    ∃ s' r', commitUpdate (env.updating call original) (s.after env.beforeRunning)
        (replayRunning call) call.runningAt env.toRunning = (s', env.toRunning.result) ∧
      s'.usable = env.toRunning.usable ∧ s'.runs.get? call.newRunId = some r' ∧
      r'.status = (if env.toRunning.commits then ExecutionRunStatus.running else .pending).value := by
  obtain ⟨-, hbefore, -, -⟩ := otherCalls_apart hothers
  obtain ⟨s', hcommit, husable', hafter⟩ := commitUpdate_accepted (env.updating call original)
    (u := replayRunning call) (s := s.after env.beforeRunning) husable allowed_running rfl
    ((after_get?_of_ne hbefore s).trans hget) hpending call.runningAt env.toRunning
  refine ⟨s', _, hcommit, husable', hafter, ?_⟩
  cases env.toRunning.commits with
  | true => rfl
  | false => exact hpending

theorem attempt_of_raises {error : Raised} {committed usable : Bool}
    (hrunning : env.toRunning = .raises error committed usable) (husable : s.usable = true)
    (hget : s.runs.get? call.newRunId = some r) (hpending : r.status = "pending")
    (hothers : ∀ c ∈ env.otherCalls, c.runId ≠ call.newRunId) :
    ∃ s' r', env.attempt call original s = ⟨s', false, .error error⟩ ∧ s'.usable = usable ∧
      s'.runs.get? call.newRunId = some r' ∧
      r'.status = (if committed then ExecutionRunStatus.running else .pending).value := by
  obtain ⟨s', r', hcommit, husable', hget', hstatus'⟩ :=
    replayRunning_accepted original husable hget hpending hothers
  rw [hrunning] at hcommit husable' hstatus'
  refine ⟨s', r', ?_, husable', hget', hstatus'⟩
  simp only [ReplaySurroundings.attempt, hrunning, hcommit, Fault.result]

theorem attempt_of_invoked (hrunning : env.toRunning = .none) (husable : s.usable = true)
    (hget : s.runs.get? call.newRunId = some r) (hpending : r.status = "pending")
    (hothers : ∀ c ∈ env.otherCalls, c.runId ≠ call.newRunId) :
    ∃ s' r', env.attempt call original s = ⟨s', true, .error env.workflowError⟩ ∧
      s'.usable = true ∧ s'.runs.get? call.newRunId = some r' ∧
      r'.status = ExecutionRunStatus.running.value := by
  obtain ⟨-, -, hduring, -⟩ := otherCalls_apart hothers
  obtain ⟨s', r', hcommit, husable', hget', hstatus'⟩ :=
    replayRunning_accepted original husable hget hpending hothers
  rw [hrunning] at hcommit husable' hstatus'
  have hworkflow : (env.updating call original).workflow = .raised env.workflowError :=
    workflowOutcome_eq
  refine ⟨s'.after env.duringWorkflow, r', ?_, husable',
    (after_get?_of_ne hduring s').trans hget', hstatus'⟩
  simp only [ReplaySurroundings.attempt, hrunning, hcommit, Fault.result, hworkflow]

theorem close_raised_iff {s' : Session} {r' : RunRow} {invoked : Bool} {error : Raised}
    {status : ExecutionRunStatus}
    (hattempt : env.attempt call original s = ⟨s', invoked, .error error⟩)
    (hget : s'.runs.get? call.newRunId = some r') (hstatus : r'.status = status.value)
    (hothers : ∀ c ∈ env.otherCalls, c.runId ≠ call.newRunId) :
    EndsTerminal call.newRunId (env.close call original s).runs ↔ status.isTerminal = true ∨
      (error.isException = true ∧ s'.usable = true ∧ status = .running ∧
        env.failing.commits = true) := by
  cases error with
  | cancelled =>
    have hclose : (env.close call original s).runs = s'.runs := by
      simp only [ReplaySurroundings.close, hattempt]
    rw [hclose, endsTerminal_iff hget hstatus]
    simp [Raised.isException]
  | exception text =>
    obtain ⟨-, -, -, hfailing⟩ := otherCalls_apart hothers
    have hclose : (env.close call original s).runs =
        (commitUpdate (env.updating call original) (s'.after env.beforeFailing)
          (replayFailed call text) call.finishedAt env.failing).1.runs := by
      simp only [ReplaySurroundings.close, hattempt]
      split
      · rename_i s'' hcommit
        rw [hcommit]
      · rename_i s'' error hcommit
        rw [hcommit]
    have hended := endsTerminal_failing_iff (env.updating call original)
      (show (replayFailed call text).expectedStatus = .running from rfl) rfl rfl
      ((after_get?_of_ne hfailing s').trans hget) hstatus call.finishedAt env.failing
    have hended : EndsTerminal call.newRunId _ ↔ _ := hended
    rw [hclose, hended]
    simp [Raised.isException]

theorem commitUpdate_isSome (env : Surroundings) {id : UUID} (u : RunUpdate) (now : Instant)
    (fault : Fault) (hsome : (s.runs.get? id).isSome = true) :
    ((commitUpdate env s u now fault).1.runs.get? id).isSome = true := by
  unfold commitUpdate
  split
  · exact hsome
  · split
    · exact hsome
    · rename_i updated _ hupdate
      obtain ⟨_, output, _, hret⟩ := updateRunStatus_ok hupdate
      obtain ⟨_, _, _, rfl, _⟩ := KeyedTable.updateReturning_some_iff.mp hret
      have hupdated := (KeyedTable.isSome_get?_modifyAt s.runs u.runId (u.write output now)
        (u.write_runId output now) id).trans hsome
      cases fault with
      | none => exact hupdated
      | raises error committed usable =>
        cases committed with
        | true => exact hupdated
        | false => exact hsome

theorem close_isSome {s' : Session} {r' : RunRow} {invoked : Bool} {result : Except Raised Unit}
    (hattempt : env.attempt call original s = ⟨s', invoked, result⟩)
    (hget : s'.runs.get? call.newRunId = some r')
    (hothers : ∀ c ∈ env.otherCalls, c.runId ≠ call.newRunId) :
    ((env.close call original s).runs.get? call.newRunId).isSome = true := by
  obtain ⟨-, -, -, hfailing⟩ := otherCalls_apart hothers
  have hsome : (s'.runs.get? call.newRunId).isSome = true := by rw [hget, Option.isSome_some]
  simp only [ReplaySurroundings.close, hattempt]
  split
  · exact hsome
  · exact hsome
  · rename_i text
    have hafter := commitUpdate_isSome (env.updating call original) (replayFailed call text)
      call.finishedAt env.failing
      ((congrArg Option.isSome (after_get?_of_ne hfailing s')).trans hsome)
    split
    · rename_i s'' hcommit
      rw [hcommit] at hafter
      exact hafter
    · rename_i s'' error hcommit
      rw [hcommit] at hafter
      exact hafter

theorem close_closed_iff (husable : s.usable = true) (hget : s.runs.get? call.newRunId = some r)
    (hpending : r.status = "pending") (hothers : ∀ c ∈ env.otherCalls, c.runId ≠ call.newRunId) :
    ((env.close call original s).runs.get? call.newRunId).isSome = true ∧
    (EndsTerminal call.newRunId (env.close call original s).runs ↔ ClosesAttempt env) := by
  cases hrunning : env.toRunning with
  | raises error committed usable =>
    obtain ⟨s', r', hattempt, husable', hget', hstatus'⟩ :=
      attempt_of_raises original hrunning husable hget hpending hothers
    refine ⟨close_isSome original hattempt hget' hothers, ?_⟩
    rw [close_raised_iff original hattempt hget' hstatus' hothers, husable']
    cases committed <;> simp [ClosesAttempt, hrunning, ExecutionRunStatus.isTerminal]
  | none =>
    obtain ⟨s', r', hattempt, husable', hget', hstatus'⟩ :=
      attempt_of_invoked original hrunning husable hget hpending hothers
    refine ⟨close_isSome original hattempt hget' hothers, ?_⟩
    rw [close_raised_iff original hattempt hget' hstatus' hothers, husable']
    simp [ClosesAttempt, hrunning, ExecutionRunStatus.isTerminal]

end Closing

/-! ## The replay -/

def Admitted (call : ReplayCall) (original : ExecutionRun) : Prop :=
  original.tenantId = call.tenantId ∧ original.principal = call.principal ∧
    hasQuestion original.input = true

theorem replayRefusal_eq_none_iff
    (hdone : original.status = .succeeded ∨ original.status = .failed) :
    replayRefusal call original = none ↔ Admitted call original := by
  have hstatus : original.status ∈ [ExecutionRunStatus.succeeded, .failed] := by
    simpa using hdone
  unfold replayRefusal Admitted
  by_cases howner : original.tenantId ≠ call.tenantId ∨ original.principal ≠ call.principal
  · rw [if_pos howner]
    simp only [reduceCtorEq, false_iff]
    rintro ⟨htenant, hprincipal, -⟩
    exact howner.elim (absurd htenant) (absurd hprincipal)
  · rw [if_neg howner, if_neg (not_not_intro hstatus)]
    rw [not_or, not_not, not_not] at howner
    cases hquestion : hasQuestion original.input <;> simp [howner]

theorem terminal_of_done (hdone : original.status = .succeeded ∨ original.status = .failed) :
    original.status.isTerminal = true := by
  rcases hdone with h | h
  · rw [h]; rfl
  · rw [h]; rfl

theorem ofValue?_eq_some {text : String} {status : ExecutionRunStatus}
    (h : ExecutionRunStatus.ofValue? text = some status) : text = status.value := by
  unfold ExecutionRunStatus.ofValue? at h
  split at h
  · obtain rfl := Option.some.inj h; rfl
  · obtain rfl := Option.some.inj h; rfl
  · obtain rfl := Option.some.inj h; rfl
  · obtain rfl := Option.some.inj h; rfl
  · obtain rfl := Option.some.inj h; rfl
  · cases h

theorem sqlRunToDomain_status {row : RunRow} (h : sqlRunToDomain row = .ok original) :
    row.status = original.status.value := by
  unfold sqlRunToDomain at h
  split at h
  · cases h
  · rename_i status hstatus
    simp only [snapshot_toPy, bind, Except.bind] at h
    split at h
    · obtain rfl := Except.ok.inj h
      exact ofValue?_eq_some hstatus
    · cases h

def ClosesNewRun (call : ReplayCall) (done : Replayed) : Prop :=
  (done.runs.get? call.newRunId).isSome = true → EndsTerminal call.newRunId done.runs

theorem closesNewRun_of_idle {done : Replayed} (hruns : done.runs = runs)
    (hfresh : runs.get? call.newRunId = none) : ClosesNewRun call done := by
  unfold ClosesNewRun
  rw [hruns, hfresh]
  intro h
  cases h

theorem closesNewRun_of_created_raises {before created : RunTable} {r : RunRow} {error : Raised}
    {committed usable : Bool} {done : Replayed}
    (hcreating : env.creating = .raises error committed usable)
    (hruns : done.runs = if committed then created else before)
    (hfresh : before.get? call.newRunId = none) (hget : created.get? call.newRunId = some r)
    (hpending : r.status = ExecutionRunStatus.pending.value) :
    ClosesNewRun call done ↔ ClosesReplay env := by
  unfold ClosesNewRun
  simp only [ClosesReplay, hcreating]
  cases committed with
  | true =>
    have hget : done.runs.get? call.newRunId = some r := by rw [hruns]; exact hget
    rw [endsTerminal_iff hget hpending, hget]
    simp [ExecutionRunStatus.isTerminal]
  | false =>
    have hnone : done.runs.get? call.newRunId = none := by rw [hruns]; exact hfresh
    rw [hnone]
    simp

theorem replayExecution_close {row : RunRow} {created : RunTable} {r : RunRow}
    (hreading : env.reading = none) (hget : runs.get? call.runId = some row)
    (hload : sqlRunToDomain row = .ok original) (hrefusal : replayRefusal call original = none)
    (hcreated : createRun (Session.after ⟨runs, true⟩ env.beforeCreate).runs
      (replayRun call original) = .ok (created, r)) (hcreating : env.creating = .none) :
    replayExecution env call runs = env.close call original ⟨created, true⟩ := by
  simp only [replayExecution, hreading, hget, hload, hrefusal, ReplaySurroundings.commitCreate,
    hcreated, hcreating]

theorem createReplay (env : ReplaySurroundings) (call : ReplayCall) (original : ExecutionRun)
    (hfresh : runs.get? call.newRunId = none)
    (hothers : ∀ c ∈ env.otherCalls, c.runId ≠ call.newRunId) :
    (Session.after ⟨runs, true⟩ env.beforeCreate).runs.get? call.newRunId = none ∧
    ∃ created r, createRun (Session.after ⟨runs, true⟩ env.beforeCreate).runs
        (replayRun call original) = .ok (created, r) ∧
      created.get? call.newRunId = some r ∧ r.status = "pending" := by
  obtain ⟨hcreate, -⟩ := otherCalls_apart hothers
  have hbefore := (after_get?_of_ne hcreate ⟨runs, true⟩).trans hfresh
  exact ⟨hbefore, createRun_of_fresh
    (show KeyedTable.get? _ (replayRun call original).runId = none from hbefore)⟩

theorem closesNewRun_iff (env : ReplaySurroundings) (call : ReplayCall) {runs : RunTable}
    {row : RunRow} {original : ExecutionRun} (hget : runs.get? call.runId = some row)
    (hload : sqlRunToDomain row = .ok original)
    (hdone : original.status = .succeeded ∨ original.status = .failed)
    (hfresh : runs.get? call.newRunId = none)
    (hothers : ∀ c ∈ env.otherCalls, c.runId ≠ call.newRunId) :
    ClosesNewRun call (replayExecution env call runs) ↔
      (env.reading = none → Admitted call original → ClosesReplay env) := by
  cases hreading : env.reading with
  | some error =>
    refine iff_of_true (closesNewRun_of_idle ?_ hfresh) fun h => by cases h
    simp only [replayExecution, hreading]
  | none =>
    cases hrefusal : replayRefusal call original with
    | some refusal =>
      have hnot : ¬ Admitted call original := by
        rw [← replayRefusal_eq_none_iff hdone, hrefusal]
        simp
      refine iff_of_true (closesNewRun_of_idle ?_ hfresh) fun _ h => absurd h hnot
      simp only [replayExecution, hreading, hget, hload, hrefusal]
    | none =>
      have hadmitted := (replayRefusal_eq_none_iff hdone).mp hrefusal
      simp only [hadmitted, forall_const]
      obtain ⟨hbefore, created, r, hcreated, hget', hpending⟩ :=
        createReplay env call original hfresh hothers
      cases hcreating : env.creating with
      | raises error committed usable =>
        refine closesNewRun_of_created_raises hcreating ?_ hbefore hget' hpending
        simp only [replayExecution, hreading, hget, hload, hrefusal,
          ReplaySurroundings.commitCreate, hcreated, hcreating]
      | none =>
        rw [replayExecution_close hreading hget hload hrefusal hcreated hcreating]
        obtain ⟨hsome, hclosed⟩ := close_closed_iff original (s := ⟨created, true⟩) rfl hget' hpending
          hothers
        simp only [ClosesNewRun, hsome, forall_const, hclosed, ClosesReplay, hcreating]

/-- A replay of a run that is over is never what it should be, since it searches nothing. It does
leave the original alone, and closes its run under the condition given. And a node that was
executed would search the version that is active then, whatever was recorded. -/
theorem replays_original_never (env : ReplaySurroundings) (call : ReplayCall) {runs : RunTable}
    {row : RunRow} {original : ExecutionRun} (hget : runs.get? call.runId = some row)
    (hload : sqlRunToDomain row = .ok original)
    (hdone : original.status = .succeeded ∨ original.status = .failed)
    (hfresh : runs.get? call.newRunId = none)
    (hothers : ∀ c ∈ env.otherCalls, c.runId ≠ call.newRunId) :
    ¬ ReplaysOriginal original call runs (replayExecution env call runs) ∧
      (replayExecution env call runs).searches = [] ∧
      (replayExecution env call runs).runs.get? call.runId = runs.get? call.runId ∧
      (ClosesNewRun call (replayExecution env call runs) ↔
        (env.reading = none → Admitted call original → ClosesReplay env)) ∧
      ∀ executions recorded,
        (∀ searched ∈ env.searchesOf call original executions, searched = some recorded) ↔
          ∀ i < executions, (env.moments i).port.reachesSearch = true →
            ActiveAt env call original recorded i := by
  have hne : call.newRunId ≠ call.runId := by
    intro h
    rw [h, hget] at hfresh
    cases hfresh
  exact ⟨fun h => h.searches replayExecution_searches, replayExecution_searches,
    (replayExecution_get?_of_terminal hget (sqlRunToDomain_status hload) (terminal_of_done hdone)
      hne).trans hget.symm, closesNewRun_iff env call hget hload hdone hfresh hothers,
    fun _ _ => searchesOf_recorded_iff⟩

def versionOf (indexName : List Char) (versionId : UUID) : NewIndexVersion :=
  { indexName := indexName, version := strUuid versionId, embeddingModel := ['m']
    embeddingDimensions := 1, chunkerVersion := ['1'], versionId := versionId, createdAt := 0 }

def replayedAmid (publications : List IndexCall) : ReplaySurroundings :=
  { indexes := (indexSystem.run .empty [.create (versionOf "default".toList 5)]).getD .empty
    publications := publications
    moments := fun _ => { service := plainService, committed := publications.length }
    workflowRunId := 9
    str := fun _ => ""
    errorText := fun _ => []
    notText := []
    noThread := "Checkpointer requires one or more of the following 'configurable' keys: thread_id"
    aborted := "" }

def finishedRow : RunRow :=
  { runId := 1, workflow := "query", status := "succeeded", principal := "p", tenantId := "t"
    input := [("question", .str "Who?")], output := [], startedAt := some 0, finishedAt := some 2
    errorCode := none, errorMessage := none, indexVersionId := some 5, promptVersionId := none
    modelVersion := none }

def finishedRuns : RunTable := (KeyedTable.insert? .empty finishedRow).getD .empty

def finishedOriginal : ExecutionRun :=
  { runId := 1, workflow := "query", status := .succeeded, principal := "p", tenantId := "t"
    input := [("question", .str "Who?")], output := [], startedAt := some 0, finishedAt := some 2
    indexVersionId := some 5, terminalConsistency := fun _ => rfl }

def sampleReplay : ReplayCall :=
  { runId := 1, principal := "p", tenantId := "t", newRunId := 2, startedAt := 3, runningAt := 4
    finishedAt := 5 }

theorem finishedRow_loads : sqlRunToDomain finishedRow = .ok finishedOriginal := by
  simp [sqlRunToDomain, finishedRow, finishedOriginal, ExecutionRunStatus.ofValue?, bind,
    Except.bind, pure, Except.pure, ExecutionRunStatus.isTerminal]

def republished : ReplaySurroundings :=
  replayedAmid [.deactivatePrevious "default".toList 6, .create (versionOf "default".toList 6)]

/-- The new run of a replay without any failure ends FAILED. -/
theorem replays_original_never_sample :
    ¬ ReplaysOriginal finishedOriginal sampleReplay finishedRuns
        (replayExecution republished sampleReplay finishedRuns) ∧
      ClosesNewRun sampleReplay (replayExecution republished sampleReplay finishedRuns) ∧
      ((replayExecution republished sampleReplay finishedRuns).runs.get? 2).map RunRow.status =
        some "failed" := by
  obtain ⟨hnot, -, -, hcloses, -⟩ := replays_original_never republished sampleReplay
    (show finishedRuns.get? 1 = some finishedRow from rfl) finishedRow_loads (Or.inl rfl) rfl
    (List.forall_mem_nil _)
  exact ⟨hnot, hcloses.mpr fun _ _ => ⟨rfl, rfl⟩, by decide +kernel⟩

/-- Where a new version of the index follows, the node would search that. -/
example : republished.searchesOf sampleReplay finishedOriginal 1 = [some 6] := by decide

theorem not_replays_original : ¬ ∀ (env : ReplaySurroundings) (call : ReplayCall) (runs : RunTable)
    (row : RunRow) (original : ExecutionRun) (recorded : UUID),
    runs.get? call.runId = some row → sqlRunToDomain row = .ok original →
    original.status = .succeeded ∨ original.status = .failed →
    original.indexVersionId = some recorded → runs.get? call.newRunId = none →
    (∀ c ∈ env.otherCalls, c.runId ≠ call.newRunId) →
    ReplaysOriginal original call runs (replayExecution env call runs) := by
  intro h
  have hreplay := h republished sampleReplay finishedRuns finishedRow finishedOriginal 5 rfl
    finishedRow_loads (Or.inl rfl) rfl rfl (List.forall_mem_nil _)
  exact hreplay.searches replayExecution_searches

end GroundGraph.Api

import GroundGraph.Api.QueryService

/-! What the handlers of `POST /v1/query` have to do with each other: nothing. Each request is
answered, and its run recorded, as if there were no other, over the stores as its executions met
them; and of these stores it matters only what its reader may read.
-/

set_option autoImplicit false

namespace GroundGraph.Api

open GroundGraph.Answering GroundGraph.Execution GroundGraph.Retrieval

section
variable {own : UUID → Bool}

theorem runQuery_restrict {env : Surroundings} {call : QueryCall} (h : own call.runId = true)
    (s : Session) :
    runQuery env call (s.restrict own) =
      ((runQuery env call s).1.restrict own, (runQuery env call s).2) := by
  have hrunning := commitUpdate_restrict env s (u := toRunningUpdate call) h
    call.runningAt env.toRunning
  simp only [runQuery, hrunning]
  cases commitUpdate env s (toRunningUpdate call) call.runningAt env.toRunning with
  | mk s₁ result =>
    cases result with
    | error error => rfl
    | ok _ =>
      cases env.workflow with
      | raised error => rfl
      | returned answer =>
        have hrecording := commitUpdate_restrict env s₁
          (u := succeededUpdate call answer) h call.finishedAt env.recording
        simp only [hrecording]
        cases commitUpdate env s₁ (succeededUpdate call answer) call.finishedAt env.recording with
        | mk s₂ result => cases result <;> rfl

theorem closeRun_restrict {env : Surroundings} {call : QueryCall} (h : own call.runId = true)
    (s : Session) :
    closeRun env call (s.restrict own) =
      ((closeRun env call s).1.restrict own, (closeRun env call s).2) := by
  simp only [closeRun, runQuery_restrict h]
  cases runQuery env call s with
  | mk s₁ result =>
    cases result with
    | ok answer => rfl
    | error error =>
      cases error with
      | cancelled => rfl
      | exception text =>
        have hfailing := commitUpdate_restrict env s₁ (u := failedUpdate call text) h
          call.finishedAt env.failing
        simp only [hfailing]
        cases commitUpdate env s₁ (failedUpdate call text) call.finishedAt env.failing with
        | mk s₂ result => cases result <;> rfl

theorem queryV1_restrict {env : Surroundings} {call : QueryCall} (h : own call.runId = true)
    (runs : RunTable) :
    queryV1 env call (runs.restrict own) =
      ((queryV1 env call runs).1.restrict own, (queryV1 env call runs).2) := by
  have hcreate := createRun_restrict runs (show own (newRun call).runId = true from h)
  simp only [queryV1, hcreate]
  cases createRun runs (newRun call) with
  | error e => rfl
  | ok created => exact closeRun_restrict h ⟨created.1, true⟩

end

/-- How the workflow of a request can end, in a process that goes through some states of the stores
and interrupts it with some errors. -/
inductive WorkflowEnds (passed : Stores → Prop) (interrupted : Raised → Prop) (r : QueryRequest) :
    WorkflowOutcome → Prop
  | returned (met : Nat → Stores) (passes : ∀ n, passed (met n)) :
      WorkflowEnds passed interrupted r (.returned (workflowResponse r.executionRunId r.maxRetries
        (fun n => (r.ports n).over (met n)) r.call.hybridRequest))
  | interrupted (error : Raised) (interrupts : interrupted error) :
      WorkflowEnds passed interrupted r (.raised error)

/-- The run of `query_v1` over this outcome. -/
def QueryRequest.ending (r : QueryRequest) (workflow : WorkflowOutcome) : Surroundings :=
  { r.env with workflow := workflow }

def metOutcomes (r : QueryRequest) (met : Nat → Stores) (n : Nat) : ExecutionOutcome :=
  r.outcome (met n) n

/-- How far the handler has come with `query_v1` on a table. -/
def Stage (passed : Stores → Prop) (interrupted : Raised → Prop) (start runs : RunTable)
    (h : Handler) : Prop :=
  let r := h.request
  match h.phase with
  | .letIn => runs = start ∧ h.usable = true
  | .created => h.usable = true ∧ ∃ row, createRun start (newRun r.call) = .ok (runs, row)
  | .working run => ∃ created row, createRun start (newRun r.call) = .ok (created, row) ∧
      commitUpdate r.env ⟨created, true⟩ (toRunningUpdate r.call) r.call.runningAt r.env.toRunning =
        (⟨runs, h.usable⟩, .ok ()) ∧
      ∃ met, (∀ n, passed (met n)) ∧
        Iteration.Reaches (graphStep (metOutcomes r met)) (graphStart r.executionRunId r.maxRetries)
          run
  | .raised error => ∃ workflow, WorkflowEnds passed interrupted r workflow ∧
      ∃ created row, createRun start (newRun r.call) = .ok (created, row) ∧
        runQuery (r.ending workflow) r.call ⟨created, true⟩ = (⟨runs, h.usable⟩, .error error)
  | .done answer => ∃ workflow, WorkflowEnds passed interrupted r workflow ∧
      queryV1 (r.ending workflow) r.call start = (runs, answer)

section
variable {passed : Stores → Prop} {interrupted : Raised → Prop} {start runs : RunTable}
  {r : QueryRequest}

theorem exists_ends {stores : Stores} (h : passed stores) (r : QueryRequest) :
    ∃ workflow, WorkflowEnds passed interrupted r workflow :=
  ⟨_, .returned (fun _ => stores) fun _ => h⟩

/-- Only executions that were made count. -/
theorem graphStep_congr {o p : Nat → ExecutionOutcome} {run : GraphRun}
    (h : o run.executions = p run.executions) : graphStep o run = graphStep p run := by
  obtain ⟨node, state, executions⟩ := run
  have hsame : o executions = p executions := h
  cases node with
  | execute => simp only [graphStep, hsame]
  | validate | decide | retry | fail | finish => rfl

theorem graphStep_executions {o : Nat → ExecutionOutcome} {run run' : GraphRun}
    (h : graphStep o run = some run') : run.executions ≤ run'.executions := by
  obtain ⟨node, state, executions⟩ := run
  cases node with
  | execute =>
    obtain rfl := Option.some.inj h
    exact Nat.le_succ executions
  | validate | decide | retry | fail =>
    obtain rfl := Option.some.inj h
    exact Nat.le_refl executions
  | finish => cases h

theorem graphStep_execute_lt {o : Nat → ExecutionOutcome} {run run' : GraphRun}
    (h : graphStep o run = some run') (hexecute : run.node = .execute) :
    run'.executions = run.executions + 1 := by
  obtain ⟨node, state, executions⟩ := run
  obtain rfl : node = .execute := hexecute
  obtain rfl := Option.some.inj h
  rfl

theorem reaches_congr {o o' : Nat → ExecutionOutcome} {start run : GraphRun}
    (h : Iteration.Reaches (graphStep o) start run)
    (hsame : ∀ n < run.executions, o n = o' n) : Iteration.Reaches (graphStep o') start run := by
  induction h with
  | refl => exact .refl
  | tail h hstep ih =>
    rename_i t t'
    have hle := graphStep_executions hstep
    have hstep' : graphStep o' t = some t' := by
      by_cases hexecute : t.node = .execute
      · have hlast := graphStep_execute_lt hstep hexecute
        rw [← graphStep_congr (hsame t.executions (by omega))]
        exact hstep
      · obtain ⟨node, state, executions⟩ := t
        cases node with
        | execute => exact absurd rfl hexecute
        | validate | decide | retry | fail | finish => exact hstep
    exact .tail (ih fun n hn => hsame n (by omega)) hstep'

theorem reaches_step {met : Nat → Stores} {first run run' : GraphRun} {stores : Stores}
    (h : Iteration.Reaches (graphStep (metOutcomes r met)) first run)
    (hmet : ∀ n, passed (met n)) (hstores : passed stores)
    (hstep : graphStep (r.outcome stores) run = some run') :
    ∃ met', (∀ n, passed (met' n)) ∧
      Iteration.Reaches (graphStep (metOutcomes r met')) first run' := by
  refine ⟨fun n => if n = run.executions then stores else met n, fun n => ?_, ?_⟩
  · simp only
    split
    · exact hstores
    · exact hmet n
  · refine .tail (reaches_congr h fun n hn => ?_) ?_
    · simp only [metOutcomes, if_neg (Nat.ne_of_lt hn)]
    · rw [graphStep_congr (p := r.outcome stores)]
      · exact hstep
      · simp only [metOutcomes, if_true]

theorem reaches_ends {met : Nat → Stores} {run : GraphRun} {stores : Stores}
    (h : Iteration.Reaches (graphStep (metOutcomes r met))
      (graphStart r.executionRunId r.maxRetries) run)
    (hmet : ∀ n, passed (met n)) (hend : graphStep (r.outcome stores) run = none) :
    WorkflowEnds passed interrupted r (.returned (finalResponse run.state)) := by
  have hfinish : graphStep (metOutcomes r met) run = none := by
    obtain ⟨node, state, executions⟩ := run
    cases node with
    | finish => rfl
    | execute | validate | decide | retry | fail => cases hend
  have hrun : run = graphRun r.executionRunId r.maxRetries (metOutcomes r met) :=
    h.end_unique hfinish (Iteration.reaches_run _ _) (graphRun_finish _ _ _)
  rw [hrun]
  exact .returned met hmet

theorem queryV1_of_created {env : Surroundings} {call : QueryCall} {created : RunTable} {row : RunRow}
    (h : createRun start (newRun call) = .ok (created, row)) :
    queryV1 env call start = closeRun env call ⟨created, true⟩ := by
  simp only [queryV1, h]

variable {s s₁ s₂ : Session} {workflow : WorkflowOutcome} {answer : QueryResponse} {error : Raised}
  {result : Except Raised Unit}

theorem runQuery_not_running
    (hrunning : commitUpdate r.env s (toRunningUpdate r.call) r.call.runningAt r.env.toRunning =
      (s₁, .error error)) :
    runQuery (r.ending workflow) r.call s = (s₁, .error error) := by
  have hsame : commitUpdate (r.ending workflow) s (toRunningUpdate r.call) r.call.runningAt
      (r.ending workflow).toRunning = (s₁, .error error) := hrunning
  simp only [runQuery, hsame]

theorem runQuery_interrupted
    (hrunning : commitUpdate r.env s (toRunningUpdate r.call) r.call.runningAt r.env.toRunning =
      (s₁, .ok ())) :
    runQuery (r.ending (.raised error)) r.call s = (s₁, .error error) := by
  have hsame : commitUpdate (r.ending (.raised error)) s (toRunningUpdate r.call) r.call.runningAt
      (r.ending (.raised error)).toRunning = (s₁, .ok ()) := hrunning
  simp only [runQuery, hsame]
  rfl

theorem runQuery_recorded
    (hrunning : commitUpdate r.env s (toRunningUpdate r.call) r.call.runningAt r.env.toRunning =
      (s₁, .ok ()))
    (hrecording : commitUpdate r.env s₁ (succeededUpdate r.call answer) r.call.finishedAt
      r.env.recording = (s₂, result)) :
    runQuery (r.ending (.returned answer)) r.call s = (s₂, result.map fun _ => answer) := by
  have hsame : commitUpdate (r.ending (.returned answer)) s (toRunningUpdate r.call)
      r.call.runningAt (r.ending (.returned answer)).toRunning = (s₁, .ok ()) := hrunning
  have hrecorded : commitUpdate (r.ending (.returned answer)) s₁ (succeededUpdate r.call answer)
      r.call.finishedAt (r.ending (.returned answer)).recording = (s₂, result) := hrecording
  simp only [runQuery, hsame]
  simp only [QueryRequest.ending] at hrecorded ⊢
  rw [hrecorded]
  cases result <;> rfl

theorem closeRun_failed {text : String}
    (hquery : runQuery (r.ending workflow) r.call s = (s₁, .error (.exception text)))
    (hfailing : commitUpdate r.env s₁ (failedUpdate r.call text) r.call.finishedAt r.env.failing =
      (s₂, result)) :
    closeRun (r.ending workflow) r.call s =
      (s₂.runs, match result with
        | .ok () => .error 500 "Internal server error"
        | .error error => .raised error) := by
  have hfailed : commitUpdate (r.ending workflow) s₁ (failedUpdate r.call text) r.call.finishedAt
      (r.ending workflow).failing = (s₂, result) := hfailing
  rw [closeRun, hquery]
  simp only [hfailed]
  cases result <;> rfl

section
variable {stores : Stores} {runs' : RunTable} {h' : Handler} {usable : Bool}

theorem Stage.letIn
    (hstage : Stage passed interrupted start runs ⟨r, usable, .letIn⟩) (hstores : passed stores)
    (hmove : (Handler.mk r usable .letIn).advance stores runs = some (runs', h')) :
    Stage passed interrupted start runs' h' := by
  obtain ⟨rfl, husable⟩ := hstage
  simp only [Handler.advance] at hmove
  cases hcreate : createRun runs (newRun r.call) with
  | error e =>
    rw [hcreate] at hmove
    obtain ⟨rfl, rfl⟩ := Prod.mk.inj (Option.some.inj hmove)
    obtain ⟨workflow, hends⟩ := exists_ends hstores r
    refine ⟨workflow, hends, ?_⟩
    simp only [queryV1, hcreate]
    rfl
  | ok created =>
    rw [hcreate] at hmove
    obtain ⟨rfl, rfl⟩ := Prod.mk.inj (Option.some.inj hmove)
    exact ⟨husable, created.2, hcreate⟩

theorem Stage.created
    (hstage : Stage passed interrupted start runs ⟨r, usable, .created⟩) (hstores : passed stores)
    (hmove : (Handler.mk r usable .created).advance stores runs = some (runs', h')) :
    Stage passed interrupted start runs' h' := by
  obtain ⟨husable, row, hcreate⟩ := hstage
  obtain rfl : usable = true := husable
  simp only [Handler.advance, Handler.commit] at hmove
  cases hrunning : commitUpdate r.env ⟨runs, true⟩ (toRunningUpdate r.call) r.call.runningAt
    r.env.toRunning with
  | mk s₁ result =>
    rw [hrunning] at hmove
    obtain ⟨rfl, rfl⟩ := Prod.mk.inj (Option.some.inj hmove)
    cases result with
    | ok _ => exact ⟨runs, row, hcreate, hrunning, fun _ => stores, fun _ => hstores, .refl⟩
    | error error =>
      obtain ⟨workflow, hends⟩ := exists_ends hstores r
      exact ⟨workflow, hends, runs, row, hcreate, runQuery_not_running hrunning⟩

theorem Stage.working {run : GraphRun}
    (hstage : Stage passed interrupted start runs ⟨r, usable, .working run⟩)
    (hstores : passed stores)
    (hmove : (Handler.mk r usable (.working run)).advance stores runs = some (runs', h')) :
    Stage passed interrupted start runs' h' := by
  obtain ⟨created, row, hcreate, hrunning, met, hmet, hreaches⟩ := hstage
  simp only [Handler.advance] at hmove
  cases hnode : graphStep (r.outcome stores) run with
  | some run' =>
    rw [hnode] at hmove
    obtain ⟨rfl, rfl⟩ := Prod.mk.inj (Option.some.inj hmove)
    exact ⟨created, row, hcreate, hrunning, reaches_step hreaches hmet hstores hnode⟩
  | none =>
    rw [hnode] at hmove
    have hends : WorkflowEnds passed interrupted r (.returned (finalResponse run.state)) :=
      reaches_ends hreaches hmet hnode
    simp only [Handler.commit] at hmove
    cases hrecording : commitUpdate r.env ⟨runs, usable⟩
      (succeededUpdate r.call (finalResponse run.state)) r.call.finishedAt r.env.recording with
    | mk s₂ result =>
      rw [hrecording] at hmove
      obtain ⟨rfl, rfl⟩ := Prod.mk.inj (Option.some.inj hmove)
      have hquery := runQuery_recorded hrunning hrecording
      cases result with
      | ok _ =>
        refine ⟨_, hends, ?_⟩
        rw [queryV1_of_created hcreate, closeRun, hquery]
        rfl
      | error error => exact ⟨_, hends, created, row, hcreate, hquery⟩

theorem Stage.raised
    (hstage : Stage passed interrupted start runs ⟨r, usable, .raised error⟩)
    (hmove : (Handler.mk r usable (.raised error)).advance stores runs = some (runs', h')) :
    Stage passed interrupted start runs' h' := by
  obtain ⟨workflow, hends, created, row, hcreate, hquery⟩ := hstage
  cases error with
  | cancelled =>
    obtain ⟨rfl, rfl⟩ := Prod.mk.inj (Option.some.inj hmove)
    refine ⟨workflow, hends, ?_⟩
    rw [queryV1_of_created hcreate, closeRun, hquery]
  | exception text =>
    simp only [Handler.advance, Handler.commit] at hmove
    cases hfailing : commitUpdate r.env ⟨runs, usable⟩ (failedUpdate r.call text)
      r.call.finishedAt r.env.failing with
    | mk s₂ result =>
      rw [hfailing] at hmove
      obtain ⟨rfl, rfl⟩ := Prod.mk.inj (Option.some.inj hmove)
      have hclosed := (queryV1_of_created hcreate).trans (closeRun_failed hquery hfailing)
      cases result with
      | ok _ => exact ⟨workflow, hends, hclosed⟩
      | error error => exact ⟨workflow, hends, hclosed⟩

end

theorem Stage.advance {stores : Stores} {runs' : RunTable} {h h' : Handler}
    (hstage : Stage passed interrupted start runs h) (hstores : passed stores)
    (hmove : h.advance stores runs = some (runs', h')) :
    Stage passed interrupted start runs' h' := by
  obtain ⟨r, usable, phase⟩ := h
  cases phase with
  | letIn => exact hstage.letIn hstores hmove
  | created => exact hstage.created hstores hmove
  | working run => exact hstage.working hstores hmove
  | raised error => exact hstage.raised hmove
  | done answer => cases hmove

theorem Stage.interrupt {h h' : Handler} (hstage : Stage passed interrupted start runs h)
    (herror : interrupted error) (hmove : h.interrupt error = some h') :
    Stage passed interrupted start runs h' := by
  obtain ⟨r, usable, phase⟩ := h
  obtain ⟨run, hphase, rfl⟩ := interrupt_some hmove
  obtain rfl : phase = .working run := hphase
  obtain ⟨created, row, hcreate, hrunning, _⟩ := hstage
  exact ⟨.raised error, .interrupted error herror, created, row, hcreate,
    runQuery_interrupted hrunning⟩

end

/-! ## One request among all -/

/-- What the actions about one run are, in a process that no other handler writes about it. -/
def AloneAction (passed : Stores → Prop) (interrupted : Raised → Prop) (runId : UUID) :
    ServiceAction → Prop
  | .request r => r.call.runId = runId
  | .advance id => id = runId
  | .interrupt id error => id = runId ∧ interrupted error
  | .other _ => False
  | .write stores => passed stores

structure AloneInv (passed : Stores → Prop) (interrupted : Raised → Prop) (start : RunTable)
    (runId : UUID) (s : ServiceState) : Prop where
  stage : ∀ h, s.handlers.get? runId = some h → Stage passed interrupted start s.runs h
  idle : s.handlers.get? runId = none → s.runs = start
  stores : passed s.stores

section
variable {passed : Stores → Prop} {interrupted : Raised → Prop} {start : RunTable} {runId : UUID}
  {s t : ServiceState}

theorem AloneInv.upsert (hi : AloneInv passed interrupted start runId s) {h : Handler}
    (hid : h.runId = runId) {runs : RunTable} (hstage : Stage passed interrupted start runs h) :
    AloneInv passed interrupted start runId
      { s with runs := runs, handlers := s.handlers.upsert h } where
  stage x hx := by
    rw [KeyedTable.get?_upsert, if_pos hid.symm] at hx
    obtain rfl := Option.some.inj hx
    exact hstage
  idle hnone := by
    rw [KeyedTable.get?_upsert, if_pos hid.symm] at hnone
    cases hnone
  stores := hi.stores

theorem AloneInv.step (hi : AloneInv passed interrupted start runId s) {a : ServiceAction}
    (ha : AloneAction passed interrupted runId a) (hstep : serviceStep s a = some t) :
    AloneInv passed interrupted start runId t := by
  obtain ⟨r, handlers, rfl, hinsert, rfl⟩ | ⟨h, runs, h', rfl, hget, hmove, rfl⟩ |
    ⟨h, h', error, rfl, hget, hmove, rfl⟩ | ⟨c, rfl, rfl⟩ | ⟨stores, rfl, rfl⟩ :=
    serviceStep_cases hstep
  · have hid : Handler.runId { request := r } = runId := ha
    obtain ⟨hnew, _⟩ := KeyedTable.insert?_some_iff.mp hinsert
    have hidle := hi.idle (hid ▸ s.handlers.get?_none_iff.mpr hnew)
    refine ⟨fun x hx => ?_, fun hnone => ?_, hi.stores⟩
    · rw [KeyedTable.get?_insert? hinsert, if_pos hid.symm] at hx
      obtain rfl := Option.some.inj hx
      exact ⟨hidle, rfl⟩
    · rw [KeyedTable.get?_insert? hinsert, if_pos hid.symm] at hnone
      cases hnone
  · have hid : h.runId = runId := ha
    have hsame : h'.runId = h.runId :=
      congrArg (fun r : QueryRequest => r.call.runId) (advance_request hmove)
    have hstage := hi.stage h (hid ▸ hget)
    exact hi.upsert (hsame.trans hid) (hstage.advance hi.stores hmove)
  · obtain ⟨hid, herror⟩ : h.runId = runId ∧ interrupted error := ha
    have hstage := hi.stage h (hid ▸ hget)
    obtain ⟨_, _, rfl⟩ := interrupt_some hmove
    exact hi.upsert (h := { h with phase := .raised error }) hid (hstage.interrupt herror hmove)
  · cases ha
  · exact ⟨hi.stage, hi.idle, ha⟩

end

def only (runId id : UUID) : Bool := decide (id = runId)

theorem seen_id (a : ServiceAction) : a.seen id = a := by
  cases a <;> rfl

/-- However the handlers take turns, an answered request has the answer and the row that `query_v1`
gives it alone: on the runs as they were when the process started, and with a workflow over the
stores as its executions met them, or one that was interrupted. -/
theorem served_alone {runs : RunTable} {stores : Stores} {as : List ServiceAction}
    {t : ServiceState} {h : Handler} {answer : HttpAnswer}
    (hrun : (serviceSystem runs stores).run (serviceSystem runs stores).start as = some t)
    (hother : ∀ c, ServiceAction.other c ∈ as → c.runId ≠ h.runId)
    (hget : t.handlers.get? h.runId = some h) (hdone : h.phase = .done answer) :
    ∃ workflow, WorkflowEnds (fun x => x = stores ∨ ServiceAction.write x ∈ as)
        (fun error => ServiceAction.interrupt h.runId error ∈ as) h.request workflow ∧
      (queryV1 (h.request.ending workflow) h.request.call runs).2 = answer ∧
      (queryV1 (h.request.ending workflow) h.request.call runs).1.get? h.runId =
        t.runs.get? h.runId := by
  have hown : only h.runId h.runId = true := by simp [only]
  obtain ⟨_, hpart⟩ := (service_slice (only h.runId) id runs stores).run
    (fun _ hx => by cases hx) (fun a _ => by cases a <;> simp [ServiceAction.Sees, QueryRequest.Sees])
    hrun
  generalize hpassed : (fun x => x = stores ∨ ServiceAction.write x ∈ as) = passed
  generalize hinterrupted : (fun error => ServiceAction.interrupt h.runId error ∈ as) = interrupted
  have hinv : AloneInv passed interrupted (runs.restrict (only h.runId)) h.runId
      (t.part (only h.runId) id) := by
    refine (serviceSystem runs stores).run_preserves_of
      (fun _ _ _ hi ha hstep => AloneInv.step hi ha hstep) ⟨?_, fun _ => rfl, ?_⟩ ?_ hpart
    · intro x hx
      cases hx
    · subst hpassed
      exact Or.inl rfl
    · intro a ha
      obtain ⟨b, hb, rfl⟩ := List.mem_map.mp ha
      obtain ⟨hmem, hconcerns⟩ := List.mem_filter.mp hb
      rw [seen_id]
      subst hpassed hinterrupted
      simp only [ServiceAction.concerns, only] at hconcerns
      cases b with
      | request r => simpa [AloneAction] using hconcerns
      | advance id => simpa [AloneAction] using hconcerns
      | interrupt id error =>
        obtain rfl : id = h.runId := by simpa using hconcerns
        exact ⟨rfl, hmem⟩
      | other c => exact hother c hmem (by simpa using hconcerns)
      | write x => exact Or.inr hmem
  have hfound : (t.handlers.restrict (only h.runId)).get? h.runId = some h :=
    (t.handlers.get?_restrict hown).trans hget
  have hstage := hinv.stage h hfound
  rw [Stage, hdone] at hstage
  obtain ⟨workflow, hends, hquery⟩ := hstage
  rw [queryV1_restrict hown] at hquery
  obtain ⟨htable, hanswer⟩ := Prod.mk.inj hquery
  refine ⟨workflow, hends, hanswer, ?_⟩
  rw [← KeyedTable.get?_restrict _ hown, htable]
  exact t.runs.get?_restrict hown

def lateRequest (runId : UUID) (tenantId : String) : QueryRequest where
  call :=
    { question := "is it?", principal := "p", tenantId := tenantId, runId := runId
      indexVersionId := 2, modelVersion := "m", startedAt := 0, runningAt := 1, finishedAt := 2 }
  env :=
    { toRunning := .none, workflow := .raised .cancelled, recording := .none, failing := .none
      str := fun _ => "", aborted := "" }
  executionRunId := 9
  ports n :=
    { cfg := (lateIndex n).cfg, backend := (lateIndex n).backend, llm := (lateIndex n).llm
      uuid4 := (lateIndex n).uuid4, text := (lateIndex n).text }

def emptyStores : Stores := ⟨⟨.empty, .empty, []⟩, sampleGraph⟩

/-- The second request is cancelled while the first one is tried again, over other stores. -/
def takingTurns : List ServiceAction :=
  [.request (lateRequest 1 "t"), .request (lateRequest 2 "u"), .advance 1, .advance 2, .advance 2,
   .advance 1, .advance 1, .write ⟨backingStore, sampleGraph⟩, .interrupt 2 .cancelled] ++
    List.replicate 8 (.advance 1) ++ [.advance 2]

def isDone : Phase → Bool
  | .done _ => true
  | _ => false

theorem isDone_iff {phase : Phase} (h : isDone phase = true) : ∃ answer, phase = .done answer := by
  cases phase with
  | done answer => exact ⟨answer, rfl⟩
  | letIn | created | working _ | raised _ => cases h

theorem takingTurns_done :
    ∃ t h answer, (serviceSystem .empty emptyStores).run (serviceSystem .empty emptyStores).start
        takingTurns = some t ∧
      t.handlers.get? 1 = some h ∧ h.request.call.tenantId = "t" ∧ h.phase = .done answer := by
  have hdone : (((serviceSystem .empty emptyStores).run (serviceSystem .empty emptyStores).start
      takingTurns).bind fun t => (t.handlers.get? 1).map fun h =>
        (isDone h.phase, h.request.call.tenantId)) = some (true, "t") := by decide +kernel
  obtain ⟨t, ht, hrest⟩ := Option.bind_eq_some_iff.mp hdone
  obtain ⟨h, hget, hphase⟩ := Option.map_eq_some_iff.mp hrest
  obtain ⟨hphase, htenant⟩ := Prod.mk.inj hphase
  obtain ⟨answer, hanswer⟩ := isDone_iff hphase
  exact ⟨t, h, answer, ht, hget, htenant, hanswer⟩

/-- The first request is answered as if the second had never been made. -/
theorem served_alone_takingTurns :
    ∃ t h answer, (serviceSystem .empty emptyStores).run (serviceSystem .empty emptyStores).start
        takingTurns = some t ∧
      t.handlers.get? 1 = some h ∧ h.phase = .done answer ∧
      ∃ workflow, WorkflowEnds
          (fun x => x = emptyStores ∨ ServiceAction.write x ∈ takingTurns)
          (fun error => ServiceAction.interrupt 1 error ∈ takingTurns) h.request workflow ∧
        (queryV1 (h.request.ending workflow) h.request.call .empty).2 = answer ∧
        (queryV1 (h.request.ending workflow) h.request.call .empty).1.get? 1 = t.runs.get? 1 := by
  obtain ⟨t, h, answer, hrun, hget, -, hdone⟩ := takingTurns_done
  have hid : h.runId = 1 := (t.handlers.get?_some_iff.mp hget).2
  have hother : ∀ c, ServiceAction.other c ∈ takingTurns → c.runId ≠ h.runId := by
    intro c hc
    simp [takingTurns] at hc
  have halone := served_alone hrun hother (hid.symm ▸ hget) hdone
  rw [hid] at halone
  exact ⟨t, h, answer, hrun, hget, hdone, halone⟩

/-! ## The requests of one reader -/

def factIds (rd : Reader) (g : Neo4j.Graph) (id : UUID) : Bool :=
  (g.facts.get? id).any rd.readsFact

def sees (rd : Reader) (stores : Stores) : Stores where
  chunks := chunkPart rd stores.chunks
  graph := graphPart (factIds rd stores.graph) stores.graph

section
variable {rd : Reader}

theorem readableFacts_factIds (rd : Reader) (g : Neo4j.Graph) :
    ReadableFacts rd (factIds rd g) g := by
  intro f hf
  rw [factIds, g.facts.mem_rows_iff.mp hf, Option.any_some]

def Ports.generating (p : Ports) : HybridRetrievalConfig :=
  { p.cfg with
    generate := fun question evidence _ =>
      match Answering.generate p.llm p.uuid4 question evidence with
      | some r => .ok r
      | none => .error (.generation []) }

theorem QueryRequest.sees_of_asked {r : QueryRequest} (h : r.call.hybridRequest.AskedBy rd) :
    r.Sees (sees rd) := by
  intro stores
  funext n
  have hservice : ∀ stores : Stores, ((r.ports n).over stores).service =
      (r.ports n).generating.over (r.ports n).backend stores.chunks stores.graph := fun _ => rfl
  unfold QueryRequest.outcome Execution.outcome
  rw [hservice, hservice, sees, queryWithEvidence_parts h (readableFacts_factIds rd stores.graph)]
  rfl

/-- A reader is answered, and his runs are recorded, as in a process that handles his requests only
and holds only what he may read: nothing that others ask, and nothing that they write and he may not
read, changes an answer or a row of his. -/
theorem readers_apart {own : UUID → Bool} {runs : RunTable} {stores : Stores}
    {as : List ServiceAction} {t : ServiceState}
    (hrun : (serviceSystem runs stores).run (serviceSystem runs stores).start as = some t)
    (hown : ∀ r, ServiceAction.request r ∈ as → own r.call.runId = true →
      r.call.hybridRequest.AskedBy rd) :
    ∃ t', (serviceSystem (runs.restrict own) (sees rd stores)).run
        (serviceSystem (runs.restrict own) (sees rd stores)).start
        ((as.filter (ServiceAction.concerns own)).map (ServiceAction.seen (sees rd))) = some t' ∧
      ∀ id, own id = true →
        t'.handlers.get? id = t.handlers.get? id ∧ t'.runs.get? id = t.runs.get? id := by
  obtain ⟨_, hpart⟩ := (service_slice own (sees rd) runs stores).run (fun _ hx => by cases hx)
    (fun a ha => by
      cases a with
      | request r => exact fun hr => QueryRequest.sees_of_asked (hown r ha hr)
      | advance _ | interrupt _ _ | other _ | write _ => trivial) hrun
  rw [(serviceSystem runs stores).run_congr (serviceSystem (runs.restrict own) (sees rd stores))
    rfl] at hpart
  exact ⟨t.part own (sees rd), hpart, fun id hid =>
    ⟨t.handlers.get?_restrict hid, t.runs.get?_restrict hid⟩⟩

end

/-- What the process of the first reader alone makes of its request. -/
theorem readers_apart_takingTurns :
    ∃ t h answer, (serviceSystem .empty emptyStores).run (serviceSystem .empty emptyStores).start
        takingTurns = some t ∧
      t.handlers.get? 1 = some h ∧ h.phase = .done answer ∧
      ∃ t', (serviceSystem (KeyedTable.empty.restrict (only 1)) (sees asker emptyStores)).run
          (serviceSystem (KeyedTable.empty.restrict (only 1)) (sees asker emptyStores)).start
          ((takingTurns.filter (ServiceAction.concerns (only 1))).map
            (ServiceAction.seen (sees asker))) = some t' ∧
        ∀ id, only 1 id = true →
          t'.handlers.get? id = t.handlers.get? id ∧ t'.runs.get? id = t.runs.get? id := by
  obtain ⟨t, h, answer, hrun, hget, -, hdone⟩ := takingTurns_done
  refine ⟨t, h, answer, hrun, hget, hdone, readers_apart hrun fun r hr hown => ?_⟩
  have hrequests : r = lateRequest 1 "t" ∨ r = lateRequest 2 "u" := by
    simpa [takingTurns] using hr
  rcases hrequests with rfl | rfl
  · exact ⟨rfl, rfl⟩
  · cases hown

end GroundGraph.Api

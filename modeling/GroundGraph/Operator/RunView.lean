import GroundGraph.Api.QueryAnswers
import GroundGraph.Operator.RecentExecutions

/-! What the operator sees of a run that `POST /v1/query` recorded. The output is written under
the keys `claims_count` and `citation_ids` and read under `claims` and `citations`, so the counts
are always zero. That is right as long as nothing with a claim is recorded, and the query workflow
returns claims only with citations, which are refused.
-/

set_option autoImplicit false

namespace GroundGraph.Operator

open GroundGraph.Answering GroundGraph.Api GroundGraph.Execution GroundGraph.Retrieval

structure RunsFor (env : Surroundings) (call : QueryCall) (row : RunRow) : Prop where
  tenantId : row.tenantId = call.tenantId
  input : row.input = runInput call
  startedAt : row.startedAt = some call.startedAt
  recorded : row.status = "succeeded" → row.finishedAt.isSome = true ∧
    ∃ result, env.workflow = .returned result ∧ result.citations = [] ∧
      row.output = outputDocument result

def HasRun (env : Surroundings) (call : QueryCall) (runs : RunTable) : Prop :=
  ∃ row, runs.get? call.runId = some row ∧ RunsFor env call row

variable {env : Surroundings} {call : QueryCall}

theorem commitUpdate_hasRun {s : Session} {u : RunUpdate} {now : Instant} {fault : Fault}
    (hid : u.runId = call.runId)
    (hwrite : ∀ output row, snapshotOptional u.output = .ok output → RunsFor env call row →
      RunsFor env call (u.write output now row))
    (hs : HasRun env call s.runs) : HasRun env call (commitUpdate env s u now fault).1.runs := by
  unfold commitUpdate
  split
  · exact hs
  · split
    · exact hs
    · rename_i runs row hupdate
      obtain ⟨r, hget, hruns⟩ := hs
      obtain ⟨_, output, hout, hret⟩ := updateRunStatus_ok hupdate
      obtain ⟨r', hget', _, rfl, _⟩ := KeyedTable.updateReturning_some_iff.mp hret
      have hafter : HasRun env call
          (s.runs.modifyAt u.runId (u.write output now) (u.write_runId output now)) := by
        refine ⟨u.write output now r, ?_, hwrite output r hout hruns⟩
        rw [KeyedTable.get?_modifyAt, if_pos hid.symm, hget, Option.map_some]
      cases fault with
      | none => exact hafter
      | raises error committed usable =>
        cases committed with
        | true => exact hafter
        | false => exact ⟨r, hget, hruns⟩

theorem RunsFor.write_other {u : RunUpdate} {row : RunRow} (h : RunsFor env call row)
    (hstatus : u.newStatus ≠ .succeeded) (output : Option JsonObject) (now : Instant) :
    RunsFor env call (u.write output now row) where
  tenantId := h.tenantId
  input := h.input
  startedAt := h.startedAt
  recorded := fun hsucceeded =>
    absurd (ExecutionRunStatus.value_injective _ .succeeded hsucceeded) hstatus

theorem snapshot_runOutput {result : QueryResponse} {output : Option JsonObject}
    (h : snapshotOptional (some (runOutput result)) = .ok output) :
    result.citations = [] ∧ output = some (outputDocument result) := by
  by_cases hcited : result.citations = []
  · rw [runOutput_of_uncited hcited] at h
    exact ⟨hcited, by simpa [snapshotOptional] using h.symm⟩
  · rw [runOutput_of_cited hcited] at h
    cases h

theorem RunsFor.write_succeeded {row : RunRow} {result : QueryResponse}
    {output : Option JsonObject} (h : RunsFor env call row)
    (hworkflow : env.workflow = .returned result)
    (hout : snapshotOptional (some (runOutput result)) = .ok output) (now : Instant) :
    RunsFor env call ((succeededUpdate call result).write output now row) where
  tenantId := h.tenantId
  input := h.input
  startedAt := h.startedAt
  recorded := fun _ => by
    obtain ⟨huncited, rfl⟩ := snapshot_runOutput hout
    exact ⟨rfl, result, hworkflow, huncited, rfl⟩

theorem runQuery_hasRun {s : Session} (hs : HasRun env call s.runs) :
    HasRun env call (runQuery env call s).1.runs := by
  have hrunning : HasRun env call
      (commitUpdate env s (toRunningUpdate call) call.runningAt env.toRunning).1.runs :=
    commitUpdate_hasRun (by rfl)
      (fun output _ _ h => h.write_other (by simp [toRunningUpdate]) output _) hs
  unfold runQuery
  split
  · rename_i s' error hcommit
    rw [hcommit] at hrunning
    exact hrunning
  · rename_i s' hcommit
    rw [hcommit] at hrunning
    split
    · exact hrunning
    · rename_i result hworkflow
      have hsucceeded : HasRun env call (commitUpdate env s' (succeededUpdate call result)
          call.finishedAt env.recording).1.runs :=
        commitUpdate_hasRun (by rfl) (fun _ _ hout h => h.write_succeeded hworkflow hout _) hrunning
      split
      · rename_i hrecord
        rw [hrecord] at hsucceeded
        exact hsucceeded
      · rename_i hrecord
        rw [hrecord] at hsucceeded
        exact hsucceeded

theorem closeRun_hasRun {s : Session} (hs : HasRun env call s.runs) :
    HasRun env call (closeRun env call s).1 := by
  have hquery := runQuery_hasRun hs
  cases hrun : runQuery env call s with
  | mk s' outcome =>
    rw [hrun] at hquery
    cases outcome with
    | ok result => simpa [closeRun, hrun] using hquery
    | error error =>
      cases error with
      | cancelled => simpa [closeRun, hrun] using hquery
      | exception text =>
        rw [closeRun_exception_fst hrun]
        exact commitUpdate_hasRun (by rfl)
          (fun output _ _ h => h.write_other (by simp [failedUpdate]) output _) hquery

theorem queryV1_hasRun (env : Surroundings) (call : QueryCall) {runs : RunTable}
    (hfresh : runs.get? call.runId = none) : HasRun env call (queryV1 env call runs).1 := by
  cases hcreate : createRun runs (newRun call) with
  | error e =>
    obtain ⟨created, row, hok, _⟩ := createRun_of_fresh
      (show runs.get? (newRun call).runId = none from hfresh)
    rw [hok] at hcreate
    cases hcreate
  | ok result =>
    obtain ⟨created, row⟩ := result
    simp only [queryV1, hcreate]
    apply closeRun_hasRun
    simp only [createRun, snapshot_toPy, bind, Except.bind] at hcreate
    split at hcreate
    · rename_i created' hinsert
      obtain ⟨rfl, rfl⟩ := Prod.mk.inj (Except.ok.inj hcreate)
      refine ⟨_, (KeyedTable.get?_insert? hinsert call.runId).trans (if_pos rfl), rfl, rfl, rfl, ?_⟩
      intro hstatus
      simp [newRun, ExecutionRunStatus.value] at hstatus
    · cases hcreate

structure ViewAgrees (result : QueryResponse) (s : ExecutionRunSummary) : Prop where
  claimsCount : s.claimsCount = result.claims.length
  citationsCount : s.citationsCount = result.citations.length
  answer : s.answer = result.answer.map String.ofList
  warnings : s.warnings = result.warnings.map String.ofList

theorem texts_strings {α : Type} (text : α → String) (l : List α) :
    texts (.list (l.map fun x => JsonValue.str (text x))) = some (l.map text) := by
  simp only [texts]
  induction l with
  | nil => rfl
  | cons x l ih => simp [ih]

/-- The output has no key `claims` and no key `citations`, so the counts are those of a default. -/
theorem summarize_recorded (url : Option (List Char)) {run : ExecutionRun} {call : QueryCall}
    {result : QueryResponse} (hinput : run.input = runInput call)
    (houtput : run.output = outputDocument result)
    (hstarted : run.startedAt = some call.startedAt) :
    ∃ s, summarize url run = some s ∧ s.claimsCount = 0 ∧ s.citationsCount = 0 ∧
      s.answer = result.answer.map String.ofList ∧
      s.warnings = result.warnings.map String.ofList := by
  have hquestion : textOrNone (JsonObject.find "question" run.input) = some (some call.question) := by
    rw [hinput]
    rfl
  have hclaims : jsonLength (listAt "claims" run.output) = some 0 := by
    rw [houtput]
    rfl
  have hcitations : jsonLength (listAt "citations" run.output) = some 0 := by
    rw [houtput]
    rfl
  have hanswer : textOrNone (JsonObject.find "answer" run.output) =
      some (result.answer.map String.ofList) := by
    rw [houtput]
    cases hanswer : result.answer <;> simp [outputDocument, JsonObject.find, textOrNone, hanswer]
  have hwarnings : texts (listAt "warnings" run.output) =
      some (result.warnings.map String.ofList) := by
    rw [houtput]
    exact texts_strings String.ofList result.warnings
  unfold summarize
  simp only [hquestion, hclaims, hcitations, hanswer, hwarnings, hstarted]
  exact ⟨_, rfl, rfl, rfl, rfl, rfl⟩

theorem mem_listRecentExecutions {db : OperatorDb} {op : Call} {order : RecentOrder db.runs}
    {limit : ListLimit} {answer : List ExecutionRunSummary} {s : ExecutionRunSummary}
    (h : listRecentExecutions db op order limit = .ok answer) (hs : s ∈ answer) :
    ∃ row run, row ∈ db.runs.rows ∧ sqlRunToDomain row = .ok run ∧ summaryAnswer op run = .ok s := by
  rcases listRecentExecutions_cases h with rfl | ⟨runs, _, hread, hsummaries⟩
  · cases hs
  · obtain ⟨run, hrun, hsummary⟩ :=
      Correspondence.exists_left_of_mem (Correspondence.of_mapM hsummaries) hs
    obtain ⟨row, hrow, hone⟩ := Correspondence.exists_left_of_mem (read_rows hread)
      (List.mem_of_mem_filter hrun)
    exact ⟨row, run, order.perm.mem_iff.mp (List.mem_of_mem_take hrow), hone, hsummary⟩

/-- The response of the workflow is in the table as the output of the run. -/
def Recorded (env : Surroundings) (call : QueryCall) (runs : RunTable) (result : QueryResponse) :
    Prop :=
  env.workflow = .returned result ∧
    ∃ row, runs.get? call.runId = some row ∧ row.status = "succeeded"

theorem recorded_row {env : Surroundings} {call : QueryCall} {runs : RunTable}
    (hfresh : runs.get? call.runId = none) {result : QueryResponse}
    (hrecorded : Recorded env call (queryV1 env call runs).1 result) :
    result.citations = [] ∧ ∃ row run, (queryV1 env call runs).1.get? call.runId = some row ∧
      sqlRunToDomain row = .ok run ∧ run.tenantId = call.tenantId ∧
      ∀ url, ∃ s, summarize url run = some s ∧ s.claimsCount = 0 ∧ s.citationsCount = 0 ∧
        s.answer = result.answer.map String.ofList ∧
        s.warnings = result.warnings.map String.ofList := by
  obtain ⟨hworkflow, row, hget, hstatus⟩ := hrecorded
  obtain ⟨row', hget', hruns⟩ := queryV1_hasRun env call hfresh
  obtain rfl : row' = row := Option.some.inj (hget'.symm.trans hget)
  obtain ⟨hfinished, result', hworkflow', huncited, houtput⟩ := hruns.recorded hstatus
  obtain rfl : result' = result := by
    rw [hworkflow] at hworkflow'
    exact (WorkflowOutcome.returned.inj hworkflow').symm
  have hreadable : Readable row' := ⟨.succeeded, by rw [hstatus]; rfl, fun _ => hfinished⟩
  obtain ⟨run, hrun⟩ := sqlRunToDomain_ok_iff.mpr hreadable
  have hread := sqlRunToDomain_readAs hrun
  exact ⟨huncited, row', run, hget, hrun, hread.tenantId.trans hruns.tenantId, fun url =>
    summarize_recorded url (hread.input.trans hruns.input) (hread.output.trans houtput)
      (hread.startedAt.trans hruns.startedAt)⟩

structure RunShown (db : OperatorDb) (op : Call) (runId : UUID) (result : QueryResponse) : Prop where
  summary : ∃ s, getExecutionSummary db op runId = .ok s ∧ ViewAgrees result s
  listed : ∀ order limit answer, listRecentExecutions db op order limit = .ok answer →
    ∀ s ∈ answer, s.runId = runId → ViewAgrees result s

theorem viewAgrees_iff {result : QueryResponse} (huncited : result.citations = [])
    {s : ExecutionRunSummary} (h : s.claimsCount = 0 ∧ s.citationsCount = 0 ∧
      s.answer = result.answer.map String.ofList ∧
      s.warnings = result.warnings.map String.ofList) :
    ViewAgrees result s ↔ result.claims = [] := by
  obtain ⟨hclaims, hcitations, hanswer, hwarnings⟩ := h
  constructor
  · intro hview
    exact List.length_eq_zero_iff.mp (hview.claimsCount.symm.trans hclaims)
  · intro hnone
    exact ⟨by rw [hclaims, hnone]; rfl, by rw [hcitations, huncited]; rfl, hanswer, hwarnings⟩

theorem runShown_iff (env : Surroundings) (call : QueryCall) {runs : RunTable}
    (hfresh : runs.get? call.runId = none) {result : QueryResponse}
    (hrecorded : Recorded env call (queryV1 env call runs).1 result) (db : OperatorDb)
    (hdb : db.runs.get? call.runId = (queryV1 env call runs).1.get? call.runId) (op : Call)
    (hanswers : op.fails = false) (hown : op.foreign call.tenantId = false) :
    RunShown db op call.runId result ↔ result.claims = [] := by
  obtain ⟨huncited, row, run, hget, hrun, htenant, hsummary⟩ := recorded_row hfresh hrecorded
  rw [← hdb] at hget
  have hanswer : ∀ s, summaryAnswer op run = .ok s →
      (ViewAgrees result s ↔ result.claims = []) := by
    intro s hs
    obtain ⟨s', hs', hfields⟩ := hsummary (traceUrl op run.runId)
    simp only [summaryAnswer, hs'] at hs
    obtain rfl := Except.ok.inj hs
    exact viewAgrees_iff huncited hfields
  obtain ⟨s, hs, hfields⟩ := hsummary (traceUrl op run.runId)
  have hshown : getExecutionSummary db op call.runId = .ok s := by
    have hfound : getRun db op call.runId = some run := by
      simp [getRun, hanswers, hget, hrun, Except.toOption]
    simp [getExecutionSummary, hfound, htenant, hown, summaryAnswer, hs]
  constructor
  · intro h
    obtain ⟨s', hs', hview⟩ := h.summary
    obtain rfl : s = s' := Except.ok.inj (hshown.symm.trans hs')
    exact (viewAgrees_iff huncited hfields).mp hview
  · intro hnone
    refine ⟨⟨s, hshown, (viewAgrees_iff huncited hfields).mpr hnone⟩, ?_⟩
    intro order limit answer hlist s' hs' hid
    obtain ⟨row', run', hrow', hrun', hsummary'⟩ := mem_listRecentExecutions hlist hs'
    have hshows := summaryAnswer_shows (sqlRunToDomain_readAs hrun') hsummary'
    obtain rfl : row' = row := by
      apply db.runs.eq_of_mem hrow' (db.runs.get?_some_iff.mp hget).1
      rw [← hshows.1, hid, (db.runs.get?_some_iff.mp hget).2]
    obtain rfl : run = run' := Except.ok.inj (hrun.symm.trans hrun')
    exact (hanswer s' hsummary').mpr hnone

def noIndexYet : QueryResponse := workflowResponse 1 0 lateIndex isIt

end GroundGraph.Operator

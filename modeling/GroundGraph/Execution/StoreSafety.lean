import GroundGraph.Execution.Concurrency

/-! Safety of the execution store in every reachable state. -/

set_option autoImplicit false

namespace GroundGraph.Execution

structure StoreSafe (s : StoreState) : Prop where
  run_paths : ∀ r ∈ s.runs.rows, (runHistory s r.runId).IsChain RunEdge ∧
    (runHistory s r.runId).head? = some r.status ∧
    (runHistory s r.runId).getLast? = some "pending"
  step_paths : ∀ r ∈ s.steps.rows, (stepHistory s r.stepId).IsChain StepEdge ∧
    (stepHistory s r.stepId).head? = some r.status ∧
    (stepHistory s r.stepId).getLast? = some "pending"
  run_absorbing : ∀ r ∈ s.runs.rows, ∀ x : ExecutionRunStatus, r.status = x.value →
    x.isTerminal = true → ∀ calls t, storeSystem.run s calls = some t →
      ∃ r', t.runs.get? r.runId = some r' ∧ r'.status = x.value
  step_absorbing : ∀ r ∈ s.steps.rows, ∀ x : ExecutionStepStatus, r.status = x.value →
    x.isTerminal = true → ∀ calls t, storeSystem.run s calls = some t →
      ∃ r', t.steps.get? r.stepId = some r' ∧ r'.status = x.value
  run_races : ∀ r ∈ s.runs.rows, ∀ x : ExecutionRunStatus, r.status = x.value →
    ∀ calls t, storeSystem.run s calls = some t →
      ∃ new, t.log = new ++ s.log ∧ new.map Outcome.call = calls.reverse ∧
        RaceSettled (StoreCall.racesRun r.runId x) calls new
  step_races : ∀ r ∈ s.steps.rows, ∀ x : ExecutionStepStatus, r.status = x.value →
    ∀ calls t, storeSystem.run s calls = some t →
      ∃ new, t.log = new ++ s.log ∧ new.map Outcome.call = calls.reverse ∧
        RaceSettled (StoreCall.racesStep r.stepId x) calls new
  losers : ∀ call : StoreCall, call.isUpdate = true → ∀ e, execCall s call = .error e →
    (e.isRefusal = true ∨ call.outputError = some e) ∧
      storeStep s call = some { s with log := ⟨call, some e⟩ :: s.log }
  run_finished : ∀ r ∈ s.runs.rows, ∃ x : ExecutionRunStatus, r.status = x.value ∧
    (r.finishedAt.isSome ↔ x.isTerminal = true)
  run_loads : ∀ r ∈ s.runs.rows, ∃ run, sqlRunToDomain r = .ok run ∧ run.runId = r.runId ∧
    r.status = run.status.value
  step_loads : ∀ r ∈ s.steps.rows, ∃ step, sqlStepToDomain r = .ok step ∧
    step.stepId = r.stepId ∧ r.status = step.status.value

theorem update_loses {s : StoreState} {call : StoreCall} (hupd : call.isUpdate = true)
    {e : ExecutionError} (h : execCall s call = .error e) :
    storeStep s call = some { s with log := ⟨call, some e⟩ :: s.log } := by
  have hcall : call.asCallersDo = true := by
    cases call with
    | createRun run => cases hupd
    | createStep step => cases hupd
    | updateRunStatus u now age => rfl
    | updateStepStatus u now age => rfl
  simp [storeStep, hcall, h]

def sampleRun : ExecutionRun :=
  { runId := 1, workflow := "query", status := .pending, principal := "p", tenantId := "t"
    terminalConsistency := by decide }

def moveRun (expected new : ExecutionRunStatus) : StoreCall :=
  .updateRunStatus { runId := 1, expectedStatus := expected, newStatus := new } 10 0

def finishRace : List StoreCall :=
  [.createRun sampleRun, moveRun .pending .running, moveRun .running .succeeded,
   moveRun .running .failed]

/-- Any two or more calls that race from the status a run has: exactly one takes
effect. -/
def EveryRaceHasWinner : Prop :=
  ∀ s, storeSystem.Reachable s → ∀ r ∈ s.runs.rows, ∀ x : ExecutionRunStatus,
    r.status = x.value → ∀ calls t, 2 ≤ calls.length →
      (∀ c ∈ calls, c.racesRun r.runId x = true) → storeSystem.run s calls = some t →
        ∀ new, t.log = new ++ s.log → winners (StoreCall.racesRun r.runId x) new = 1

def finished : List StoreCall :=
  [.createRun sampleRun, moveRun .pending .running, moveRun .running .succeeded]

def restartRace : List StoreCall :=
  [moveRun .succeeded .running, moveRun .succeeded .failed]

end GroundGraph.Execution

import GroundGraph.Identifiers
import GroundGraph.Json
import GroundGraph.Library.GuardedHistory

/-! Execution runs and steps: `domain/execution.py` and
`infrastructure/postgres/execution_store.py`. Each method is one function on the
committed table; the guarded `UPDATE` is atomic.
-/

set_option autoImplicit false

namespace GroundGraph.Execution

inductive ExecutionRunStatus where
  | pending | running | succeeded | failed | cancelled
  deriving DecidableEq, Repr

inductive ExecutionStepStatus where
  | pending | running | succeeded | failed | skipped
  deriving DecidableEq, Repr

def ExecutionRunStatus.value : ExecutionRunStatus → String
  | .pending => "pending"
  | .running => "running"
  | .succeeded => "succeeded"
  | .failed => "failed"
  | .cancelled => "cancelled"

def ExecutionStepStatus.value : ExecutionStepStatus → String
  | .pending => "pending"
  | .running => "running"
  | .succeeded => "succeeded"
  | .failed => "failed"
  | .skipped => "skipped"

/-- `ExecutionRunStatus(text)`. -/
def ExecutionRunStatus.ofValue? : String → Option ExecutionRunStatus
  | "pending" => some .pending
  | "running" => some .running
  | "succeeded" => some .succeeded
  | "failed" => some .failed
  | "cancelled" => some .cancelled
  | _ => none

/-- `ExecutionStepStatus(text)`. -/
def ExecutionStepStatus.ofValue? : String → Option ExecutionStepStatus
  | "pending" => some .pending
  | "running" => some .running
  | "succeeded" => some .succeeded
  | "failed" => some .failed
  | "skipped" => some .skipped
  | _ => none

theorem ExecutionRunStatus.ofValue?_value (a : ExecutionRunStatus) : ofValue? a.value = some a := by
  cases a <;> rfl

theorem ExecutionStepStatus.ofValue?_value (a : ExecutionStepStatus) :
    ofValue? a.value = some a := by
  cases a <;> rfl

theorem ExecutionRunStatus.value_injective (a b : ExecutionRunStatus) (h : a.value = b.value) :
    a = b := by
  have hsome := congrArg ofValue? h
  rw [ofValue?_value, ofValue?_value] at hsome
  exact Option.some.inj hsome

theorem ExecutionStepStatus.value_injective (a b : ExecutionStepStatus) (h : a.value = b.value) :
    a = b := by
  have hsome := congrArg ofValue? h
  rw [ofValue?_value, ofValue?_value] at hsome
  exact Option.some.inj hsome

def allowedRunTransitions : ExecutionRunStatus → List ExecutionRunStatus
  | .pending => [.running, .cancelled]
  | .running => [.succeeded, .failed, .cancelled]
  | .succeeded => []
  | .failed => []
  | .cancelled => []

def allowedStepTransitions : ExecutionStepStatus → List ExecutionStepStatus
  | .pending => [.running, .skipped]
  | .running => [.succeeded, .failed, .skipped]
  | .succeeded => []
  | .failed => []
  | .skipped => []

/-- The statuses that an update stamps with `finished_at`. -/
def ExecutionRunStatus.isTerminal (a : ExecutionRunStatus) : Bool :=
  decide (a ∈ [succeeded, failed, cancelled])

def ExecutionStepStatus.isTerminal (a : ExecutionStepStatus) : Bool :=
  decide (a ∈ [succeeded, failed, skipped])

/-- The domain model; its validator is the last field. -/
structure ExecutionRun where
  runId : UUID
  workflow : String
  status : ExecutionRunStatus
  principal : String
  tenantId : String
  input : JsonObject := []
  output : JsonObject := []
  startedAt : Option Instant := none
  finishedAt : Option Instant := none
  errorCode : Option String := none
  errorMessage : Option String := none
  indexVersionId : Option UUID := none
  promptVersionId : Option String := none
  modelVersion : Option String := none
  terminalConsistency : status.isTerminal = true → finishedAt.isSome = true

structure ExecutionStep where
  stepId : UUID
  runId : UUID
  name : String
  status : ExecutionStepStatus
  attempt : Int := 1
  dependsOn : List UUID := []
  input : JsonObject := []
  output : JsonObject := []
  startedAt : Option Instant := none
  finishedAt : Option Instant := none
  errorCode : Option String := none
  errorMessage : Option String := none
  attempt_ge : 1 ≤ attempt

structure RunRow where
  runId : UUID
  workflow : String
  status : String
  principal : String
  tenantId : String
  input : JsonObject
  output : JsonObject
  startedAt : Option Instant
  finishedAt : Option Instant
  errorCode : Option String
  errorMessage : Option String
  indexVersionId : Option UUID
  promptVersionId : Option String
  modelVersion : Option String

structure StepRow where
  stepId : UUID
  runId : UUID
  name : String
  status : String
  attempt : Int
  dependsOn : List UUID
  input : JsonObject
  output : JsonObject
  startedAt : Option Instant
  finishedAt : Option Instant
  errorCode : Option String
  errorMessage : Option String

abbrev RunTable := KeyedTable RunRow.runId
abbrev StepTable := KeyedTable StepRow.stepId

/-- What the store raises. The two conflicts are one exception class with two
messages; `integrity` and `validation` come from the database and from pydantic. -/
inductive ExecutionError where
  | invalidTransition (current target : String)
  | notFound (id : UUID)
  | statusChanged (id : UUID) (expected : String)
  | updateLostRace (id : UUID)
  | json (error : JsonError)
  | unknownStatus (text : String)
  | integrity
  | validation
  deriving DecidableEq, Repr

/-- `InvalidTransitionError`, `NotFoundError` or `ConcurrencyConflictError`. -/
def ExecutionError.isRefusal : ExecutionError → Bool
  | .invalidTransition _ _ => true
  | .notFound _ => true
  | .statusChanged _ _ => true
  | .updateLostRace _ => true
  | _ => false

/-- `snapshot_json_object` under this store's exceptions. -/
def snapshot (value : PyValue) : Except ExecutionError JsonObject :=
  match snapshotJsonObject value with
  | .ok object => .ok object
  | .error e => .error (.json e)

@[simp] theorem snapshot_toPy (object : JsonObject) :
    snapshot (JsonObject.toPy object) = .ok object := by
  simp [snapshot]

/-- `snapshot_json_object(output)` when an output is given. -/
def snapshotOptional : Option PyValue → Except ExecutionError (Option JsonObject)
  | none => .ok none
  | some value =>
    match snapshot value with
    | .ok object => .ok (some object)
    | .error e => .error e

def createRun (t : RunTable) (run : ExecutionRun) : Except ExecutionError (RunTable × RunRow) := do
  let input ← snapshot (JsonObject.toPy run.input)
  let output ← snapshot (JsonObject.toPy run.output)
  let row : RunRow :=
    { runId := run.runId
      workflow := run.workflow
      status := run.status.value
      principal := run.principal
      tenantId := run.tenantId
      input := input
      output := output
      startedAt := run.startedAt
      finishedAt := run.finishedAt
      errorCode := run.errorCode
      errorMessage := run.errorMessage
      indexVersionId := run.indexVersionId
      promptVersionId := run.promptVersionId
      modelVersion := run.modelVersion }
  match t.insert? row with
  | some t' => pure (t', row)
  | none => throw .integrity

/-- A step names its run through a foreign key. -/
def createStep (runs : RunTable) (t : StepTable) (step : ExecutionStep) :
    Except ExecutionError (StepTable × StepRow) := do
  let input ← snapshot (JsonObject.toPy step.input)
  let output ← snapshot (JsonObject.toPy step.output)
  let row : StepRow :=
    { stepId := step.stepId
      runId := step.runId
      name := step.name
      status := step.status.value
      attempt := step.attempt
      dependsOn := step.dependsOn
      input := input
      output := output
      startedAt := step.startedAt
      finishedAt := step.finishedAt
      errorCode := step.errorCode
      errorMessage := step.errorMessage }
  if (runs.get? step.runId).isNone then throw .integrity
  match t.insert? row with
  | some t' => pure (t', row)
  | none => throw .integrity

/-- What follows an `UPDATE` that matched no row: `existing` is what
`session.get` finds afterwards. -/
def explainMiss {σ : Type} [DecidableEq σ] (id : UUID) (ofValue? : String → Option σ)
    (value : σ → String) (expected : σ) (existing : Option String) : ExecutionError :=
  match existing with
  | none => .notFound id
  | some text =>
    match ofValue? text with
    | none => .unknownStatus text
    | some status => if status ≠ expected then .statusChanged id (value expected)
      else .updateLostRace id

structure RunUpdate where
  runId : UUID
  expectedStatus : ExecutionRunStatus
  newStatus : ExecutionRunStatus
  errorCode : Option String := none
  errorMessage : Option String := none
  output : Option PyValue := none

/-- `update_values`, applied to a row. -/
def RunUpdate.write (u : RunUpdate) (output : Option JsonObject) (now : Instant)
    (r : RunRow) : RunRow :=
  { r with
    status := u.newStatus.value
    finishedAt := if u.newStatus.isTerminal then some now else r.finishedAt
    errorCode := u.errorCode.or r.errorCode
    errorMessage := u.errorMessage.or r.errorMessage
    output := output.getD r.output }

@[simp] theorem RunUpdate.write_runId (u : RunUpdate) (output : Option JsonObject)
    (now : Instant) (r : RunRow) : (u.write output now r).runId = r.runId := rfl

def updateRunStatus (t : RunTable) (u : RunUpdate) (now : Instant) (existing : Option RunRow) :
    Except ExecutionError (RunTable × RunRow) := do
  if u.newStatus ∉ allowedRunTransitions u.expectedStatus then
    throw (.invalidTransition u.expectedStatus.value u.newStatus.value)
  let output ← snapshotOptional u.output
  match t.updateReturning u.runId (fun r => decide (r.status = u.expectedStatus.value))
    (u.write output now) (u.write_runId output now) with
  | some returned => pure returned
  | none => throw (explainMiss u.runId ExecutionRunStatus.ofValue? ExecutionRunStatus.value
      u.expectedStatus (existing.map RunRow.status))

structure StepUpdate where
  stepId : UUID
  expectedStatus : ExecutionStepStatus
  newStatus : ExecutionStepStatus
  errorCode : Option String := none
  errorMessage : Option String := none

def StepUpdate.write (u : StepUpdate) (now : Instant) (r : StepRow) : StepRow :=
  { r with
    status := u.newStatus.value
    finishedAt := if u.newStatus.isTerminal then some now else r.finishedAt
    errorCode := u.errorCode.or r.errorCode
    errorMessage := u.errorMessage.or r.errorMessage }

@[simp] theorem StepUpdate.write_stepId (u : StepUpdate) (now : Instant) (r : StepRow) :
    (u.write now r).stepId = r.stepId := rfl

def updateStepStatus (t : StepTable) (u : StepUpdate) (now : Instant) (existing : Option StepRow) :
    Except ExecutionError (StepTable × StepRow) := do
  if u.newStatus ∉ allowedStepTransitions u.expectedStatus then
    throw (.invalidTransition u.expectedStatus.value u.newStatus.value)
  match t.updateReturning u.stepId (fun r => decide (r.status = u.expectedStatus.value))
    (u.write now) (u.write_stepId now) with
  | some returned => pure returned
  | none => throw (explainMiss u.stepId ExecutionStepStatus.ofValue? ExecutionStepStatus.value
      u.expectedStatus (existing.map StepRow.status))

def sqlRunToDomain (sql : RunRow) : Except ExecutionError ExecutionRun := do
  match ExecutionRunStatus.ofValue? sql.status with
  | none => throw (.unknownStatus sql.status)
  | some status =>
    let input ← snapshot (JsonObject.toPy sql.input)
    let output ← snapshot (JsonObject.toPy sql.output)
    if h : status.isTerminal = true → sql.finishedAt.isSome = true then
      pure
        { runId := sql.runId
          workflow := sql.workflow
          status := status
          principal := sql.principal
          tenantId := sql.tenantId
          input := input
          output := output
          startedAt := sql.startedAt
          finishedAt := sql.finishedAt
          errorCode := sql.errorCode
          errorMessage := sql.errorMessage
          indexVersionId := sql.indexVersionId
          promptVersionId := sql.promptVersionId
          modelVersion := sql.modelVersion
          terminalConsistency := h }
    else throw .validation

def sqlStepToDomain (sql : StepRow) : Except ExecutionError ExecutionStep := do
  match ExecutionStepStatus.ofValue? sql.status with
  | none => throw (.unknownStatus sql.status)
  | some status =>
    let input ← snapshot (JsonObject.toPy sql.input)
    let output ← snapshot (JsonObject.toPy sql.output)
    if h : 1 ≤ sql.attempt then
      pure
        { stepId := sql.stepId
          runId := sql.runId
          name := sql.name
          status := status
          attempt := sql.attempt
          dependsOn := sql.dependsOn
          input := input
          output := output
          startedAt := sql.startedAt
          finishedAt := sql.finishedAt
          errorCode := sql.errorCode
          errorMessage := sql.errorMessage
          attempt_ge := h }
    else throw .validation

theorem createRun_ok {t t' : RunTable} {run : ExecutionRun} {row : RunRow}
    (h : createRun t run = .ok (t', row)) :
    t.insert? row = some t' ∧ row.runId = run.runId ∧ row.status = run.status.value ∧
      row.finishedAt = run.finishedAt := by
  simp only [createRun, snapshot_toPy, bind, Except.bind] at h
  split at h
  · rename_i t₁ ht
    obtain ⟨rfl, rfl⟩ := Prod.mk.inj (Except.ok.inj h)
    exact ⟨ht, rfl, rfl, rfl⟩
  · cases h

theorem createStep_ok {runs : RunTable} {t t' : StepTable} {step : ExecutionStep} {row : StepRow}
    (h : createStep runs t step = .ok (t', row)) :
    t.insert? row = some t' ∧ row.stepId = step.stepId ∧ row.status = step.status.value ∧
      row.finishedAt = step.finishedAt ∧ row.attempt = step.attempt := by
  simp only [createStep, snapshot_toPy, bind, Except.bind, pure, Except.pure] at h
  split at h
  · cases h
  · split at h
    · rename_i t₁ ht
      obtain ⟨rfl, rfl⟩ := Prod.mk.inj (Except.ok.inj h)
      exact ⟨ht, rfl, rfl, rfl, rfl⟩
    · cases h

end GroundGraph.Execution

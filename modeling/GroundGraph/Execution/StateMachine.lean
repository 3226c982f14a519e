import GroundGraph.Execution.Store
import GroundGraph.Library.LabelledSystem
import GroundGraph.Library.Transaction

/-! The execution store under any interleaving of committed calls. The state keeps,
next to the two tables, every committed version of a row and the outcome of every
call; a read that follows a missed `UPDATE` sees some committed version.
-/

set_option autoImplicit false

namespace GroundGraph.Execution

inductive StoreCall where
  | createRun (run : ExecutionRun)
  | createStep (step : ExecutionStep)
  | updateRunStatus (update : RunUpdate) (now : Instant) (age : Nat)
  | updateStepStatus (update : StepUpdate) (now : Instant) (age : Nat)

structure Outcome where
  call : StoreCall
  raised : Option ExecutionError

structure StoreState where
  runs : RunTable
  steps : StepTable
  /-- Newest first, as the log is. -/
  runVersions : List RunRow
  stepVersions : List StepRow
  log : List Outcome

/-- Every caller creates a run or a step pending and without `finished_at`. -/
def StoreCall.asCallersDo : StoreCall → Bool
  | .createRun run => decide (run.status = .pending) && run.finishedAt.isNone
  | .createStep step => decide (step.status = .pending) && step.finishedAt.isNone
  | _ => true

/-- The version with this age of the row under a key; too old an age finds nothing. -/
def readVersion {ρ : Type} (key : ρ → UUID) (versions : List ρ) (id : UUID) (age : Nat) :
    Option ρ :=
  (StatusColumn.versionsOf key versions id)[age]?

def execCall (s : StoreState) : StoreCall → Except ExecutionError StoreState
  | .createRun run => do
    let (runs, row) ← createRun s.runs run
    pure { s with runs := runs, runVersions := row :: s.runVersions }
  | .createStep step => do
    let (steps, row) ← createStep s.runs s.steps step
    pure { s with steps := steps, stepVersions := row :: s.stepVersions }
  | .updateRunStatus u now age => do
    let (runs, row) ← updateRunStatus s.runs u now
      (readVersion RunRow.runId s.runVersions u.runId age)
    pure { s with runs := runs, runVersions := row :: s.runVersions }
  | .updateStepStatus u now age => do
    let (steps, row) ← updateStepStatus s.steps u now
      (readVersion StepRow.stepId s.stepVersions u.stepId age)
    pure { s with steps := steps, stepVersions := row :: s.stepVersions }

/-- A call that raises commits nothing. -/
def storeStep (s : StoreState) (call : StoreCall) : Option StoreState :=
  if call.asCallersDo then
    match execCall s call with
    | .ok t => some { t with log := ⟨call, none⟩ :: s.log }
    | .error e => some { s with log := ⟨call, some e⟩ :: s.log }
  else none

def storeSystem : LabelledSystem StoreState StoreCall where
  start := ⟨.empty, .empty, [], [], []⟩
  step := storeStep

def runTransitions : TransitionTable ExecutionRunStatus where
  start := .pending
  allowed a b := decide (b ∈ allowedRunTransitions a)
  rank
    | .pending => 0
    | .running => 1
    | _ => 2
  rank_lt := by
    intro a b
    cases a <;> cases b <;> simp [allowedRunTransitions]

def stepTransitions : TransitionTable ExecutionStepStatus where
  start := .pending
  allowed a b := decide (b ∈ allowedStepTransitions a)
  rank
    | .pending => 0
    | .running => 1
    | _ => 2
  rank_lt := by
    intro a b
    cases a <;> cases b <;> simp [allowedStepTransitions]

def runColumn : StatusColumn RunRow.runId ExecutionRunStatus String where
  status := RunRow.status
  closed r := r.finishedAt.isSome
  value := ExecutionRunStatus.value
  transitions := runTransitions

def stepColumn : StatusColumn StepRow.stepId ExecutionStepStatus String where
  status := StepRow.status
  closed r := r.finishedAt.isSome
  value := ExecutionStepStatus.value
  transitions := stepTransitions

theorem run_terminal_iff (a : ExecutionRunStatus) :
    runTransitions.Terminal a ↔ a.isTerminal = true := by
  cases a with
  | pending => exact iff_of_false (fun h => absurd (h .running) (by decide)) (by decide)
  | running => exact iff_of_false (fun h => absurd (h .failed) (by decide)) (by decide)
  | succeeded => exact iff_of_true (fun b => by cases b <;> rfl) rfl
  | failed => exact iff_of_true (fun b => by cases b <;> rfl) rfl
  | cancelled => exact iff_of_true (fun b => by cases b <;> rfl) rfl

theorem step_terminal_iff (a : ExecutionStepStatus) :
    stepTransitions.Terminal a ↔ a.isTerminal = true := by
  cases a with
  | pending => exact iff_of_false (fun h => absurd (h .running) (by decide)) (by decide)
  | running => exact iff_of_false (fun h => absurd (h .failed) (by decide)) (by decide)
  | succeeded => exact iff_of_true (fun b => by cases b <;> rfl) rfl
  | failed => exact iff_of_true (fun b => by cases b <;> rfl) rfl
  | skipped => exact iff_of_true (fun b => by cases b <;> rfl) rfl

theorem RunUpdate.writes (u : RunUpdate) (output : Option JsonObject) (now : Instant) :
    runColumn.Writes u.newStatus (u.write output now) where
  key := u.write_runId output now
  status := fun _ => rfl
  closes := by
    intro h r
    simp [runColumn, RunUpdate.write, (run_terminal_iff _).mp h]
  keeps := by
    intro h r
    simp [runColumn, RunUpdate.write, mt (run_terminal_iff _).mpr h]

theorem StepUpdate.writes (u : StepUpdate) (now : Instant) :
    stepColumn.Writes u.newStatus (u.write now) where
  key := u.write_stepId now
  status := fun _ => rfl
  closes := by
    intro h r
    simp [stepColumn, StepUpdate.write, (step_terminal_iff _).mp h]
  keeps := by
    intro h r
    simp [stepColumn, StepUpdate.write, mt (step_terminal_iff _).mpr h]

def Outcome.runMove (id : UUID) : Outcome → Option (Move ExecutionRunStatus)
  | ⟨.updateRunStatus u _ _, none⟩ =>
    if u.runId = id then some ⟨u.expectedStatus, u.newStatus⟩ else none
  | _ => none

def Outcome.stepMove (id : UUID) : Outcome → Option (Move ExecutionStepStatus)
  | ⟨.updateStepStatus u _ _, none⟩ =>
    if u.stepId = id then some ⟨u.expectedStatus, u.newStatus⟩ else none
  | _ => none

def runMoves (log : List Outcome) (id : UUID) : List (Move ExecutionRunStatus) :=
  log.filterMap (Outcome.runMove id)

def stepMoves (log : List Outcome) (id : UUID) : List (Move ExecutionStepStatus) :=
  log.filterMap (Outcome.stepMove id)

structure StoreInv (s : StoreState) : Prop where
  runs : runColumn.Tracks s.runs s.runVersions (runMoves s.log)
  steps : stepColumn.Tracks s.steps s.stepVersions (stepMoves s.log)
  attempts : ∀ id r, s.steps.get? id = some r → 1 ≤ r.attempt

theorem runMoves_cons_of_none {o : Outcome} {log : List Outcome}
    (h : ∀ id, o.runMove id = none) : runMoves (o :: log) = runMoves log := by
  funext id
  simp [runMoves, h id]

theorem stepMoves_cons_of_none {o : Outcome} {log : List Outcome}
    (h : ∀ id, o.stepMove id = none) : stepMoves (o :: log) = stepMoves log := by
  funext id
  simp [stepMoves, h id]

theorem runMoves_update (u : RunUpdate) (now : Instant) (age : Nat) (log : List Outcome) :
    runMoves (⟨.updateRunStatus u now age, none⟩ :: log) =
      StatusColumn.addMove (runMoves log) u.runId ⟨u.expectedStatus, u.newStatus⟩ := by
  funext id
  by_cases h : u.runId = id
  · simp [runMoves, StatusColumn.addMove, Outcome.runMove, h]
  · simp [runMoves, StatusColumn.addMove, Outcome.runMove, h, Ne.symm h]

theorem stepMoves_update (u : StepUpdate) (now : Instant) (age : Nat) (log : List Outcome) :
    stepMoves (⟨.updateStepStatus u now age, none⟩ :: log) =
      StatusColumn.addMove (stepMoves log) u.stepId ⟨u.expectedStatus, u.newStatus⟩ := by
  funext id
  by_cases h : u.stepId = id
  · simp [stepMoves, StatusColumn.addMove, Outcome.stepMove, h]
  · simp [stepMoves, StatusColumn.addMove, Outcome.stepMove, h, Ne.symm h]

theorem updateRunStatus_ok {t t' : RunTable} {u : RunUpdate} {now : Instant}
    {existing : Option RunRow} {row : RunRow}
    (h : updateRunStatus t u now existing = .ok (t', row)) :
    u.newStatus ∈ allowedRunTransitions u.expectedStatus ∧
      ∃ output, snapshotOptional u.output = .ok output ∧
        t.updateReturning u.runId (fun r => decide (r.status = u.expectedStatus.value))
          (u.write output now) (u.write_runId output now) = some (t', row) := by
  by_cases hallowed : u.newStatus ∈ allowedRunTransitions u.expectedStatus
  · refine ⟨hallowed, ?_⟩
    cases hout : snapshotOptional u.output with
    | error e =>
      simp [updateRunStatus, hallowed, hout, bind, Except.bind] at h
    | ok output =>
      refine ⟨output, rfl, ?_⟩
      simp only [updateRunStatus, hallowed, hout, bind, Except.bind, pure, Except.pure,
        not_true_eq_false, if_false] at h
      split at h
      · rename_i returned hret
        rw [hret, Except.ok.inj h]
      · cases h
  · simp [updateRunStatus, hallowed, bind, Except.bind, throw, throwThe,
      MonadExceptOf.throw] at h

theorem updateRunStatus_of_match {t : RunTable} {u : RunUpdate} {r : RunRow}
    {output : Option JsonObject} (hallowed : u.newStatus ∈ allowedRunTransitions u.expectedStatus)
    (hout : snapshotOptional u.output = .ok output) (hget : t.get? u.runId = some r)
    (hstatus : r.status = u.expectedStatus.value) (now : Instant) (existing : Option RunRow) :
    updateRunStatus t u now existing =
      .ok (t.modifyAt u.runId (u.write output now) (u.write_runId output now),
        u.write output now r) := by
  simp [updateRunStatus, hallowed, hout, bind, Except.bind, pure, Except.pure,
    KeyedTable.updateReturning, hget, hstatus]

theorem updateRunStatus_of_other {t : RunTable} {u : RunUpdate} {r : RunRow}
    (hget : t.get? u.runId = some r) (hstatus : r.status ≠ u.expectedStatus.value) (now : Instant)
    (existing : Option RunRow) : ∃ e, updateRunStatus t u now existing = .error e := by
  cases h : updateRunStatus t u now existing with
  | error e => exact ⟨e, rfl⟩
  | ok result =>
    obtain ⟨_, output, _, hret⟩ := updateRunStatus_ok h
    obtain ⟨r', hr', hmatch, _⟩ := KeyedTable.updateReturning_some_iff.mp hret
    rw [hget] at hr'
    obtain rfl := Option.some.inj hr'
    exact absurd (of_decide_eq_true hmatch) hstatus

theorem updateStepStatus_ok {t t' : StepTable} {u : StepUpdate} {now : Instant}
    {existing : Option StepRow} {row : StepRow}
    (h : updateStepStatus t u now existing = .ok (t', row)) :
    u.newStatus ∈ allowedStepTransitions u.expectedStatus ∧
      t.updateReturning u.stepId (fun r => decide (r.status = u.expectedStatus.value))
        (u.write now) (u.write_stepId now) = some (t', row) := by
  by_cases hallowed : u.newStatus ∈ allowedStepTransitions u.expectedStatus
  · refine ⟨hallowed, ?_⟩
    simp only [updateStepStatus, hallowed, bind, Except.bind, pure, Except.pure,
      not_true_eq_false, if_false] at h
    split at h
    · rename_i returned hret
      rw [hret, Except.ok.inj h]
    · cases h
  · simp [updateStepStatus, hallowed, bind, Except.bind, throw, throwThe,
      MonadExceptOf.throw] at h

theorem createRun_inv {s : StoreState} {run : ExecutionRun} {t : RunTable} {row : RunRow}
    (hi : StoreInv s) (hpending : run.status = .pending) (hopen : run.finishedAt = none)
    (h : createRun s.runs run = .ok (t, row)) :
    StoreInv { s with
      runs := t, runVersions := row :: s.runVersions, log := ⟨.createRun run, none⟩ :: s.log } := by
  obtain ⟨hins, _, hstatus, hfin⟩ := createRun_ok h
  refine ⟨?_, ?_, hi.attempts⟩
  · rw [runMoves_cons_of_none fun _ => rfl]
    refine hi.runs.insert hins ?_ ?_ ?_
    · simp only [runColumn, runTransitions, hstatus, hpending]
    · simp [runColumn, hfin, hopen]
    · rw [show runColumn.transitions = runTransitions from rfl, run_terminal_iff]
      decide
  · rw [stepMoves_cons_of_none fun _ => rfl]
    exact hi.steps

theorem createStep_inv {s : StoreState} {step : ExecutionStep} {t : StepTable} {row : StepRow}
    (hi : StoreInv s) (hpending : step.status = .pending) (hopen : step.finishedAt = none)
    (h : createStep s.runs s.steps step = .ok (t, row)) :
    StoreInv { s with
      steps := t, stepVersions := row :: s.stepVersions
      log := ⟨.createStep step, none⟩ :: s.log } := by
  obtain ⟨hins, _, hstatus, hfin, hattempt⟩ := createStep_ok h
  refine ⟨?_, ?_, ?_⟩
  · rw [runMoves_cons_of_none fun _ => rfl]
    exact hi.runs
  · rw [stepMoves_cons_of_none fun _ => rfl]
    refine hi.steps.insert hins ?_ ?_ ?_
    · simp only [stepColumn, stepTransitions, hstatus, hpending]
    · simp [stepColumn, hfin, hopen]
    · rw [show stepColumn.transitions = stepTransitions from rfl, step_terminal_iff]
      decide
  · intro id r hr
    rw [KeyedTable.get?_insert? hins] at hr
    split at hr
    · obtain rfl := Option.some.inj hr
      rw [hattempt]
      exact step.attempt_ge
    · exact hi.attempts id r hr

theorem updateRunStatus_inv {s : StoreState} {u : RunUpdate} {now : Instant} {age : Nat}
    {existing : Option RunRow} {t : RunTable} {row : RunRow} (hi : StoreInv s)
    (h : updateRunStatus s.runs u now existing = .ok (t, row)) :
    StoreInv { s with
      runs := t, runVersions := row :: s.runVersions
      log := ⟨.updateRunStatus u now age, none⟩ :: s.log } := by
  obtain ⟨hallowed, output, _, hret⟩ := updateRunStatus_ok h
  refine ⟨?_, ?_, hi.attempts⟩
  · rw [runMoves_update]
    exact hi.runs.update ExecutionRunStatus.value_injective (u.writes output now)
      (decide_eq_true hallowed) hret
  · rw [stepMoves_cons_of_none fun _ => rfl]
    exact hi.steps

theorem updateStepStatus_inv {s : StoreState} {u : StepUpdate} {now : Instant} {age : Nat}
    {existing : Option StepRow} {t : StepTable} {row : StepRow} (hi : StoreInv s)
    (h : updateStepStatus s.steps u now existing = .ok (t, row)) :
    StoreInv { s with
      steps := t, stepVersions := row :: s.stepVersions
      log := ⟨.updateStepStatus u now age, none⟩ :: s.log } := by
  obtain ⟨hallowed, hret⟩ := updateStepStatus_ok h
  refine ⟨?_, ?_, ?_⟩
  · rw [runMoves_cons_of_none fun _ => rfl]
    exact hi.runs
  · rw [stepMoves_update]
    exact hi.steps.update ExecutionStepStatus.value_injective (u.writes now)
      (decide_eq_true hallowed) hret
  · obtain ⟨x, hx, _, rfl, _⟩ := KeyedTable.updateReturning_some_iff.mp hret
    intro id r hr
    rw [KeyedTable.get?_modifyAt] at hr
    split at hr
    · rename_i hid
      subst hid
      rw [hx] at hr
      obtain rfl := Option.some.inj hr
      exact hi.attempts _ x hx
    · exact hi.attempts id r hr

theorem StoreInv.raised {s : StoreState} (hi : StoreInv s) (call : StoreCall)
    (e : ExecutionError) : StoreInv { s with log := ⟨call, some e⟩ :: s.log } := by
  refine ⟨?_, ?_, hi.attempts⟩
  · rw [runMoves_cons_of_none fun _ => by cases call <;> rfl]
    exact hi.runs
  · rw [stepMoves_cons_of_none fun _ => by cases call <;> rfl]
    exact hi.steps

/-- Everything a step can be: a call that went through, or one that raised and
left the tables alone. -/
theorem storeStep_cases {s s' : StoreState} {call : StoreCall} (h : storeStep s call = some s') :
    call.asCallersDo = true ∧
      ((∃ t, execCall s call = .ok t ∧ s' = { t with log := ⟨call, none⟩ :: s.log }) ∨
        (∃ e, execCall s call = .error e ∧ s' = { s with log := ⟨call, some e⟩ :: s.log })) := by
  simp only [storeStep, Option.ite_none_right_eq_some] at h
  obtain ⟨hcall, h⟩ := h
  refine ⟨hcall, ?_⟩
  cases hexec : execCall s call with
  | ok t =>
    rw [hexec] at h
    exact Or.inl ⟨t, rfl, (Option.some.inj h).symm⟩
  | error e =>
    rw [hexec] at h
    exact Or.inr ⟨e, rfl, (Option.some.inj h).symm⟩

theorem storeStep_inv (s : StoreState) (call : StoreCall) (s' : StoreState) (hi : StoreInv s)
    (h : storeStep s call = some s') : StoreInv s' := by
  obtain ⟨hcall, ⟨t, hexec, rfl⟩ | ⟨e, _, rfl⟩⟩ := storeStep_cases h
  · cases call with
    | createRun run =>
      obtain ⟨⟨runs, row⟩, hrun, hpure⟩ := Except.bind_ok_iff.mp hexec
      obtain rfl := Except.ok.inj hpure
      simp only [StoreCall.asCallersDo, Bool.and_eq_true, decide_eq_true_eq,
        Option.isNone_iff_eq_none] at hcall
      exact createRun_inv hi hcall.1 hcall.2 hrun
    | createStep step =>
      obtain ⟨⟨steps, row⟩, hstep, hpure⟩ := Except.bind_ok_iff.mp hexec
      obtain rfl := Except.ok.inj hpure
      simp only [StoreCall.asCallersDo, Bool.and_eq_true, decide_eq_true_eq,
        Option.isNone_iff_eq_none] at hcall
      exact createStep_inv hi hcall.1 hcall.2 hstep
    | updateRunStatus u now age =>
      obtain ⟨⟨runs, row⟩, hupd, hpure⟩ := Except.bind_ok_iff.mp hexec
      obtain rfl := Except.ok.inj hpure
      exact updateRunStatus_inv hi hupd
    | updateStepStatus u now age =>
      obtain ⟨⟨steps, row⟩, hupd, hpure⟩ := Except.bind_ok_iff.mp hexec
      obtain rfl := Except.ok.inj hpure
      exact updateStepStatus_inv hi hupd
  · exact hi.raised call e

theorem start_inv : StoreInv storeSystem.start :=
  ⟨StatusColumn.Tracks.start, StatusColumn.Tracks.start, fun _ _ h => by
    simp [storeSystem] at h⟩

theorem reachable_inv {s : StoreState} (hs : storeSystem.Reachable s) : StoreInv s :=
  storeSystem.reachable_invariant start_inv storeStep_inv hs

end GroundGraph.Execution

import GroundGraph.Execution.StateMachine

/-! What callers of the execution store can rely on, whatever the interleaving:
legal histories, absorbing terminal statuses, races with at most one winner, and
rows that always load.
-/

set_option autoImplicit false

namespace GroundGraph.Execution

/-- The committed status texts of one run, newest first. -/
def runHistory (s : StoreState) (id : UUID) : List String :=
  (StatusColumn.versionsOf RunRow.runId s.runVersions id).map RunRow.status

def stepHistory (s : StoreState) (id : UUID) : List String :=
  (StatusColumn.versionsOf StepRow.stepId s.stepVersions id).map StepRow.status

/-- `a` may be followed by `b` in `ALLOWED_RUN_TRANSITIONS`. -/
def RunEdge (b a : String) : Prop :=
  ∃ x y : ExecutionRunStatus, a = x.value ∧ b = y.value ∧ y ∈ allowedRunTransitions x

def StepEdge (b a : String) : Prop :=
  ∃ x y : ExecutionStepStatus, a = x.value ∧ b = y.value ∧ y ∈ allowedStepTransitions x

/-- An update of this run that expects `x`. -/
def StoreCall.racesRun (id : UUID) (x : ExecutionRunStatus) : StoreCall → Bool
  | .updateRunStatus u _ _ => decide (u.runId = id) && decide (u.expectedStatus = x)
  | _ => false

def StoreCall.racesStep (id : UUID) (x : ExecutionStepStatus) : StoreCall → Bool
  | .updateStepStatus u _ _ => decide (u.stepId = id) && decide (u.expectedStatus = x)
  | _ => false

def StoreCall.outputError : StoreCall → Option ExecutionError
  | .updateRunStatus u _ _ =>
    match snapshotOptional u.output with
    | .ok _ => none
    | .error e => some e
  | _ => none

/-- Asks for a move of the transition table, with an output that can be stored. -/
def StoreCall.asksLegalMove : StoreCall → Bool
  | .updateRunStatus u now age =>
    decide (u.newStatus ∈ allowedRunTransitions u.expectedStatus) &&
      (StoreCall.updateRunStatus u now age).outputError.isNone
  | .updateStepStatus u _ _ => decide (u.newStatus ∈ allowedStepTransitions u.expectedStatus)
  | _ => false

def StoreCall.isUpdate : StoreCall → Bool
  | .updateRunStatus _ _ _ => true
  | .updateStepStatus _ _ _ => true
  | _ => false

def winners (races : StoreCall → Bool) (log : List Outcome) : Nat :=
  log.countP fun o => races o.call && o.raised.isNone

theorem winners_eq_countP {α : Type} {races : StoreCall → Bool} {move : Outcome → Option α}
    {p : α → Bool} (h : ∀ o : Outcome, (races o.call && o.raised.isNone) =
      ((move o).map p).getD false) (log : List Outcome) :
    winners races log = (log.filterMap move).countP p := by
  rw [winners, List.countP_filterMap, funext h]

theorem winners_runs (id : UUID) (x : ExecutionRunStatus) (log : List Outcome) :
    winners (StoreCall.racesRun id x) log =
      (runMoves log id).countP fun m => decide (m.source = x) := by
  refine winners_eq_countP ?_ log
  rintro ⟨call, raised⟩
  cases call with
  | updateRunStatus u now age =>
    cases raised with
    | some e => simp [StoreCall.racesRun, Outcome.runMove]
    | none => by_cases hid : u.runId = id <;> simp [StoreCall.racesRun, Outcome.runMove, hid]
  | createRun run => rfl
  | createStep step => rfl
  | updateStepStatus u now age => rfl

theorem winners_steps (id : UUID) (x : ExecutionStepStatus) (log : List Outcome) :
    winners (StoreCall.racesStep id x) log =
      (stepMoves log id).countP fun m => decide (m.source = x) := by
  refine winners_eq_countP ?_ log
  rintro ⟨call, raised⟩
  cases call with
  | updateStepStatus u now age =>
    cases raised with
    | some e => simp [StoreCall.racesStep, Outcome.stepMove]
    | none => by_cases hid : u.stepId = id <;> simp [StoreCall.racesStep, Outcome.stepMove, hid]
  | createRun run => rfl
  | createStep step => rfl
  | updateRunStatus u now age => rfl

theorem runHistory_path {s : StoreState} (hi : StoreInv s) {id : UUID} {r : RunRow}
    (hr : s.runs.get? id = some r) :
    (runHistory s id).IsChain RunEdge ∧ (runHistory s id).head? = some r.status ∧
      (runHistory s id).getLast? = some "pending" := by
  obtain ⟨hchain, hhead, hlast⟩ := hi.runs.path hr
  refine ⟨hchain.imp ?_, hhead, hlast⟩
  rintro b a ⟨x, y, ha, hb, hallowed⟩
  exact ⟨x, y, ha, hb, of_decide_eq_true hallowed⟩

theorem stepHistory_path {s : StoreState} (hi : StoreInv s) {id : UUID} {r : StepRow}
    (hr : s.steps.get? id = some r) :
    (stepHistory s id).IsChain StepEdge ∧ (stepHistory s id).head? = some r.status ∧
      (stepHistory s id).getLast? = some "pending" := by
  obtain ⟨hchain, hhead, hlast⟩ := hi.steps.path hr
  refine ⟨hchain.imp ?_, hhead, hlast⟩
  rintro b a ⟨x, y, ha, hb, hallowed⟩
  exact ⟨x, y, ha, hb, of_decide_eq_true hallowed⟩

theorem storeStep_log {s t : StoreState} {call : StoreCall} (h : storeStep s call = some t) :
    ∃ o : Outcome, t.log = o :: s.log ∧ o.call = call := by
  obtain ⟨_, ⟨u, _, rfl⟩ | ⟨e, _, rfl⟩⟩ := storeStep_cases h
  · exact ⟨_, rfl, rfl⟩
  · exact ⟨_, rfl, rfl⟩

/-- A call adds at most one move to what is read off the log. -/
theorem storeStep_moves {α : Type} (move : Outcome → Option α) {s t : StoreState}
    {call : StoreCall} (h : storeStep s call = some t) :
    t.log.filterMap move = s.log.filterMap move ∨
      ∃ m, t.log.filterMap move = m :: s.log.filterMap move := by
  obtain ⟨o, ho, _⟩ := storeStep_log h
  rw [ho, List.filterMap_cons]
  cases move o with
  | none => exact Or.inl rfl
  | some m => exact Or.inr ⟨m, rfl⟩

theorem execCall_versions {s t : StoreState} {call : StoreCall} (h : execCall s call = .ok t) :
    (∃ new, t.runVersions = new ++ s.runVersions) ∧
      ∃ new, t.stepVersions = new ++ s.stepVersions := by
  cases call with
  | createRun run =>
    obtain ⟨⟨runs, row⟩, _, hpure⟩ := Except.bind_ok_iff.mp h
    obtain rfl := Except.ok.inj hpure
    exact ⟨⟨[row], rfl⟩, ⟨[], rfl⟩⟩
  | createStep step =>
    obtain ⟨⟨steps, row⟩, _, hpure⟩ := Except.bind_ok_iff.mp h
    obtain rfl := Except.ok.inj hpure
    exact ⟨⟨[], rfl⟩, ⟨[row], rfl⟩⟩
  | updateRunStatus u now age =>
    obtain ⟨⟨runs, row⟩, _, hpure⟩ := Except.bind_ok_iff.mp h
    obtain rfl := Except.ok.inj hpure
    exact ⟨⟨[row], rfl⟩, ⟨[], rfl⟩⟩
  | updateStepStatus u now age =>
    obtain ⟨⟨steps, row⟩, _, hpure⟩ := Except.bind_ok_iff.mp h
    obtain rfl := Except.ok.inj hpure
    exact ⟨⟨[], rfl⟩, ⟨[row], rfl⟩⟩

theorem storeStep_present {s t : StoreState} {call : StoreCall} (hi : StoreInv s)
    (h : storeStep s call = some t) (id : UUID) :
    ((s.runs.get? id).isSome → (t.runs.get? id).isSome) ∧
      ((s.steps.get? id).isSome → (t.steps.get? id).isSome) := by
  have ht := storeStep_inv s call t hi h
  obtain ⟨_, ⟨u, hexec, rfl⟩ | ⟨e, _, rfl⟩⟩ := storeStep_cases h
  · obtain ⟨⟨newRuns, hruns⟩, ⟨newSteps, hsteps⟩⟩ := execCall_versions hexec
    have hr := ht.runs
    have hs := ht.steps
    simp only [hruns] at hr
    simp only [hsteps] at hs
    exact ⟨hi.runs.present hr, hi.steps.present hs⟩
  · exact ⟨fun h => h, fun h => h⟩

theorem storeStep_keepsRun (id : UUID) (s : StoreState) (call : StoreCall) (t : StoreState)
    (hs : StoreInv s ∧ (s.runs.get? id).isSome) (h : storeStep s call = some t) :
    StoreInv t ∧ (t.runs.get? id).isSome :=
  ⟨storeStep_inv s call t hs.1 h, (storeStep_present hs.1 h id).1 hs.2⟩

theorem storeStep_keepsStep (id : UUID) (s : StoreState) (call : StoreCall) (t : StoreState)
    (hs : StoreInv s ∧ (s.steps.get? id).isSome) (h : storeStep s call = some t) :
    StoreInv t ∧ (t.steps.get? id).isSome :=
  ⟨storeStep_inv s call t hs.1 h, (storeStep_present hs.1 h id).2 hs.2⟩

theorem run_log {s t : StoreState} {calls : List StoreCall}
    (h : storeSystem.run s calls = some t) :
    ∃ new, t.log = new ++ s.log ∧ new.map Outcome.call = calls.reverse := by
  induction calls generalizing s with
  | nil =>
    obtain rfl : s = t := by simpa using h
    exact ⟨[], rfl, rfl⟩
  | cons c cs ih =>
    obtain ⟨m, hm, ht⟩ := storeSystem.run_cons_iff.mp h
    obtain ⟨new, hnew, hcalls⟩ := ih ht
    obtain ⟨o, ho, hcall⟩ := storeStep_log hm
    exact ⟨new ++ [o], by simp [hnew, ho], by simp [hcalls, hcall]⟩

theorem explainMiss_isRefusal {σ ρ : Type} [DecidableEq σ] {id : UUID}
    {ofValue? : String → Option σ} {value : σ → String} {expected : σ} {status : ρ → String}
    {existing : Option ρ} (h : ∀ r, existing = some r → (ofValue? (status r)).isSome) :
    (explainMiss id ofValue? value expected (existing.map status)).isRefusal = true := by
  cases existing with
  | none => rfl
  | some r =>
    obtain ⟨found, hfound⟩ := Option.isSome_iff_exists.mp (h r rfl)
    simp only [Option.map_some, explainMiss, hfound]
    split <;> rfl

theorem updateRunStatus_error {t : RunTable} {u : RunUpdate} {now : Instant}
    {existing : Option RunRow} {e : ExecutionError}
    (hread : ∀ r, existing = some r → (ExecutionRunStatus.ofValue? r.status).isSome)
    (h : updateRunStatus t u now existing = .error e) :
    e.isRefusal = true ∨ snapshotOptional u.output = .error e := by
  by_cases hallowed : u.newStatus ∈ allowedRunTransitions u.expectedStatus
  · cases hout : snapshotOptional u.output with
    | error e' =>
      simp only [updateRunStatus, hallowed, hout, bind, Except.bind, not_true_eq_false,
        if_false] at h
      exact Or.inr (by rw [Except.error.inj h])
    | ok output =>
      simp only [updateRunStatus, hallowed, hout, bind, Except.bind, pure, Except.pure,
        not_true_eq_false, if_false] at h
      split at h
      · cases h
      · obtain rfl := Except.error.inj h
        exact Or.inl (explainMiss_isRefusal hread)
  · simp only [updateRunStatus, hallowed, bind, Except.bind, not_false_eq_true, if_true] at h
    obtain rfl := Except.error.inj h
    exact Or.inl rfl

theorem updateStepStatus_error {t : StepTable} {u : StepUpdate} {now : Instant}
    {existing : Option StepRow} {e : ExecutionError}
    (hread : ∀ r, existing = some r → (ExecutionStepStatus.ofValue? r.status).isSome)
    (h : updateStepStatus t u now existing = .error e) : e.isRefusal = true := by
  by_cases hallowed : u.newStatus ∈ allowedStepTransitions u.expectedStatus
  · simp only [updateStepStatus, hallowed, bind, Except.bind, pure, Except.pure,
      not_true_eq_false, if_false] at h
    split at h
    · cases h
    · obtain rfl := Except.error.inj h
      exact explainMiss_isRefusal hread
  · simp only [updateStepStatus, hallowed, bind, Except.bind, not_false_eq_true, if_true] at h
    obtain rfl := Except.error.inj h
    rfl

theorem updateRunStatus_succeeds {t : RunTable} {u : RunUpdate} (now : Instant)
    (existing : Option RunRow) {r : RunRow} {output : Option JsonObject}
    (hallowed : u.newStatus ∈ allowedRunTransitions u.expectedStatus)
    (hout : snapshotOptional u.output = .ok output) (hr : t.get? u.runId = some r)
    (hstatus : r.status = u.expectedStatus.value) :
    ∃ p, updateRunStatus t u now existing = .ok p := by
  have hupd : t.updateReturning u.runId (fun r => decide (r.status = u.expectedStatus.value))
      (u.write output now) (u.write_runId output now) =
        some (t.modifyAt u.runId (u.write output now) (u.write_runId output now),
          u.write output now r) :=
    KeyedTable.updateReturning_some_iff.mpr ⟨r, hr, decide_eq_true hstatus, rfl, rfl⟩
  exact ⟨_, by
    simp only [updateRunStatus, hallowed, hout, hupd, bind, Except.bind, pure, Except.pure,
      not_true_eq_false, if_false]
    rfl⟩

theorem updateStepStatus_succeeds {t : StepTable} {u : StepUpdate} (now : Instant)
    (existing : Option StepRow) {r : StepRow}
    (hallowed : u.newStatus ∈ allowedStepTransitions u.expectedStatus)
    (hr : t.get? u.stepId = some r) (hstatus : r.status = u.expectedStatus.value) :
    ∃ p, updateStepStatus t u now existing = .ok p := by
  have hupd : t.updateReturning u.stepId (fun r => decide (r.status = u.expectedStatus.value))
      (u.write now) (u.write_stepId now) =
        some (t.modifyAt u.stepId (u.write now) (u.write_stepId now), u.write now r) :=
    KeyedTable.updateReturning_some_iff.mpr ⟨r, hr, decide_eq_true hstatus, rfl, rfl⟩
  exact ⟨_, by
    simp only [updateStepStatus, hallowed, hupd, bind, Except.bind, pure, Except.pure,
      not_true_eq_false, if_false]
    rfl⟩

/-- Every committed version has a status text that parses. -/
theorem readRun_parses {s : StoreState} (hi : StoreInv s) {id : UUID} {age : Nat} {r : RunRow}
    (h : readVersion RunRow.runId s.runVersions id age = some r) :
    (ExecutionRunStatus.ofValue? r.status).isSome := by
  obtain ⟨a, ha⟩ := hi.runs.value_of_version (List.mem_of_getElem? h)
  have hvalue : r.status = a.value := ha
  rw [hvalue, ExecutionRunStatus.ofValue?_value]
  rfl

theorem readStep_parses {s : StoreState} (hi : StoreInv s) {id : UUID} {age : Nat} {r : StepRow}
    (h : readVersion StepRow.stepId s.stepVersions id age = some r) :
    (ExecutionStepStatus.ofValue? r.status).isSome := by
  obtain ⟨a, ha⟩ := hi.steps.value_of_version (List.mem_of_getElem? h)
  have hvalue : r.status = a.value := ha
  rw [hvalue, ExecutionStepStatus.ofValue?_value]
  rfl

theorem update_error {s : StoreState} (hi : StoreInv s) {call : StoreCall}
    (hupd : call.isUpdate = true) {e : ExecutionError} (h : execCall s call = .error e) :
    e.isRefusal = true ∨ call.outputError = some e := by
  cases call with
  | createRun run => cases hupd
  | createStep step => cases hupd
  | updateRunStatus u now age =>
    obtain hres | ⟨p, _, hpure⟩ := Except.bind_error_iff.mp h
    · rcases updateRunStatus_error (fun r hr => readRun_parses hi hr) hres with href | hout
      · exact Or.inl href
      · exact Or.inr (by simp [StoreCall.outputError, hout])
    · cases hpure
  | updateStepStatus u now age =>
    obtain hres | ⟨p, _, hpure⟩ := Except.bind_error_iff.mp h
    · exact Or.inl (updateStepStatus_error (fun r hr => readStep_parses hi hr) hres)
    · cases hpure

theorem legal_run_moves {s t : StoreState} {call : StoreCall} {id : UUID} {x : ExecutionRunStatus}
    (hi : StoreInv s) (hpresent : (s.runs.get? id).isSome) (h : storeStep s call = some t)
    (hrace : call.racesRun id x = true) (hlegal : call.asksLegalMove = true)
    (hx : runTransitions.current (runMoves s.log id) = x) :
    runMoves t.log id ≠ runMoves s.log id := by
  obtain ⟨r, hr⟩ := Option.isSome_iff_exists.mp hpresent
  cases call with
  | createRun run => cases hrace
  | createStep step => cases hrace
  | updateStepStatus u now age => cases hrace
  | updateRunStatus u now age =>
    simp only [StoreCall.racesRun, Bool.and_eq_true, decide_eq_true_eq] at hrace
    obtain ⟨rfl, rfl⟩ := hrace
    simp only [StoreCall.asksLegalMove, StoreCall.outputError, Bool.and_eq_true,
      decide_eq_true_eq] at hlegal
    obtain ⟨hallowed, hout⟩ := hlegal
    cases hsnap : snapshotOptional u.output with
    | error e => simp [hsnap] at hout
    | ok output =>
      have hstatus : r.status = u.expectedStatus.value := by
        rw [← hx]
        exact hi.runs.status hr
      obtain ⟨_, ⟨v, _, rfl⟩ | ⟨e, hexec, _⟩⟩ := storeStep_cases h
      · simp only [runMoves_update, StatusColumn.addMove, if_true]
        exact List.cons_ne_self _ _
      · obtain ⟨p, hp⟩ := updateRunStatus_succeeds now
          (readVersion RunRow.runId s.runVersions u.runId age) hallowed hsnap hr hstatus
        obtain hres | ⟨q, _, hpure⟩ := Except.bind_error_iff.mp hexec
        · rw [hp] at hres
          cases hres
        · cases hpure

theorem legal_step_moves {s t : StoreState} {call : StoreCall} {id : UUID}
    {x : ExecutionStepStatus} (hi : StoreInv s) (hpresent : (s.steps.get? id).isSome)
    (h : storeStep s call = some t) (hrace : call.racesStep id x = true)
    (hlegal : call.asksLegalMove = true)
    (hx : stepTransitions.current (stepMoves s.log id) = x) :
    stepMoves t.log id ≠ stepMoves s.log id := by
  obtain ⟨r, hr⟩ := Option.isSome_iff_exists.mp hpresent
  cases call with
  | createRun run => cases hrace
  | createStep step => cases hrace
  | updateRunStatus u now age => cases hrace
  | updateStepStatus u now age =>
    simp only [StoreCall.racesStep, Bool.and_eq_true, decide_eq_true_eq] at hrace
    obtain ⟨rfl, rfl⟩ := hrace
    have hallowed : u.newStatus ∈ allowedStepTransitions u.expectedStatus :=
      of_decide_eq_true hlegal
    have hstatus : r.status = u.expectedStatus.value := by
      rw [← hx]
      exact hi.steps.status hr
    obtain ⟨_, ⟨v, _, rfl⟩ | ⟨e, hexec, _⟩⟩ := storeStep_cases h
    · simp only [stepMoves_update, StatusColumn.addMove, if_true]
      exact List.cons_ne_self _ _
    · obtain ⟨p, hp⟩ := updateStepStatus_succeeds now
        (readVersion StepRow.stepId s.stepVersions u.stepId age) hallowed hr hstatus
      obtain hres | ⟨q, _, hpure⟩ := Except.bind_error_iff.mp hexec
      · rw [hp] at hres
        cases hres
      · cases hpure

/-- A race on one row: the outcomes that a run of calls adds to the log, when the
row stood at the racing calls' expected status before it. -/
structure RaceSettled (races : StoreCall → Bool) (calls : List StoreCall)
    (new : List Outcome) : Prop where
  at_most_one : winners races new ≤ 1
  exactly_one : (∃ c ∈ calls, races c = true ∧ c.asksLegalMove = true) → winners races new = 1

theorem run_current {s : StoreState} (hi : StoreInv s) {id : UUID} {r : RunRow}
    (hr : s.runs.get? id = some r) {x : ExecutionRunStatus} (hx : r.status = x.value) :
    runTransitions.current (runMoves s.log id) = x :=
  ExecutionRunStatus.value_injective _ _ ((hi.runs.status hr).symm.trans hx)

theorem step_current {s : StoreState} (hi : StoreInv s) {id : UUID} {r : StepRow}
    (hr : s.steps.get? id = some r) {x : ExecutionStepStatus} (hx : r.status = x.value) :
    stepTransitions.current (stepMoves s.log id) = x :=
  ExecutionStepStatus.value_injective _ _ ((hi.steps.status hr).symm.trans hx)

theorem run_race {s t : StoreState} (hi : StoreInv s) {id : UUID} {r : RunRow}
    (hr : s.runs.get? id = some r) {x : ExecutionRunStatus} (hx : r.status = x.value)
    {calls : List StoreCall} (h : storeSystem.run s calls = some t) {new : List Outcome}
    (hnew : t.log = new ++ s.log) : RaceSettled (StoreCall.racesRun id x) calls new := by
  have hmoves : runMoves t.log id = runMoves new id ++ runMoves s.log id := by
    rw [hnew, runMoves, List.filterMap_append]
    rfl
  obtain ⟨hone, hwon⟩ := TransitionTable.race_settled (M := storeSystem)
    (T := runTransitions) (x := x) (fun u => runMoves u.log id) (storeStep_keepsRun id)
    (fun u hu => hu.1.runs.history id)
    (fun u a v _ hstep => storeStep_moves (Outcome.runMove id) hstep)
    (fun c => c.racesRun id x = true ∧ c.asksLegalMove = true)
    (fun u a v hu hstep ha hux => legal_run_moves hu.1 hu.2 hstep ha.1 ha.2 hux)
    ⟨hi, by simp [hr]⟩ (run_current hi hr hx) h hmoves
  rw [← winners_runs] at hone hwon
  exact ⟨hone, hwon⟩

theorem step_race {s t : StoreState} (hi : StoreInv s) {id : UUID} {r : StepRow}
    (hr : s.steps.get? id = some r) {x : ExecutionStepStatus} (hx : r.status = x.value)
    {calls : List StoreCall} (h : storeSystem.run s calls = some t) {new : List Outcome}
    (hnew : t.log = new ++ s.log) : RaceSettled (StoreCall.racesStep id x) calls new := by
  have hmoves : stepMoves t.log id = stepMoves new id ++ stepMoves s.log id := by
    rw [hnew, stepMoves, List.filterMap_append]
    rfl
  obtain ⟨hone, hwon⟩ := TransitionTable.race_settled (M := storeSystem)
    (T := stepTransitions) (x := x) (fun u => stepMoves u.log id) (storeStep_keepsStep id)
    (fun u hu => hu.1.steps.history id)
    (fun u a v _ hstep => storeStep_moves (Outcome.stepMove id) hstep)
    (fun c => c.racesStep id x = true ∧ c.asksLegalMove = true)
    (fun u a v hu hstep ha hux => legal_step_moves hu.1 hu.2 hstep ha.1 ha.2 hux)
    ⟨hi, by simp [hr]⟩ (step_current hi hr hx) h hmoves
  rw [← winners_steps] at hone hwon
  exact ⟨hone, hwon⟩

theorem run_terminal_stays {s t : StoreState} (hi : StoreInv s) {id : UUID} {r : RunRow}
    (hr : s.runs.get? id = some r) {x : ExecutionRunStatus} (hx : r.status = x.value)
    (hterm : x.isTerminal = true) {calls : List StoreCall}
    (h : storeSystem.run s calls = some t) :
    ∃ r', t.runs.get? id = some r' ∧ r'.status = x.value := by
  have hcurrent := run_current hi hr hx
  have ht := storeSystem.run_preserves (storeStep_keepsRun id) ⟨hi, by simp [hr]⟩ h
  obtain ⟨r', hr'⟩ := Option.isSome_iff_exists.mp ht.2
  have hstay : runMoves t.log id = runMoves s.log id :=
    TransitionTable.moves_stay_of_terminal (M := storeSystem) (T := runTransitions)
      (fun u => runMoves u.log id) storeStep_inv (fun u hu => hu.runs.history id)
      (fun u a v _ hstep => storeStep_moves (Outcome.runMove id) hstep) hi
      (by rw [hcurrent]; exact (run_terminal_iff x).mpr hterm) h
  have hstatus := ht.1.runs.status hr'
  rw [hstay] at hstatus
  rw [← hcurrent]
  exact ⟨r', hr', hstatus⟩

theorem step_terminal_stays {s t : StoreState} (hi : StoreInv s) {id : UUID} {r : StepRow}
    (hr : s.steps.get? id = some r) {x : ExecutionStepStatus} (hx : r.status = x.value)
    (hterm : x.isTerminal = true) {calls : List StoreCall}
    (h : storeSystem.run s calls = some t) :
    ∃ r', t.steps.get? id = some r' ∧ r'.status = x.value := by
  have hcurrent := step_current hi hr hx
  have ht := storeSystem.run_preserves (storeStep_keepsStep id) ⟨hi, by simp [hr]⟩ h
  obtain ⟨r', hr'⟩ := Option.isSome_iff_exists.mp ht.2
  have hstay : stepMoves t.log id = stepMoves s.log id :=
    TransitionTable.moves_stay_of_terminal (M := storeSystem) (T := stepTransitions)
      (fun u => stepMoves u.log id) storeStep_inv (fun u hu => hu.steps.history id)
      (fun u a v _ hstep => storeStep_moves (Outcome.stepMove id) hstep) hi
      (by rw [hcurrent]; exact (step_terminal_iff x).mpr hterm) h
  have hstatus := ht.1.steps.status hr'
  rw [hstay] at hstatus
  rw [← hcurrent]
  exact ⟨r', hr', hstatus⟩

/-- The status of a stored run, with `finished_at` set exactly when it is terminal. -/
theorem run_status {s : StoreState} (hi : StoreInv s) {id : UUID} {r : RunRow}
    (hr : s.runs.get? id = some r) :
    ∃ x : ExecutionRunStatus, r.status = x.value ∧ (r.finishedAt.isSome ↔ x.isTerminal = true) :=
  ⟨_, hi.runs.status hr, (hi.runs.closed id r hr).trans (run_terminal_iff _)⟩

theorem sqlRunToDomain_ok {r : RunRow} {x : ExecutionRunStatus} (hx : r.status = x.value)
    (hfin : x.isTerminal = true → r.finishedAt.isSome = true) :
    ∃ run, sqlRunToDomain r = .ok run ∧ run.runId = r.runId ∧ run.status = x := by
  simp only [sqlRunToDomain, hx, ExecutionRunStatus.ofValue?_value, snapshot_toPy, bind,
    Except.bind, dif_pos hfin]
  exact ⟨_, rfl, rfl, rfl⟩

theorem sqlStepToDomain_ok {r : StepRow} {x : ExecutionStepStatus} (hx : r.status = x.value)
    (hattempt : 1 ≤ r.attempt) :
    ∃ step, sqlStepToDomain r = .ok step ∧ step.stepId = r.stepId ∧ step.status = x := by
  simp only [sqlStepToDomain, hx, ExecutionStepStatus.ofValue?_value, snapshot_toPy, bind,
    Except.bind, dif_pos hattempt]
  exact ⟨_, rfl, rfl, rfl⟩

end GroundGraph.Execution

import GroundGraph.Api.QueryAnswers
import GroundGraph.Api.ReplayVersions
import GroundGraph.Library.Slices

/-! `POST /v1/query` in one process. The handlers of the requests that were let in take turns: each
goes on to its next commit, or through one node of its workflow. In the meantime other handlers
write about other runs, and the stores change.
-/

set_option autoImplicit false

namespace GroundGraph.Api

open GroundGraph.Answering GroundGraph.Execution GroundGraph.Neo4j GroundGraph.Retrieval

structure Stores where
  chunks : ChunkStore
  graph : Graph

structure Ports where
  cfg : HybridRetrievalConfig
  backend : SearchBackend
  llm : AnswerModel
  uuid4 : UuidSource
  text : QueryError → List Char

def Ports.over (p : Ports) (stores : Stores) : Execution where
  cfg := p.cfg
  backend := p.backend
  store := stores.chunks
  graph := stores.graph
  llm := p.llm
  uuid4 := p.uuid4
  text := p.text

def QueryCall.hybridRequest (call : QueryCall) : HybridRequest where
  question := call.question.toList
  principal := call.principal
  tenantId := call.tenantId
  indexName := call.indexName.map String.toList

/-- A request that was let in. Of `env`, the outcome of the workflow is not used: the workflow runs
over the ports of its executions. -/
structure QueryRequest where
  call : QueryCall
  env : Surroundings
  executionRunId : UUID
  maxRetries : Nat := 1
  ports : Nat → Ports

def QueryRequest.outcome (r : QueryRequest) (stores : Stores) (n : Nat) : ExecutionOutcome :=
  ((r.ports n).over stores).outcome r.call.hybridRequest

inductive Phase where
  | letIn
  | created
  | working (run : GraphRun)
  | raised (error : Raised)
  | done (answer : HttpAnswer)

structure Handler where
  request : QueryRequest
  usable : Bool := true
  phase : Phase := .letIn

def Handler.runId (h : Handler) : UUID := h.request.call.runId

abbrev HandlerTable := KeyedTable Handler.runId

def Handler.commit (h : Handler) (runs : RunTable) (u : RunUpdate) (now : Instant) (fault : Fault)
    (next : Except Raised Unit → Phase) : RunTable × Handler :=
  let (s, result) := commitUpdate h.request.env ⟨runs, h.usable⟩ u now fault
  (s.runs, { h with usable := s.usable, phase := next result })

def afterRunning (r : QueryRequest) : Except Raised Unit → Phase
  | .ok () => .working (graphStart r.executionRunId r.maxRetries)
  | .error error => .raised error

def afterRecording (r : QueryRequest) (result : QueryResponse) : Except Raised Unit → Phase
  | .ok () => .done (.ok (vectorQueryResponse r.call.runId result))
  | .error error => .raised error

def afterFailing : Except Raised Unit → Phase
  | .ok () => .done (.error 500 "Internal server error")
  | .error error => .done (.raised error)

def Handler.advance (stores : Stores) (runs : RunTable) (h : Handler) :
    Option (RunTable × Handler) :=
  let r := h.request
  match h.phase with
  | .letIn =>
    match createRun runs (newRun r.call) with
    | .error e => some (runs, { h with phase := .done (.raised (.exception (r.env.str e))) })
    | .ok (runs, _) => some (runs, { h with phase := .created })
  | .created =>
    some (h.commit runs (toRunningUpdate r.call) r.call.runningAt r.env.toRunning (afterRunning r))
  | .working run =>
    match graphStep (r.outcome stores) run with
    | some run => some (runs, { h with phase := .working run })
    | none =>
      let result := finalResponse run.state
      some (h.commit runs (succeededUpdate r.call result) r.call.finishedAt r.env.recording
        (afterRecording r result))
  | .raised .cancelled => some (runs, { h with phase := .done (.raised .cancelled) })
  | .raised (.exception text) =>
    some (h.commit runs (failedUpdate r.call text) r.call.finishedAt r.env.failing afterFailing)
  | .done _ => none

/-- What leaves the workflow as an exception, or the cancellation of the request. -/
def Handler.interrupt (error : Raised) (h : Handler) : Option Handler :=
  match h.phase with
  | .working _ => some { h with phase := .raised error }
  | _ => none

structure ServiceState where
  runs : RunTable
  handlers : HandlerTable
  stores : Stores

inductive ServiceAction where
  | request (r : QueryRequest)
  | advance (runId : UUID)
  | interrupt (runId : UUID) (error : Raised)
  | other (c : OtherCall)
  | write (stores : Stores)

/-- No run id is drawn twice. -/
def serviceStep (s : ServiceState) : ServiceAction → Option ServiceState
  | .request r =>
    (s.handlers.insert? { request := r }).map fun handlers => { s with handlers := handlers }
  | .advance runId => do
    let h ← s.handlers.get? runId
    let (runs, h) ← h.advance s.stores s.runs
    some { s with runs := runs, handlers := s.handlers.upsert h }
  | .interrupt runId error => do
    let h ← s.handlers.get? runId
    let h ← h.interrupt error
    some { s with handlers := s.handlers.upsert h }
  | .other c => some { s with runs := c.apply s.runs }
  | .write stores => some { s with stores := stores }

def serviceSystem (runs : RunTable) (stores : Stores) :
    LabelledSystem ServiceState ServiceAction where
  start := ⟨runs, .empty, stores⟩
  step := serviceStep

/-! ## Some of the runs -/

section
variable {own : UUID → Bool}

theorem createRun_restrict (t : RunTable) {run : ExecutionRun} (h : own run.runId = true) :
    createRun (t.restrict own) run =
      (createRun t run).map fun created => (created.1.restrict own, created.2) := by
  have hinsert : ∀ row : RunRow, row.runId = run.runId →
      (t.restrict own).insert? row = (t.insert? row).map fun t' => t'.restrict own :=
    fun row hrow => t.restrict_insert?_of_pos (hrow ▸ h)
  simp only [createRun, snapshot_toPy, bind, Except.bind]
  rw [hinsert]
  · cases t.insert? _ <;> rfl
  · rfl

theorem createRun_restrict_of_neg {t t' : RunTable} {run : ExecutionRun} {row : RunRow}
    (h : own run.runId = false) (hcreate : createRun t run = .ok (t', row)) :
    t'.restrict own = t.restrict own := by
  obtain ⟨hinsert, hid, _⟩ := createRun_ok hcreate
  exact KeyedTable.restrict_insert?_of_neg (hid ▸ h) hinsert

theorem updateRunStatus_restrict (t : RunTable) {u : RunUpdate} (h : own u.runId = true)
    (now : Instant) (existing : Option RunRow) :
    updateRunStatus (t.restrict own) u now existing =
      (updateRunStatus t u now existing).map fun returned => (returned.1.restrict own, returned.2) := by
  unfold updateRunStatus
  by_cases hallowed : u.newStatus ∈ allowedRunTransitions u.expectedStatus
  · cases hout : snapshotOptional u.output with
    | error e => simp [hallowed, bind, Except.bind, Except.map]
    | ok output =>
      simp only [hallowed, bind, Except.bind, not_true_eq_false, if_false, pure, Except.pure]
      rw [KeyedTable.updateReturning_restrict t h]
      cases t.updateReturning u.runId _ _ _ <;> rfl
  · simp [hallowed, bind, Except.bind, Except.map, throw, throwThe, MonadExceptOf.throw]

theorem updateRunStatus_restrict_of_neg {t t' : RunTable} {u : RunUpdate} {now : Instant}
    {existing : Option RunRow} {row : RunRow} (h : own u.runId = false)
    (hupdate : updateRunStatus t u now existing = .ok (t', row)) :
    t'.restrict own = t.restrict own := by
  obtain ⟨_, output, _, hret⟩ := updateRunStatus_ok hupdate
  obtain ⟨_, _, _, rfl, _⟩ := KeyedTable.updateReturning_some_iff.mp hret
  exact t.restrict_modifyAt_of_neg h _ _

theorem apply_restrict {c : OtherCall} (h : own c.runId = true) (runs : RunTable) :
    (c.apply runs).restrict own = c.apply (runs.restrict own) := by
  cases c with
  | create run =>
    have hrun : own run.runId = true := h
    simp only [OtherCall.apply, createRun_restrict runs hrun]
    cases createRun runs run <;> rfl
  | update u now =>
    have hrun : own u.runId = true := h
    simp only [OtherCall.apply, runs.get?_restrict hrun, updateRunStatus_restrict runs hrun]
    cases updateRunStatus runs u now (runs.get? u.runId) <;> rfl

theorem apply_restrict_of_neg {c : OtherCall} (h : own c.runId = false) (runs : RunTable) :
    (c.apply runs).restrict own = runs.restrict own := by
  cases c with
  | create run =>
    simp only [OtherCall.apply]
    split
    · rename_i hcreate
      exact createRun_restrict_of_neg h hcreate
    · rfl
  | update u now =>
    simp only [OtherCall.apply]
    split
    · rename_i hupdate
      exact updateRunStatus_restrict_of_neg h hupdate
    · rfl

def Session.restrict (own : UUID → Bool) (s : Session) : Session := ⟨s.runs.restrict own, s.usable⟩

theorem commitUpdate_restrict (env : Surroundings) (s : Session) {u : RunUpdate}
    (h : own u.runId = true) (now : Instant) (fault : Fault) :
    commitUpdate env (s.restrict own) u now fault =
      ((commitUpdate env s u now fault).1.restrict own, (commitUpdate env s u now fault).2) := by
  obtain ⟨runs, usable⟩ := s
  cases usable with
  | false => rfl
  | true =>
    simp only [commitUpdate, Session.restrict, runs.get?_restrict h, updateRunStatus_restrict runs h]
    cases updateRunStatus runs u now (runs.get? u.runId) with
    | error e => rfl
    | ok updated =>
      cases fault with
      | none => rfl
      | raises error committed usable => cases committed <;> rfl

theorem commitUpdate_restrict_of_neg (env : Surroundings) (s : Session) {u : RunUpdate}
    (h : own u.runId = false) (now : Instant) (fault : Fault) :
    (commitUpdate env s u now fault).1.runs.restrict own = s.runs.restrict own := by
  obtain ⟨runs, usable⟩ := s
  cases usable with
  | false => rfl
  | true =>
    cases hupdate : updateRunStatus runs u now (runs.get? u.runId) with
    | error e => simp [commitUpdate, hupdate]
    | ok updated =>
      have hkept := updateRunStatus_restrict_of_neg h hupdate
      cases fault with
      | none => simpa [commitUpdate, hupdate] using hkept
      | raises error committed usable =>
        cases committed <;> simp [commitUpdate, hupdate, hkept]

theorem commit_restrict (h : Handler) (runs : RunTable) {u : RunUpdate} (hu : own u.runId = true)
    (now : Instant) (fault : Fault) (next : Except Raised Unit → Phase) :
    h.commit (runs.restrict own) u now fault next =
      ((h.commit runs u now fault next).1.restrict own, (h.commit runs u now fault next).2) := by
  have hcommit := commitUpdate_restrict h.request.env ⟨runs, h.usable⟩ hu now fault
  simp only [Session.restrict] at hcommit
  simp only [Handler.commit, hcommit]

theorem advance_restrict {h : Handler} (hown : own h.runId = true) {seen stores : Stores}
    (hsees : h.request.outcome seen = h.request.outcome stores) (runs : RunTable) :
    h.advance seen (runs.restrict own) =
      (h.advance stores runs).map fun moved => (moved.1.restrict own, moved.2) := by
  obtain ⟨r, usable, phase⟩ := h
  have hrun : own r.call.runId = true := hown
  have hrestrict : ∀ u : RunUpdate, u.runId = r.call.runId → own u.runId = true :=
    fun u hu => hu ▸ hrun
  cases phase with
  | letIn =>
    have hcreate := createRun_restrict runs (show own (newRun r.call).runId = true from hrun)
    simp only [Handler.advance, hcreate]
    cases createRun runs (newRun r.call) <;> rfl
  | created =>
    simp only [Handler.advance, commit_restrict _ runs (hrestrict (toRunningUpdate r.call) rfl),
      Option.map_some]
  | working run =>
    have hsame : r.outcome seen = r.outcome stores := hsees
    simp only [Handler.advance, hsame]
    cases graphStep (r.outcome stores) run with
    | some run' => rfl
    | none =>
      simp only [commit_restrict _ runs (hrestrict (succeededUpdate r.call _) rfl), Option.map_some]
  | raised error =>
    cases error with
    | cancelled => rfl
    | exception text =>
      simp only [Handler.advance, commit_restrict _ runs (hrestrict (failedUpdate r.call text) rfl),
        Option.map_some]
  | done answer => rfl

theorem commit_restrict_of_neg (h : Handler) (runs : RunTable) {u : RunUpdate}
    (hu : own u.runId = false) (now : Instant) (fault : Fault) (next : Except Raised Unit → Phase) :
    (h.commit runs u now fault next).1.restrict own = runs.restrict own :=
  commitUpdate_restrict_of_neg h.request.env ⟨runs, h.usable⟩ hu now fault

theorem advance_restrict_of_neg {h h' : Handler} (hown : own h.runId = false) {stores : Stores}
    {runs runs' : RunTable} (hmove : h.advance stores runs = some (runs', h')) :
    runs'.restrict own = runs.restrict own := by
  obtain ⟨r, usable, phase⟩ := h
  have hrun : own r.call.runId = false := hown
  have hkept : ∀ {u : RunUpdate} {now : Instant} {fault : Fault} {next : Except Raised Unit → Phase}
      {moved : RunTable × Handler}, u.runId = r.call.runId →
      some (Handler.commit ⟨r, usable, phase⟩ runs u now fault next) = some moved →
        moved.1.restrict own = runs.restrict own := by
    intro u now fault next moved hu hmoved
    obtain rfl := Option.some.inj hmoved
    exact commit_restrict_of_neg _ runs (hu ▸ hrun) now fault next
  cases phase with
  | letIn =>
    simp only [Handler.advance] at hmove
    split at hmove
    · obtain ⟨rfl, _⟩ := Prod.mk.inj (Option.some.inj hmove)
      rfl
    · rename_i hcreate
      obtain ⟨rfl, _⟩ := Prod.mk.inj (Option.some.inj hmove)
      exact createRun_restrict_of_neg hrun hcreate
  | created => exact hkept rfl hmove
  | working run =>
    simp only [Handler.advance] at hmove
    split at hmove
    · obtain ⟨rfl, _⟩ := Prod.mk.inj (Option.some.inj hmove)
      rfl
    · exact hkept rfl hmove
  | raised error =>
    cases error with
    | cancelled =>
      obtain ⟨rfl, _⟩ := Prod.mk.inj (Option.some.inj hmove)
      rfl
    | exception text => exact hkept rfl hmove
  | done answer => cases hmove

theorem advance_request {h h' : Handler} {stores : Stores} {runs runs' : RunTable}
    (hmove : h.advance stores runs = some (runs', h')) : h'.request = h.request := by
  obtain ⟨r, usable, phase⟩ := h
  cases phase with
  | letIn =>
    simp only [Handler.advance] at hmove
    split at hmove <;> obtain ⟨_, rfl⟩ := Prod.mk.inj (Option.some.inj hmove) <;> rfl
  | created =>
    obtain ⟨_, rfl⟩ := Prod.mk.inj (Option.some.inj hmove)
    rfl
  | working run =>
    simp only [Handler.advance] at hmove
    split at hmove <;> obtain ⟨_, rfl⟩ := Prod.mk.inj (Option.some.inj hmove) <;> rfl
  | raised error =>
    cases error <;> obtain ⟨_, rfl⟩ := Prod.mk.inj (Option.some.inj hmove) <;> rfl
  | done answer => cases hmove

theorem interrupt_some {h h' : Handler} {error : Raised} (hmove : h.interrupt error = some h') :
    ∃ run, h.phase = .working run ∧ h' = { h with phase := .raised error } := by
  unfold Handler.interrupt at hmove
  split at hmove
  · rename_i run hphase
    exact ⟨run, hphase, (Option.some.inj hmove).symm⟩
  · cases hmove

/-! ## One step of the process, for some of its runs -/

def ServiceAction.concerns (own : UUID → Bool) : ServiceAction → Bool
  | .request r => own r.call.runId
  | .advance runId => own runId
  | .interrupt runId _ => own runId
  | .other c => own c.runId
  | .write _ => true

def ServiceAction.seen (view : Stores → Stores) : ServiceAction → ServiceAction
  | .write stores => .write (view stores)
  | a => a

def ServiceState.part (own : UUID → Bool) (view : Stores → Stores) (s : ServiceState) :
    ServiceState where
  runs := s.runs.restrict own
  handlers := s.handlers.restrict own
  stores := view s.stores

/-- The workflow of the request does the same over what is seen of the stores. -/
def QueryRequest.Sees (view : Stores → Stores) (r : QueryRequest) : Prop :=
  ∀ stores, r.outcome (view stores) = r.outcome stores

def SeesAll (own : UUID → Bool) (view : Stores → Stores) (s : ServiceState) : Prop :=
  ∀ h ∈ s.handlers.rows, own h.runId = true → h.request.Sees view

def ServiceAction.Sees (own : UUID → Bool) (view : Stores → Stores) : ServiceAction → Prop
  | .request r => own r.call.runId = true → r.Sees view
  | _ => True

variable {view : Stores → Stores} {s t : ServiceState}

theorem serviceStep_cases {a : ServiceAction} (h : serviceStep s a = some t) :
    (∃ r handlers, a = .request r ∧ s.handlers.insert? { request := r } = some handlers ∧
      t = { s with handlers := handlers }) ∨
    (∃ h runs h', a = .advance h.runId ∧ s.handlers.get? h.runId = some h ∧
      h.advance s.stores s.runs = some (runs, h') ∧
      t = { s with runs := runs, handlers := s.handlers.upsert h' }) ∨
    (∃ h h' error, a = .interrupt h.runId error ∧ s.handlers.get? h.runId = some h ∧
      h.interrupt error = some h' ∧ t = { s with handlers := s.handlers.upsert h' }) ∨
    (∃ c, a = .other c ∧ t = { s with runs := c.apply s.runs }) ∨
    (∃ stores, a = .write stores ∧ t = { s with stores := stores }) := by
  cases a with
  | request r =>
    obtain ⟨handlers, hinsert, rfl⟩ := Option.map_eq_some_iff.mp h
    exact Or.inl ⟨r, handlers, rfl, hinsert, rfl⟩
  | advance runId =>
    obtain ⟨x, hget, hrest⟩ := Option.bind_eq_some_iff.mp h
    obtain ⟨⟨runs, h'⟩, hmove, hset⟩ := Option.bind_eq_some_iff.mp hrest
    obtain rfl := (s.handlers.get?_some_iff.mp hget).2
    exact Or.inr (Or.inl ⟨x, runs, h', rfl, hget, hmove, (Option.some.inj hset).symm⟩)
  | interrupt runId error =>
    obtain ⟨x, hget, hrest⟩ := Option.bind_eq_some_iff.mp h
    obtain ⟨h', hmove, hset⟩ := Option.bind_eq_some_iff.mp hrest
    obtain rfl := (s.handlers.get?_some_iff.mp hget).2
    exact Or.inr (Or.inr (Or.inl ⟨x, h', error, rfl, hget, hmove, (Option.some.inj hset).symm⟩))
  | other c => exact Or.inr (Or.inr (Or.inr (Or.inl ⟨c, rfl, (Option.some.inj h).symm⟩)))
  | write stores => exact Or.inr (Or.inr (Or.inr (Or.inr ⟨stores, rfl, (Option.some.inj h).symm⟩)))

theorem SeesAll.upsert (hs : SeesAll own view s) {h k : Handler}
    (hget : s.handlers.get? h.runId = some h) (hrequest : k.request = h.request)
    (hhandlers : t.handlers = s.handlers.upsert k) : SeesAll own view t := by
  intro x hx hown
  rw [hhandlers] at hx
  rcases KeyedTable.mem_upsert hx with hx | rfl
  · exact hs x hx hown
  · have hid : x.runId = h.runId := congrArg (fun r : QueryRequest => r.call.runId) hrequest
    rw [hrequest]
    exact hs h (s.handlers.get?_some_iff.mp hget).1 (hid ▸ hown)

theorem serviceStep_sees {a : ServiceAction} (hs : SeesAll own view s) (ha : a.Sees own view)
    (hstep : serviceStep s a = some t) : SeesAll own view t := by
  obtain ⟨r, handlers, rfl, hinsert, rfl⟩ | ⟨h, runs, h', rfl, hget, hmove, rfl⟩ |
    ⟨h, h', error, rfl, hget, hmove, rfl⟩ | ⟨c, rfl, rfl⟩ | ⟨stores, rfl, rfl⟩ :=
    serviceStep_cases hstep
  · intro x hx hown
    obtain ⟨_, rfl⟩ := KeyedTable.insert?_some_iff.mp hinsert
    rcases List.mem_append.mp hx with hx | hx
    · exact hs x hx hown
    · obtain rfl := List.mem_singleton.mp hx
      exact ha hown
  · exact hs.upsert hget (advance_request hmove) rfl
  · obtain ⟨_, _, rfl⟩ := interrupt_some hmove
    exact hs.upsert (k := { h with phase := .raised error }) hget rfl rfl
  · exact hs
  · exact hs

theorem serviceStep_hidden {a : ServiceAction} (ha : a.concerns own = false)
    (hstep : serviceStep s a = some t) : t.part own view = s.part own view := by
  obtain ⟨r, handlers, rfl, hinsert, rfl⟩ | ⟨h, runs, h', rfl, hget, hmove, rfl⟩ |
    ⟨h, h', error, rfl, hget, hmove, rfl⟩ | ⟨c, rfl, rfl⟩ | ⟨stores, rfl, rfl⟩ :=
    serviceStep_cases hstep
  · have hother : own (Handler.runId { request := r }) = false := ha
    have hhandlers : handlers.restrict own = s.handlers.restrict own :=
      KeyedTable.restrict_insert?_of_neg hother hinsert
    simp only [ServiceState.part, hhandlers]
  · have hid : h'.runId = h.runId :=
      congrArg (fun r : QueryRequest => r.call.runId) (advance_request hmove)
    have hhandlers : (s.handlers.upsert h').restrict own = s.handlers.restrict own :=
      s.handlers.restrict_upsert_of_neg (hid ▸ ha)
    simp only [ServiceState.part, hhandlers, advance_restrict_of_neg ha hmove]
  · obtain ⟨_, _, rfl⟩ := interrupt_some hmove
    have hhandlers : (s.handlers.upsert { h with phase := .raised error }).restrict own =
        s.handlers.restrict own := s.handlers.restrict_upsert_of_neg ha
    simp only [ServiceState.part, hhandlers]
  · simp only [ServiceState.part, apply_restrict_of_neg ha]
  · cases ha

theorem serviceStep_visible {a : ServiceAction} (hs : SeesAll own view s)
    (ha : a.concerns own = true) (hstep : serviceStep s a = some t) :
    serviceStep (s.part own view) (a.seen view) = some (t.part own view) := by
  obtain ⟨r, handlers, rfl, hinsert, rfl⟩ | ⟨h, runs, h', rfl, hget, hmove, rfl⟩ |
    ⟨h, h', error, rfl, hget, hmove, rfl⟩ | ⟨c, rfl, rfl⟩ | ⟨stores, rfl, rfl⟩ :=
    serviceStep_cases hstep
  · have hkept : (s.handlers.restrict own).insert? { request := r } =
        some (handlers.restrict own) := by
      rw [s.handlers.restrict_insert?_of_pos (r := { request := r }) ha, hinsert]
      rfl
    simp only [ServiceAction.seen, serviceStep, ServiceState.part, hkept, Option.map_some]
  · have hid : h'.runId = h.runId :=
      congrArg (fun r : QueryRequest => r.call.runId) (advance_request hmove)
    have hsees := hs h (s.handlers.get?_some_iff.mp hget).1 ha
    have hown : own h.runId = true := ha
    have hpart := advance_restrict hown (hsees s.stores) s.runs
    rw [hmove] at hpart
    have hfound := (s.handlers.get?_restrict ha).trans hget
    have hhandlers := s.handlers.restrict_upsert_of_pos (p := own) (r := h') (hid ▸ ha)
    simp [ServiceAction.seen, serviceStep, ServiceState.part, hfound, hpart, hhandlers]
  · obtain ⟨run, hphase, rfl⟩ := interrupt_some hmove
    have hfound := (s.handlers.get?_restrict ha).trans hget
    have hhandlers := s.handlers.restrict_upsert_of_pos (p := own)
      (r := { h with phase := .raised error }) ha
    simp [ServiceAction.seen, serviceStep, ServiceState.part, hfound, hmove, hhandlers]
  · simp only [ServiceAction.seen, serviceStep, ServiceState.part, apply_restrict ha]
  · rfl

/-- Handlers of other runs are not noticed, and of the stores what is seen is enough. -/
theorem service_slice (own : UUID → Bool) (view : Stores → Stores) (runs : RunTable)
    (stores : Stores) :
    (serviceSystem runs stores).Slice (SeesAll own view) (ServiceAction.Sees own view)
      (ServiceState.part own view) (ServiceAction.concerns own) (ServiceAction.seen view) where
  keeps _ _ _ hs ha hstep := serviceStep_sees hs ha hstep
  hidden _ _ _ _ _ ha hstep := serviceStep_hidden ha hstep
  visible _ _ _ hs _ ha hstep := serviceStep_visible hs ha hstep

end

end GroundGraph.Api

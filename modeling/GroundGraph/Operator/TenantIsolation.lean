import GroundGraph.Execution.Store
import GroundGraph.Operator.ProposalAudit

/-! The endpoints of `api/operator.py` that look an object up by its id, and what their answers
tell an operator of one tenant about the objects of the others: an id of another tenant is
answered with 403, an unknown one with 404.
-/

set_option autoImplicit false

namespace GroundGraph.Operator

open GroundGraph.Execution

/-- A row of `human_review_items`. -/
structure HumanReviewItem where
  reviewId : UUID
  caseId : Option UUID := none
  runId : Option UUID := none
  itemType : String
  content : JsonObject := []
  decision : Option String := none
  decidedBy : Option String := none
  decidedAt : Option Instant := none
  createdAt : Instant

/-- A row of `user_feedback`. -/
structure UserFeedback where
  feedbackId : UUID
  runId : UUID
  vote : String
  category : Option String := none
  notes : Option String := none
  correction : Option String := none
  createdAt : Instant

structure OperatorDb where
  runs : RunTable
  reviews : KeyedTable HumanReviewItem.reviewId
  feedback : List UserFeedback := []
  proposals : Proposals
  /-- The status column of the evaluation runs, which belong to no tenant. -/
  evaluationRuns : UUID → Option String

structure Call where
  operator : OperatorIdentity
  now : Instant
  failure : Option Failure := none
  /-- The `uuid4()` of a new row. -/
  newId : UUID
  phoenixEndpoint : Option (List Char) := none

/-- The database fails before anything is read or written. -/
def Call.fails (call : Call) : Bool :=
  match call.failure with
  | some (.beforeCommit _) => true
  | _ => false

structure HttpError where
  statusCode : Nat
  detail : List Char
  deriving DecidableEq

structure ExecutionRunSummary where
  runId : UUID
  status : String
  startedAt : Instant
  finishedAt : Option Instant
  question : Option String
  answer : Option String
  claimsCount : Nat
  citationsCount : Nat
  warnings : List String
  traceUrl : Option (List Char)

/-- A value for a field of type `str | None`. -/
def textOrNone : Option JsonValue → Option (Option String)
  | none | some .null => some none
  | some (.str s) => some (some s)
  | _ => none

def texts : JsonValue → Option (List String)
  | .list items => items.mapM fun item =>
    match item with
    | .str s => some s
    | _ => none
  | _ => none

def jsonLength : JsonValue → Option Nat
  | .list items => some items.length
  | .dict entries => some entries.length
  | .str s => some s.length
  | _ => none

def listAt (key : String) (object : JsonObject) : JsonValue :=
  (JsonObject.find key object).getD (.list [])

/-- The summary, unless a value is of a type that it cannot show. -/
def summarize (traceUrl : Option (List Char)) (run : ExecutionRun) :
    Option ExecutionRunSummary := do
  let claimsCount ← jsonLength (listAt "claims" run.output)
  let citationsCount ← jsonLength (listAt "citations" run.output)
  let startedAt ← run.startedAt
  let question ← textOrNone (JsonObject.find "question" run.input)
  let answer ← textOrNone (JsonObject.find "answer" run.output)
  let warnings ← texts (listAt "warnings" run.output)
  pure
    { runId := run.runId
      status := run.status.value
      startedAt := startedAt
      finishedAt := run.finishedAt
      question := question
      answer := answer
      claimsCount := claimsCount
      citationsCount := citationsCount
      warnings := warnings
      traceUrl := traceUrl }

/-- `get_run`; `none` stands for an exception, too. -/
def getRun (db : OperatorDb) (call : Call) (runId : UUID) : Option ExecutionRun :=
  if call.fails then none
  else (db.runs.get? runId).bind fun row => (sqlRunToDomain row).toOption

def runNotFound (runId : UUID) : HttpError :=
  ⟨404, "Execution run ".toList ++ strUuid runId ++ " not found".toList⟩

/-- `not operator.is_global and tenant_id != operator.tenant_id`. -/
def Call.foreign (call : Call) (tenantId : String) : Bool :=
  !call.operator.isGlobal && decide (tenantId ≠ call.operator.tenantId)

def traceUrl (call : Call) (runId : UUID) : Option (List Char) :=
  (call.phoenixEndpoint.filter fun endpoint => decide (endpoint ≠ [])).map fun endpoint =>
    endpoint ++ "/runs/".toList ++ strUuid runId

def summaryAnswer (call : Call) (run : ExecutionRun) : Except HttpError ExecutionRunSummary :=
  match summarize (traceUrl call run.runId) run with
  | none => .error ⟨500, "Internal Server Error".toList⟩
  | some summary => .ok summary

def getExecutionSummary (db : OperatorDb) (call : Call) (runId : UUID) :
    Except HttpError ExecutionRunSummary :=
  match getRun db call runId with
  | none => .error (runNotFound runId)
  | some run =>
    if call.foreign run.tenantId then
      .error ⟨403, "Cannot access executions from other tenants".toList⟩
    else summaryAnswer call run

inductive Vote where
  | thumbsUp | thumbsDown

def Vote.value : Vote → String
  | .thumbsUp => "thumbs_up"
  | .thumbsDown => "thumbs_down"

structure FeedbackSubmission where
  executionRunId : UUID
  vote : Vote
  category : Option String := none
  correction : Option String := none
  notes : Option String := none

structure FeedbackResponse where
  feedbackId : UUID
  status : String
  createdAt : Instant

def newFeedback (call : Call) (feedback : FeedbackSubmission) : UserFeedback where
  feedbackId := call.newId
  runId := feedback.executionRunId
  vote := feedback.vote.value
  category := feedback.category
  notes := feedback.notes
  correction := feedback.correction
  createdAt := call.now

def failedToRecord (exc : List Char) : HttpError :=
  ⟨500, "Failed to record feedback: ".toList ++ exc⟩

/-- The answer once the row is written; what the commit leaves to be read may still fail. -/
def feedbackAnswer (call : Call) : Except HttpError FeedbackResponse :=
  match call.failure with
  | none => .ok ⟨call.newId, "recorded", call.now⟩
  | some (.beforeCommit exc) => .error (failedToRecord exc)
  | some (.afterCommit exc) => .error (failedToRecord exc)

def submitFeedback (db : OperatorDb) (call : Call) (feedback : FeedbackSubmission) :
    OperatorDb × Except HttpError FeedbackResponse :=
  if call.fails then (db, feedbackAnswer call)
  else
    match db.runs.get? feedback.executionRunId with
    | none => (db, .error (runNotFound feedback.executionRunId))
    | some run =>
      if call.foreign run.tenantId then
        (db, .error ⟨403, "Cannot submit feedback for execution runs from other tenants".toList⟩)
      else
        ({ db with feedback := db.feedback ++ [newFeedback call feedback] }, feedbackAnswer call)

inductive Decision where
  | approved | rejected

def Decision.value : Decision → String
  | .approved => "approved"
  | .rejected => "rejected"

structure ReviewDecisionSubmission where
  reviewId : UUID
  decision : Decision
  notes : Option String := none

structure ReviewDecisionResponse where
  reviewId : UUID
  decision : String
  decidedBy : String
  decidedAt : Instant

/-- `run_tenant_id or getattr(review_item, "tenant_id", None)`; the items have no such column. -/
def reviewTenant (db : OperatorDb) (item : HumanReviewItem) : Option String :=
  ((item.runId.bind db.runs.get?).map RunRow.tenantId).filter fun tenant => decide (tenant ≠ "")

def HumanReviewItem.decided (call : Call) (decision : ReviewDecisionSubmission)
    (item : HumanReviewItem) : HumanReviewItem :=
  { item with
    decision := some decision.decision.value
    decidedBy := some call.operator.operatorId
    decidedAt := some call.now }

/-- The test for `cross_tenant`; an item of no tenant is for global operators only. -/
def Call.foreignReview (call : Call) (tenantId : Option String) : Bool :=
  (decide (tenantId = none) && !call.operator.isGlobal) ||
    (!call.operator.isGlobal && decide (tenantId ≠ none) &&
      decide (tenantId ≠ some call.operator.tenantId))

def failedToDecide : HttpError := ⟨500, "Failed to record decision".toList⟩

def decisionAnswer (call : Call) (decision : ReviewDecisionSubmission) :
    Except HttpError ReviewDecisionResponse :=
  if call.failure.isSome then .error failedToDecide
  else .ok ⟨decision.reviewId, decision.decision.value, call.operator.operatorId, call.now⟩

def reviewNotFound (reviewId : UUID) : HttpError :=
  ⟨404, "Review item ".toList ++ strUuid reviewId ++ " not found".toList⟩

def submitReviewDecision (db : OperatorDb) (call : Call) (decision : ReviewDecisionSubmission) :
    OperatorDb × Except HttpError ReviewDecisionResponse :=
  if call.fails then (db, decisionAnswer call decision)
  else
    match db.reviews.get? decision.reviewId with
    | none => (db, .error (reviewNotFound decision.reviewId))
    | some item =>
      if call.foreignReview (reviewTenant db item) then
        (db, .error ⟨403, "Cannot modify reviews from other tenants".toList⟩)
      else
        ({ db with
            reviews := db.reviews.modifyAt decision.reviewId (HumanReviewItem.decided call decision)
              fun _ => rfl },
          decisionAnswer call decision)

def Call.context (call : Call) (db : OperatorDb) : RequestContext where
  operator := call.operator
  now := call.now
  evaluationRuns := db.evaluationRuns
  failure := call.failure

def transition (db : OperatorDb) (call : Call) (proposalId : UUID)
    (request : ProposalTransitionRequest) : OperatorDb × Answer :=
  let result := transitionProposal db.proposals (call.context db) proposalId request
  ({ db with proposals := result.1 }, result.2)

/-! ## Two states that agree on a tenant -/

def OwnReview (db : OperatorDb) (tenant : String) (item : HumanReviewItem) : Prop :=
  db.reviews.get? item.reviewId = some item ∧
    ∃ run, item.runId = some run.runId ∧ db.runs.get? run.runId = some run ∧ run.tenantId = tenant

structure AgreeOn (tenant : String) (db₁ db₂ : OperatorDb) : Prop where
  runs : ∀ row, row.tenantId = tenant →
    (db₁.runs.get? row.runId = some row ↔ db₂.runs.get? row.runId = some row)
  reviews : ∀ item, OwnReview db₁ tenant item ↔ OwnReview db₂ tenant item
  proposals : ∀ p, p.tenantId = tenant →
    (db₁.proposals.get? p.proposalId = some p ↔ db₂.proposals.get? p.proposalId = some p)

/-- The endpoints look an object up, then ask whose it is. -/
def guarded {α ρ : Type} (foreign : α → Bool) (notFound forbidden : ρ) (own : α → ρ) :
    Option α → ρ
  | none => notFound
  | some x => if foreign x then forbidden else own x

def ForeignIn {α : Type} (foreign : α → Bool) (found : Option α) : Prop :=
  ∃ x, found = some x ∧ foreign x = true

/-- Where own objects are the same, the answers tell whether there is a foreign one. -/
theorem guarded_eq_iff {α ρ : Type} {foreign : α → Bool} {notFound forbidden : ρ}
    (hne : notFound ≠ forbidden) {own₁ own₂ : α → ρ} {found₁ found₂ : Option α}
    (hagree : ∀ x, foreign x = false → (found₁ = some x ↔ found₂ = some x)) :
    guarded foreign notFound forbidden own₁ found₁ =
        guarded foreign notFound forbidden own₂ found₂ ↔
      (ForeignIn foreign found₁ ↔ ForeignIn foreign found₂) ∧
        ∀ x, found₁ = some x → foreign x = false → own₁ x = own₂ x := by
  have hown : ∀ x, foreign x = false → ¬ ForeignIn foreign (some x) := by
    rintro x hx ⟨y, hy, hforeign⟩
    rw [← Option.some.inj hy, hx] at hforeign
    cases hforeign
  have hnone : ¬ ForeignIn foreign none := fun ⟨_, h, _⟩ => by cases h
  cases found₁ with
  | none =>
    cases found₂ with
    | none => simp [guarded, ForeignIn]
    | some y =>
      cases hy : foreign y with
      | false => exact absurd ((hagree y hy).mpr rfl) (by simp)
      | true => simp [guarded, ForeignIn, hy, hne]
  | some x =>
    cases hx : foreign x with
    | false =>
      obtain rfl := (hagree x hx).mp rfl
      simp [guarded, hx]
    | true =>
      cases found₂ with
      | none => simp [guarded, ForeignIn, hx, hne.symm]
      | some y =>
        cases hy : foreign y with
        | false =>
          have hxy := (hagree y hy).mpr rfl
          rw [Option.some.inj hxy, hy] at hx
          cases hx
        | true => simp [guarded, ForeignIn, hx, hy]

section TwoStates

variable {call : Call} {db₁ db₂ : OperatorDb}

theorem mem_of_not_foreign (hlocal : call.operator.isGlobal = false) {tenantId : String} :
    call.foreign tenantId = false ↔ tenantId = call.operator.tenantId := by
  simp [Call.foreign, hlocal]

theorem runNotFound_ne {runId : UUID} {detail : List Char} : runNotFound runId ≠ ⟨403, detail⟩ := by
  intro h
  cases congrArg HttpError.statusCode h

theorem sqlRunToDomain_tenantId {row : RunRow} {run : ExecutionRun}
    (h : sqlRunToDomain row = .ok run) : run.tenantId = row.tenantId := by
  unfold sqlRunToDomain at h
  split at h
  · cases h
  · simp only [snapshot_toPy, bind, Except.bind] at h
    split at h
    · obtain rfl := Except.ok.inj h
      rfl
    · cases h

/-- The run has another tenant, and the store can read its row. -/
def ForeignRun (db : OperatorDb) (call : Call) (runId : UUID) : Prop :=
  ForeignIn (fun run : ExecutionRun => call.foreign run.tenantId) (getRun db call runId)

theorem getExecutionSummary_eq (db : OperatorDb) (call : Call) (runId : UUID) :
    getExecutionSummary db call runId = guarded (fun run : ExecutionRun => call.foreign run.tenantId)
      (.error (runNotFound runId))
      (.error ⟨403, "Cannot access executions from other tenants".toList⟩) (summaryAnswer call)
      (getRun db call runId) := by
  unfold getExecutionSummary guarded
  cases getRun db call runId <;> rfl

theorem getRun_agree (hlocal : call.operator.isGlobal = false)
    (h : AgreeOn call.operator.tenantId db₁ db₂) (runId : UUID) {run : ExecutionRun}
    (hrun : call.foreign run.tenantId = false) (hfound : getRun db₁ call runId = some run) :
    getRun db₂ call runId = some run := by
  unfold getRun at hfound ⊢
  split at hfound
  · cases hfound
  · rename_i hfails
    rw [if_neg hfails]
    obtain ⟨row, hrow, hread⟩ := Option.bind_eq_some_iff.mp hfound
    have hok : sqlRunToDomain row = .ok run := by
      cases hres : sqlRunToDomain row with
      | error e => simp [hres, Except.toOption] at hread
      | ok run' => simpa [hres, Except.toOption] using hread
    have htenant := (mem_of_not_foreign hlocal).mp hrun
    rw [sqlRunToDomain_tenantId hok] at htenant
    obtain rfl := (db₁.runs.get?_some_iff.mp hrow).2
    exact Option.bind_eq_some_iff.mpr ⟨row, (h.runs row htenant).mp hrow, hread⟩

theorem AgreeOn.symm {tenant : String} (h : AgreeOn tenant db₁ db₂) : AgreeOn tenant db₂ db₁ :=
  ⟨fun row hrow => (h.runs row hrow).symm, fun item => (h.reviews item).symm,
    fun p hp => (h.proposals p hp).symm⟩

theorem getExecutionSummary_alike_iff (hlocal : call.operator.isGlobal = false)
    (h : AgreeOn call.operator.tenantId db₁ db₂) (runId : UUID) :
    getExecutionSummary db₁ call runId = getExecutionSummary db₂ call runId ↔
      (ForeignRun db₁ call runId ↔ ForeignRun db₂ call runId) := by
  rw [getExecutionSummary_eq, getExecutionSummary_eq, guarded_eq_iff]
  · exact and_iff_left fun _ _ _ => rfl
  · exact fun heq => runNotFound_ne (Except.error.inj heq)
  · exact fun run hrun => ⟨getRun_agree hlocal h runId hrun, getRun_agree hlocal h.symm runId hrun⟩

def ForeignRow (db : OperatorDb) (call : Call) (runId : UUID) : Prop :=
  ForeignIn (fun row : RunRow => call.foreign row.tenantId) (db.runs.get? runId)

theorem submitFeedback_eq (db : OperatorDb) (call : Call) (feedback : FeedbackSubmission) :
    (submitFeedback db call feedback).2 = if call.fails then feedbackAnswer call
      else guarded (fun row : RunRow => call.foreign row.tenantId)
        (.error (runNotFound feedback.executionRunId))
        (.error ⟨403, "Cannot submit feedback for execution runs from other tenants".toList⟩)
        (fun _ => feedbackAnswer call) (db.runs.get? feedback.executionRunId) := by
  unfold submitFeedback guarded
  split
  · rfl
  · cases db.runs.get? feedback.executionRunId with
    | none => rfl
    | some run => exact apply_ite Prod.snd _ _ _

theorem get?_agree {ρ : Type} {key : ρ → UUID} {t₁ t₂ : KeyedTable key} {id : UUID} {P : ρ → Prop}
    (h : ∀ r, P r → (t₁.get? (key r) = some r ↔ t₂.get? (key r) = some r)) (r : ρ) (hr : P r) :
    t₁.get? id = some r ↔ t₂.get? id = some r := by
  constructor
  · intro hfound
    obtain rfl := (t₁.get?_some_iff.mp hfound).2
    exact (h r hr).mp hfound
  · intro hfound
    obtain rfl := (t₂.get?_some_iff.mp hfound).2
    exact (h r hr).mpr hfound

theorem submitFeedback_alike_iff (hlocal : call.operator.isGlobal = false)
    (h : AgreeOn call.operator.tenantId db₁ db₂) (feedback : FeedbackSubmission) :
    (submitFeedback db₁ call feedback).2 = (submitFeedback db₂ call feedback).2 ↔
      call.fails = true ∨ (ForeignRow db₁ call feedback.executionRunId ↔
        ForeignRow db₂ call feedback.executionRunId) := by
  rw [submitFeedback_eq, submitFeedback_eq]
  cases hfails : call.fails with
  | true => simp
  | false =>
    rw [if_neg Bool.false_ne_true, if_neg Bool.false_ne_true, guarded_eq_iff]
    · simp [ForeignRow]
    · exact fun heq => runNotFound_ne (Except.error.inj heq)
    · exact fun row hrow => get?_agree h.runs row ((mem_of_not_foreign hlocal).mp hrow)

def findReview (db : OperatorDb) (reviewId : UUID) : Option (HumanReviewItem × Option String) :=
  (db.reviews.get? reviewId).map fun item => (item, reviewTenant db item)

/-- The item is reviewed for another tenant, or for none. -/
def ForeignReview (db : OperatorDb) (call : Call) (reviewId : UUID) : Prop :=
  ForeignIn (fun found : HumanReviewItem × Option String => call.foreignReview found.2)
    (findReview db reviewId)

theorem submitReviewDecision_eq (db : OperatorDb) (call : Call)
    (decision : ReviewDecisionSubmission) :
    (submitReviewDecision db call decision).2 = if call.fails then decisionAnswer call decision
      else guarded (fun found : HumanReviewItem × Option String => call.foreignReview found.2)
        (.error (reviewNotFound decision.reviewId))
        (.error ⟨403, "Cannot modify reviews from other tenants".toList⟩)
        (fun _ => decisionAnswer call decision) (findReview db decision.reviewId) := by
  unfold submitReviewDecision guarded findReview
  split
  · rfl
  · cases db.reviews.get? decision.reviewId with
    | none => rfl
    | some item => exact apply_ite Prod.snd _ _ _

theorem reviewTenant_own {db : OperatorDb} {item : HumanReviewItem} {tenant : String}
    (h : reviewTenant db item = some tenant) :
    ∃ run, item.runId = some run.runId ∧ db.runs.get? run.runId = some run ∧
      run.tenantId = tenant := by
  unfold reviewTenant at h
  obtain ⟨hmap, -⟩ := Option.filter_eq_some_iff.mp h
  obtain ⟨run, hrun, htenant⟩ := Option.map_eq_some_iff.mp hmap
  obtain ⟨runId, hid, hget⟩ := Option.bind_eq_some_iff.mp hrun
  obtain rfl := (db.runs.get?_some_iff.mp hget).2
  exact ⟨run, hid, hget, htenant⟩

theorem findReview_agree (hlocal : call.operator.isGlobal = false)
    (h : AgreeOn call.operator.tenantId db₁ db₂) (reviewId : UUID)
    {found : HumanReviewItem × Option String} (hown : call.foreignReview found.2 = false)
    (hfound : findReview db₁ reviewId = some found) : findReview db₂ reviewId = some found := by
  obtain ⟨item, hitem, rfl⟩ := Option.map_eq_some_iff.mp hfound
  have htenant : reviewTenant db₁ item = some call.operator.tenantId := by
    cases ht : reviewTenant db₁ item with
    | none => simp [Call.foreignReview, hlocal, ht] at hown
    | some tenant => simpa [Call.foreignReview, hlocal, ht] using hown
  obtain rfl := (db₁.reviews.get?_some_iff.mp hitem).2
  obtain ⟨run, hid, hrun, hrunTenant⟩ := reviewTenant_own htenant
  obtain ⟨hitem₂, -⟩ := (h.reviews item).mp ⟨hitem, run, hid, hrun, hrunTenant⟩
  have hrun₂ := (h.runs run hrunTenant).mp hrun
  have htenant₂ : reviewTenant db₂ item = reviewTenant db₁ item := by
    simp [reviewTenant, hid, hrun, hrun₂]
  exact Option.map_eq_some_iff.mpr ⟨item, hitem₂, by rw [htenant₂]⟩

theorem submitReviewDecision_alike_iff (hlocal : call.operator.isGlobal = false)
    (h : AgreeOn call.operator.tenantId db₁ db₂) (decision : ReviewDecisionSubmission) :
    (submitReviewDecision db₁ call decision).2 = (submitReviewDecision db₂ call decision).2 ↔
      call.fails = true ∨ (ForeignReview db₁ call decision.reviewId ↔
        ForeignReview db₂ call decision.reviewId) := by
  rw [submitReviewDecision_eq, submitReviewDecision_eq]
  cases hfails : call.fails with
  | true => simp
  | false =>
    rw [if_neg Bool.false_ne_true, if_neg Bool.false_ne_true, guarded_eq_iff]
    · simp [ForeignReview]
    · intro heq
      cases congrArg HttpError.statusCode (Except.error.inj heq)
    · exact fun found hown => ⟨findReview_agree hlocal h _ hown, findReview_agree hlocal h.symm _ hown⟩

/-! A transition also looks an evaluation run up, for an own proposal that is to be evaluated. -/

def checkedAnswer (call : Call) (record : Proposal) : Except Refusal Assignment → Answer
  | .error (.missingGuard transitionErrorMsg) =>
    answerAfterCommit call.failure (Refusal.missingGuard transitionErrorMsg).answer
  | .error refusal => refusal.answer
  | .ok assignment => answerAfterCommit call.failure (.ok (assignment.write call.now record))

def ownAnswer (evaluationRuns : UUID → Option String) (call : Call)
    (request : ProposalTransitionRequest) (target : ProposalStatus) (record : Proposal) : Answer :=
  checkedAnswer call record
    (checkTransition evaluationRuns call.now call.operator request target record)

theorem checkedAnswer_error (hfailure : call.failure = none) (record : Proposal)
    (refusal : Refusal) : checkedAnswer call record (.error refusal) = refusal.answer := by
  cases refusal <;> simp only [checkedAnswer, hfailure, answerAfterCommit]

theorem checkedAnswer_ok (hfailure : call.failure = none) (record : Proposal) (a : Assignment) :
    checkedAnswer call record (.ok a) = .ok (a.write call.now record) := by
  simp only [checkedAnswer, hfailure, answerAfterCommit]

def ForeignProposal (db : OperatorDb) (call : Call) (proposalId : UUID) : Prop :=
  ForeignIn (fun record : Proposal => call.foreign record.tenantId) (db.proposals.get? proposalId)

theorem transition_unknown {db : OperatorDb} {proposalId : UUID}
    {request : ProposalTransitionRequest}
    (htarget : ProposalStatus.ofText? request.targetStatus = none) :
    (transition db call proposalId request).2 =
      .httpError 400 ("Invalid target status: ".toList ++ request.targetStatus.toList) := by
  simp only [transition, transitionProposal, htarget]

theorem transition_fails {db : OperatorDb} {proposalId : UUID} {request : ProposalTransitionRequest}
    {target : ProposalStatus} (htarget : ProposalStatus.ofText? request.targetStatus = some target)
    {exc : List Char} (hfailure : call.failure = some (.beforeCommit exc)) :
    (transition db call proposalId request).2 = failedToTransition exc := by
  simp only [transition, transitionProposal, htarget, Call.context, hfailure]

theorem transition_eq {db : OperatorDb} {proposalId : UUID} {request : ProposalTransitionRequest}
    {target : ProposalStatus} (htarget : ProposalStatus.ofText? request.targetStatus = some target)
    (hfails : call.fails = false) :
    (transition db call proposalId request).2 =
      guarded (fun record : Proposal => call.foreign record.tenantId)
        (Refusal.notFound proposalId).answer Refusal.notOwner.answer
        (ownAnswer db.evaluationRuns call request target) (db.proposals.get? proposalId) := by
  have hfound : ∀ record : Proposal, db.proposals.get? proposalId = some record →
      call.foreign record.tenantId = true →
      checkTransition db.evaluationRuns call.now call.operator request target record =
        .error .notOwner := by
    intro record _ hforeign
    exact if_pos hforeign
  unfold transition transitionProposal guarded
  simp only [htarget, Call.context]
  split
  · rename_i hfailure
    rw [Call.fails, hfailure] at hfails
    cases hfails
  · cases hrecord : db.proposals.get? proposalId with
    | none => rfl
    | some record =>
      by_cases hforeign : call.foreign record.tenantId = true
      · simp only [hfound record hrecord hforeign, hforeign, if_true]
      · simp only [hforeign, Bool.false_eq_true, if_false, ownAnswer]
        cases checkTransition db.evaluationRuns call.now call.operator request target record with
        | error refusal => cases refusal <;> rfl
        | ok assignment => rfl

structure Consults (request : ProposalTransitionRequest) (target : ProposalStatus)
    (record : Proposal) (evalRunId : UUID) : Prop where
  valid : validTransition record.status target = true
  evaluated : target = .evaluated
  run : request.evalRunId = some evalRunId
  result : (nonEmpty? request.evalResult).isSome = true

def runMissing (evalRunId : UUID) : List Char :=
  "Evaluation run ".toList ++ strUuid evalRunId ++ " not found".toList

def runUnfinished (evalRunId : UUID) (status : String) : List Char :=
  "Evaluation run ".toList ++ strUuid evalRunId ++ " has status '".toList ++ status.toList ++
    "', expected 'completed'".toList

def runCheck (evalRunId : UUID) (evalResult : JsonObject) : Option String → Except Refusal Assignment
  | none => .error (.missingGuard (runMissing evalRunId))
  | some status =>
    if status ≠ "completed" then .error (.missingGuard (runUnfinished evalRunId status))
    else .ok (.evaluated evalRunId evalResult)

theorem guardTarget_of_run {evaluationRuns : UUID → Option String} {now : Instant}
    {operator : OperatorIdentity} {request : ProposalTransitionRequest} {current : ProposalStatus}
    {evalRunId : UUID} {evalResult : JsonObject} (hrun : request.evalRunId = some evalRunId)
    (hresult : nonEmpty? request.evalResult = some evalResult) :
    guardTarget evaluationRuns now operator request current .evaluated =
      runCheck evalRunId evalResult (evaluationRuns evalRunId) := by
  simp only [guardTarget, hrun, hresult, runCheck]
  cases evaluationRuns evalRunId <;> rfl

theorem guardTarget_congr {runs₁ runs₂ : UUID → Option String} {now : Instant}
    {operator : OperatorIdentity} {request : ProposalTransitionRequest}
    {current target : ProposalStatus}
    (h : ∀ evalRunId, target = .evaluated → request.evalRunId = some evalRunId →
      (nonEmpty? request.evalResult).isSome = true → runs₁ evalRunId = runs₂ evalRunId) :
    guardTarget runs₁ now operator request current target =
      guardTarget runs₂ now operator request current target := by
  cases target with
  | evaluated =>
    cases hrun : request.evalRunId with
    | none => simp only [guardTarget, hrun]
    | some evalRunId =>
      cases hresult : nonEmpty? request.evalResult with
      | none => simp only [guardTarget, hrun, hresult]
      | some evalResult =>
        rw [guardTarget_of_run hrun hresult, guardTarget_of_run hrun hresult,
          h evalRunId rfl hrun (by rw [hresult]; rfl)]
  | proposed | approved | canary | promoted | rolledBack => rfl

theorem runMissing_ne (evalRunId : UUID) (status : String) :
    runMissing evalRunId ≠ runUnfinished evalRunId status := by
  intro h
  unfold runMissing runUnfinished at h
  rw [List.append_assoc _ _ status.toList, List.append_assoc _ _ "', expected 'completed'".toList,
    List.append_cancel_left_eq] at h
  have hsecond := congrArg (fun l => l[1]?) h
  simp at hsecond

theorem runUnfinished_injective {evalRunId : UUID} {s₁ s₂ : String}
    (h : runUnfinished evalRunId s₁ = runUnfinished evalRunId s₂) : s₁ = s₂ :=
  String.toList_inj.mp (List.append_cancel_left (List.append_cancel_right h))

theorem runCheck_answers_injective (hfailure : call.failure = none) {record : Proposal}
    {evalRunId : UUID} {evalResult : JsonObject} {found₁ found₂ : Option String}
    (h : checkedAnswer call record (runCheck evalRunId evalResult found₁) =
      checkedAnswer call record (runCheck evalRunId evalResult found₂)) : found₁ = found₂ := by
  have hmissing : checkedAnswer call record (runCheck evalRunId evalResult none) =
      .httpError 400 (runMissing evalRunId) := checkedAnswer_error hfailure record _
  have hunfinished : ∀ s, s ≠ "completed" →
      checkedAnswer call record (runCheck evalRunId evalResult (some s)) =
        .httpError 400 (runUnfinished evalRunId s) := by
    intro s hs
    rw [runCheck, if_pos hs]
    exact checkedAnswer_error hfailure record _
  have hcompleted : checkedAnswer call record (runCheck evalRunId evalResult (some "completed")) =
      .ok ((Assignment.evaluated evalRunId evalResult).write call.now record) :=
    checkedAnswer_ok hfailure record _
  rcases found₁ with _ | s₁ <;> rcases found₂ with _ | s₂
  · rfl
  · by_cases h₂ : s₂ = "completed"
    · rw [h₂, hmissing, hcompleted] at h
      cases h
    · rw [hmissing, hunfinished s₂ h₂] at h
      exact absurd (Answer.httpError.inj h).2 (runMissing_ne evalRunId s₂)
  · by_cases h₁ : s₁ = "completed"
    · rw [h₁, hmissing, hcompleted] at h
      cases h
    · rw [hmissing, hunfinished s₁ h₁] at h
      exact absurd (Answer.httpError.inj h).2.symm (runMissing_ne evalRunId s₁)
  · by_cases h₁ : s₁ = "completed" <;> by_cases h₂ : s₂ = "completed"
    · rw [h₁, h₂]
    · rw [h₁, hcompleted, hunfinished s₂ h₂] at h
      cases h
    · rw [h₂, hcompleted, hunfinished s₁ h₁] at h
      cases h
    · rw [hunfinished s₁ h₁, hunfinished s₂ h₂] at h
      rw [runUnfinished_injective (Answer.httpError.inj h).2]

theorem checkTransition_own {runs : UUID → Option String} {request : ProposalTransitionRequest}
    {target : ProposalStatus} {record : Proposal} (hown : call.foreign record.tenantId = false) :
    checkTransition runs call.now call.operator request target record =
      if validTransition record.status target then
        guardTarget runs call.now call.operator request record.status target
      else .error (.invalidTransition record.status target) := by
  refine if_neg ?_
  rw [← Bool.not_eq_true] at hown
  exact hown

theorem ownAnswer_of_consults {request : ProposalTransitionRequest} {target : ProposalStatus}
    {record : Proposal} (hown : call.foreign record.tenantId = false) {evalRunId : UUID}
    (hconsults : Consults request target record evalRunId) :
    ∃ evalResult, ∀ runs, ownAnswer runs call request target record =
      checkedAnswer call record (runCheck evalRunId evalResult (runs evalRunId)) := by
  obtain ⟨evalResult, hresult⟩ := Option.isSome_iff_exists.mp hconsults.result
  refine ⟨evalResult, fun runs => ?_⟩
  unfold ownAnswer
  rw [checkTransition_own hown, if_pos hconsults.valid, hconsults.evaluated,
    guardTarget_of_run hconsults.run hresult]

/-- An error after the commit hides what was found. -/
theorem checkedAnswer_of_afterCommit {exc : List Char}
    (hfailure : call.failure = some (.afterCommit exc)) (record : Proposal) (evalRunId : UUID)
    (evalResult : JsonObject) (found : Option String) :
    checkedAnswer call record (runCheck evalRunId evalResult found) = failedToTransition exc := by
  unfold runCheck
  cases found with
  | none => simp only [checkedAnswer, hfailure, answerAfterCommit]
  | some status =>
    simp only
    split <;> simp only [checkedAnswer, hfailure, answerAfterCommit]

/-- The answers about an own record are the same if the run that is looked up is in the same
status, or if the error after the commit hides it. -/
theorem ownAnswer_eq_iff (hfails : call.fails = false) {runs₁ runs₂ : UUID → Option String}
    {request : ProposalTransitionRequest} {target : ProposalStatus} {record : Proposal}
    (hown : call.foreign record.tenantId = false) :
    ownAnswer runs₁ call request target record = ownAnswer runs₂ call request target record ↔
      ∀ evalRunId, Consults request target record evalRunId →
        call.failure ≠ none ∨ runs₁ evalRunId = runs₂ evalRunId := by
  constructor
  · intro heq evalRunId hconsults
    by_cases hfailure : call.failure = none
    · right
      obtain ⟨evalResult, hanswer⟩ := ownAnswer_of_consults hown hconsults
      rw [hanswer, hanswer] at heq
      exact runCheck_answers_injective hfailure heq
    · exact Or.inl hfailure
  · intro hsame
    by_cases hconsults : ∃ evalRunId, Consults request target record evalRunId ∧ call.failure ≠ none
    · obtain ⟨evalRunId, hconsults, hfailure⟩ := hconsults
      obtain ⟨evalResult, hanswer⟩ := ownAnswer_of_consults hown hconsults
      obtain ⟨failure, hsome⟩ := Option.ne_none_iff_exists'.mp hfailure
      rw [hanswer, hanswer]
      cases failure with
      | beforeCommit exc =>
        rw [Call.fails, hsome] at hfails
        cases hfails
      | afterCommit exc => rw [checkedAnswer_of_afterCommit hsome, checkedAnswer_of_afterCommit hsome]
    · unfold ownAnswer
      rw [checkTransition_own hown, checkTransition_own hown]
      by_cases hvalid : validTransition record.status target = true
      · rw [if_pos hvalid, if_pos hvalid]
        refine congrArg _ (guardTarget_congr fun evalRunId htarget hrun hresult => ?_)
        have hcons : Consults request target record evalRunId := ⟨hvalid, htarget, hrun, hresult⟩
        exact (hsame evalRunId hcons).resolve_left fun hne => hconsults ⟨evalRunId, hcons, hne⟩
      · rw [if_neg hvalid, if_neg hvalid]

/-- The evaluation runs that a transition of an own proposal looks up are in the same status. -/
def SameRunsSeen (db₁ db₂ : OperatorDb) (call : Call) (proposalId : UUID)
    (request : ProposalTransitionRequest) : Prop :=
  ∀ target record evalRunId, ProposalStatus.ofText? request.targetStatus = some target →
    db₁.proposals.get? proposalId = some record → call.foreign record.tenantId = false →
    Consults request target record evalRunId →
    call.failure ≠ none ∨ db₁.evaluationRuns evalRunId = db₂.evaluationRuns evalRunId

theorem transition_alike_iff (hlocal : call.operator.isGlobal = false)
    (h : AgreeOn call.operator.tenantId db₁ db₂) (proposalId : UUID)
    (request : ProposalTransitionRequest) :
    (transition db₁ call proposalId request).2 = (transition db₂ call proposalId request).2 ↔
      ProposalStatus.ofText? request.targetStatus = none ∨ call.fails = true ∨
        ((ForeignProposal db₁ call proposalId ↔ ForeignProposal db₂ call proposalId) ∧
          SameRunsSeen db₁ db₂ call proposalId request) := by
  cases htarget : ProposalStatus.ofText? request.targetStatus with
  | none => simp [transition_unknown htarget]
  | some target =>
    cases hfails : call.fails with
    | true =>
      unfold Call.fails at hfails
      split at hfails
      · rename_i exc hfailure
        simp [transition_fails htarget hfailure]
      · cases hfails
    | false =>
      rw [transition_eq htarget hfails, transition_eq htarget hfails, guarded_eq_iff]
      · simp only [reduceCtorEq, Bool.false_eq_true, false_or, SameRunsSeen, ForeignProposal, htarget,
          Option.some.injEq]
        refine and_congr_right fun _ => ?_
        constructor
        · rintro hsame _ record evalRunId rfl hrecord hown hconsults
          exact (ownAnswer_eq_iff hfails hown).mp (hsame record hrecord hown) evalRunId hconsults
        · intro hsame record hrecord hown
          exact (ownAnswer_eq_iff hfails hown).mpr fun evalRunId hconsults =>
            hsame target record evalRunId rfl hrecord hown hconsults
      · intro heq
        cases (Answer.httpError.inj heq).1
      · exact fun record hrecord =>
          get?_agree h.proposals record ((mem_of_not_foreign hlocal).mp hrecord)

end TwoStates

structure AnswerAlike (db₁ db₂ : OperatorDb) (call : Call) : Prop where
  summary : ∀ runId, getExecutionSummary db₁ call runId = getExecutionSummary db₂ call runId
  feedback : ∀ feedback, (submitFeedback db₁ call feedback).2 = (submitFeedback db₂ call feedback).2
  review : ∀ decision,
    (submitReviewDecision db₁ call decision).2 = (submitReviewDecision db₂ call decision).2
  proposal : ∀ proposalId request,
    (transition db₁ call proposalId request).2 = (transition db₂ call proposalId request).2

/-- To an operator of one tenant two states that agree on the tenant look alike in exactly the
requests for which they agree on whether the id is that of a foreign object, and on the status
of an evaluation run that is looked up. -/
theorem answers_alike_iff (call : Call) (hlocal : call.operator.isGlobal = false)
    (db₁ db₂ : OperatorDb) (h : AgreeOn call.operator.tenantId db₁ db₂) :
    (∀ runId, getExecutionSummary db₁ call runId = getExecutionSummary db₂ call runId ↔
      (ForeignRun db₁ call runId ↔ ForeignRun db₂ call runId)) ∧
    (∀ feedback, (submitFeedback db₁ call feedback).2 = (submitFeedback db₂ call feedback).2 ↔
      call.fails = true ∨ (ForeignRow db₁ call feedback.executionRunId ↔
        ForeignRow db₂ call feedback.executionRunId)) ∧
    (∀ decision,
      (submitReviewDecision db₁ call decision).2 = (submitReviewDecision db₂ call decision).2 ↔
        call.fails = true ∨ (ForeignReview db₁ call decision.reviewId ↔
          ForeignReview db₂ call decision.reviewId)) ∧
    ∀ proposalId request,
      (transition db₁ call proposalId request).2 = (transition db₂ call proposalId request).2 ↔
        ProposalStatus.ofText? request.targetStatus = none ∨ call.fails = true ∨
          ((ForeignProposal db₁ call proposalId ↔ ForeignProposal db₂ call proposalId) ∧
            SameRunsSeen db₁ db₂ call proposalId request) :=
  ⟨getExecutionSummary_alike_iff hlocal h, submitFeedback_alike_iff hlocal h,
    submitReviewDecision_alike_iff hlocal h, transition_alike_iff hlocal h⟩

def foreignRow : RunRow where
  runId := 1
  workflow := "query"
  status := "pending"
  principal := "q"
  tenantId := "u"
  input := []
  output := []
  startedAt := some 0
  finishedAt := none
  errorCode := none
  errorMessage := none
  indexVersionId := none
  promptVersionId := none
  modelVersion := none

def emptyDb : OperatorDb :=
  { runs := .empty, reviews := .empty, proposals := .empty, evaluationRuns := fun _ => none }

def dbWithForeignRun : OperatorDb := { emptyDb with runs := ⟨[foreignRow], by decide⟩ }

def localCall : Call :=
  { operator := ⟨"op", "t", false⟩, now := 0, newId := 9 }

theorem emptyDb_agrees : AgreeOn "t" emptyDb dbWithForeignRun := by
  refine ⟨?_, ?_, fun _ _ => Iff.rfl⟩
  · intro row htenant
    rw [← KeyedTable.mem_rows_iff, ← KeyedTable.mem_rows_iff]
    constructor
    · intro hrow
      exact absurd hrow List.not_mem_nil
    · intro hrow
      rw [List.mem_singleton.mp hrow] at htenant
      exact absurd htenant (by decide)
  · intro item
    constructor
    · rintro ⟨hitem, -⟩
      cases hitem
    · rintro ⟨hitem, -⟩
      cases hitem

theorem not_answers_alike : ¬ ∀ (call : Call) (db₁ db₂ : OperatorDb),
    call.operator.isGlobal = false → AgreeOn call.operator.tenantId db₁ db₂ →
      AnswerAlike db₁ db₂ call := by
  intro h
  have hfeedback := (h localCall emptyDb dbWithForeignRun rfl emptyDb_agrees).feedback
    ⟨1, .thumbsUp, none, none, none⟩
  exact absurd (congrArg HttpError.statusCode (Except.error.inj hfeedback)) (by decide)

theorem answers_alike_iff_sample :
    (submitFeedback emptyDb localCall ⟨2, .thumbsUp, none, none, none⟩).2 =
        (submitFeedback dbWithForeignRun localCall ⟨2, .thumbsUp, none, none, none⟩).2 ↔
      localCall.fails = true ∨ (ForeignRow emptyDb localCall 2 ↔
        ForeignRow dbWithForeignRun localCall 2) :=
  (answers_alike_iff localCall rfl emptyDb dbWithForeignRun emptyDb_agrees).2.1
    ⟨2, .thumbsUp, none, none, none⟩

end GroundGraph.Operator

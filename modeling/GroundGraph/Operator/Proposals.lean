import GroundGraph.Identifiers
import GroundGraph.Json
import GroundGraph.Library.KeyedTable

/-! Improvement proposals and the two endpoints that write them (`api/operator.py`).
A transition request reads the record, checks it against `VALID_TRANSITIONS` and the
guard of its target, and only then assigns the columns of that stage.
-/

set_option autoImplicit false

namespace GroundGraph.Operator

/-- `PROPOSAL_STATES`. -/
inductive ProposalStatus where
  | proposed | evaluated | approved | canary | promoted | rolledBack
  deriving DecidableEq, Repr

def ProposalStatus.value : ProposalStatus → String
  | .proposed => "PROPOSED"
  | .evaluated => "EVALUATED"
  | .approved => "APPROVED"
  | .canary => "CANARY"
  | .promoted => "PROMOTED"
  | .rolledBack => "ROLLED_BACK"

def ProposalStatus.all : List ProposalStatus :=
  [.proposed, .evaluated, .approved, .canary, .promoted, .rolledBack]

/-- The test `target_status not in PROPOSAL_STATES`. -/
def ProposalStatus.ofText? (text : String) : Option ProposalStatus :=
  ProposalStatus.all.find? fun s => decide (s.value = text)

/-- `VALID_TRANSITIONS`. -/
def validTransition : ProposalStatus → ProposalStatus → Bool
  | .proposed, .evaluated => true
  | .evaluated, .approved => true
  | .approved, .canary => true
  | .canary, .promoted => true
  | .canary, .rolledBack => true
  | _, _ => false

/-- How far a status is in the life of a proposal; both ends come last. -/
def ProposalStatus.stage : ProposalStatus → Nat
  | .proposed => 0
  | .evaluated => 1
  | .approved => 2
  | .canary => 3
  | .promoted => 4
  | .rolledBack => 4

/-- The statuses without an entry in the table. -/
def ProposalStatus.isFinal (s : ProposalStatus) : Bool := decide (s.stage = 4)

theorem stage_of_validTransition {a b : ProposalStatus} (h : validTransition a b = true) :
    b.stage = a.stage + 1 := by
  cases a <;> cases b <;> first | rfl | cases h

theorem not_isFinal_of_validTransition {a b : ProposalStatus} (h : validTransition a b = true) :
    a.isFinal = false := by
  cases a <;> cases b <;> first | rfl | cases h

theorem validTransition_source_unique {a a' b : ProposalStatus} (h : validTransition a b = true)
    (h' : validTransition a' b = true) : a = a' := by
  cases a <;> cases b <;> cases a' <;>
    first | rfl | exact absurd h (by decide) | exact absurd h' (by decide)

/-- A row of `improvement_proposals`. -/
structure Proposal where
  proposalId : UUID
  tenantId : String
  failureClusterId : Option String := none
  status : ProposalStatus
  baselineConfig : JsonObject
  proposalConfig : JsonObject
  evalRunId : Option UUID := none
  evalResult : Option JsonObject := none
  approver : Option String := none
  approvedAt : Option Instant := none
  canaryResult : Option JsonObject := none
  deploymentResult : Option JsonObject := none
  rolledBackAt : Option Instant := none
  rollbackReason : Option String := none
  createdAt : Instant
  updatedAt : Instant

abbrev Proposals := KeyedTable Proposal.proposalId

structure OperatorIdentity where
  operatorId : String
  tenantId : String
  isGlobal : Bool

structure ProposalSubmission where
  failureClusterId : Option String := none
  baselineConfig : JsonObject := []
  proposalConfig : JsonObject := []

structure ProposalTransitionRequest where
  targetStatus : String
  evalRunId : Option UUID := none
  evalResult : Option JsonObject := none
  deploymentResult : Option JsonObject := none
  rollbackReason : Option String := none

/-- The attributes that one branch of `transition_proposal` assigns beside the status. -/
inductive Assignment where
  | proposed
  | evaluated (evalRunId : UUID) (evalResult : JsonObject)
  | approved (approver : String) (approvedAt : Instant)
  | canary
  | promoted (deploymentResult : JsonObject)
  | rolledBack (rolledBackAt : Instant) (rollbackReason : Option String)

def Assignment.target : Assignment → ProposalStatus
  | .proposed => .proposed
  | .evaluated _ _ => .evaluated
  | .approved _ _ => .approved
  | .canary => .canary
  | .promoted _ => .promoted
  | .rolledBack _ _ => .rolledBack

/-- The UPDATE of the flush names the assigned columns and the primary key, nothing else;
`updatedAt` is the column's `onupdate`. -/
def Assignment.write (updatedAt : Instant) (a : Assignment) (p : Proposal) : Proposal :=
  let p := { p with status := a.target, updatedAt := updatedAt }
  match a with
  | .proposed => p
  | .evaluated evalRunId evalResult =>
    { p with evalRunId := some evalRunId, evalResult := some evalResult }
  | .approved approver approvedAt =>
    { p with approver := some approver, approvedAt := some approvedAt }
  | .canary => p
  | .promoted deploymentResult => { p with deploymentResult := some deploymentResult }
  | .rolledBack rolledBackAt rollbackReason =>
    { p with rolledBackAt := some rolledBackAt, rollbackReason := rollbackReason }

theorem Assignment.target_stage (a : Assignment) : a.target.stage =
    match a with
    | .proposed => 0
    | .evaluated _ _ => 1
    | .approved _ _ => 2
    | .canary => 3
    | .promoted _ => 4
    | .rolledBack _ _ => 4 := by cases a <;> rfl

@[simp] theorem Assignment.write_status (updatedAt : Instant) (a : Assignment) (p : Proposal) :
    (a.write updatedAt p).status = a.target := by cases a <;> rfl

@[simp] theorem Assignment.write_proposalId (updatedAt : Instant) (a : Assignment)
    (p : Proposal) : (a.write updatedAt p).proposalId = p.proposalId := by cases a <;> rfl

inductive Refusal where
  | notFound (proposalId : UUID)
  | notOwner
  | invalidTransition (current target : ProposalStatus)
  | missingGuard (transitionErrorMsg : List Char)

def Refusal.statusCode : Refusal → Nat
  | .notFound _ => 404
  | .notOwner => 403
  | .invalidTransition _ _ => 400
  | .missingGuard _ => 400

def Refusal.detail : Refusal → List Char
  | .notFound proposalId => "Proposal ".toList ++ strUuid proposalId ++ " not found".toList
  | .notOwner => "Cannot modify proposals from other tenants".toList
  | .invalidTransition current target =>
    "Cannot transition from ".toList ++ current.value.toList ++ " to ".toList ++
      target.value.toList
  | .missingGuard transitionErrorMsg => transitionErrorMsg

/-- The truth value of an optional dict: there and not empty. -/
def nonEmpty? : Option JsonObject → Option JsonObject
  | some (entry :: entries) => some (entry :: entries)
  | _ => none

theorem nonEmpty?_some {o : Option JsonObject} {d : JsonObject} (h : nonEmpty? o = some d) :
    o = some d ∧ d ≠ [] := by
  unfold nonEmpty? at h
  split at h
  · cases h
    exact ⟨rfl, List.cons_ne_nil _ _⟩
  · cases h

/-- The guard of the target and, when it passes, what is assigned. `evaluationRuns` is the
status column of the evaluation runs as the request finds it. -/
def guardTarget (evaluationRuns : UUID → Option String) (now : Instant)
    (operator : OperatorIdentity) (request : ProposalTransitionRequest)
    (current target : ProposalStatus) : Except Refusal Assignment :=
  match target with
  | .evaluated =>
    match request.evalRunId, nonEmpty? request.evalResult with
    | some evalRunId, some evalResult =>
      match evaluationRuns evalRunId with
      | none =>
        .error (.missingGuard
          ("Evaluation run ".toList ++ strUuid evalRunId ++ " not found".toList))
      | some status =>
        if status ≠ "completed" then
          .error (.missingGuard ("Evaluation run ".toList ++ strUuid evalRunId ++
            " has status '".toList ++ status.toList ++ "', expected 'completed'".toList))
        else .ok (.evaluated evalRunId evalResult)
    | _, _ =>
      .error (.missingGuard
        "Cannot transition to EVALUATED without both eval_run_id and eval_result".toList)
  | .approved =>
    match nonEmpty? request.evalResult with
    | none => .error (.missingGuard "Cannot transition to APPROVED without eval_result".toList)
    | some _ => .ok (.approved operator.operatorId now)
  | .canary =>
    if current ≠ .approved then .error (.missingGuard "Canary requires prior approval".toList)
    else .ok .canary
  | .promoted =>
    match nonEmpty? request.deploymentResult with
    | none =>
      .error (.missingGuard "Cannot transition to PROMOTED without deployment_result".toList)
    | some deploymentResult => .ok (.promoted deploymentResult)
  | .rolledBack => .ok (.rolledBack now request.rollbackReason)
  | .proposed => .ok .proposed

/-- The checks of `transition_proposal` on the record it read. -/
def checkTransition (evaluationRuns : UUID → Option String) (now : Instant)
    (operator : OperatorIdentity) (request : ProposalTransitionRequest) (target : ProposalStatus)
    (record : Proposal) : Except Refusal Assignment :=
  if !operator.isGlobal && record.tenantId ≠ operator.tenantId then .error .notOwner
  else if validTransition record.status target then
    guardTarget evaluationRuns now operator request record.status target
  else .error (.invalidTransition record.status target)

def GuardMet (evaluationRuns : UUID → Option String) (request : ProposalTransitionRequest) :
    Assignment → Prop
  | .evaluated evalRunId evalResult =>
    request.evalRunId = some evalRunId ∧ request.evalResult = some evalResult ∧
      evalResult ≠ [] ∧ evaluationRuns evalRunId = some "completed"
  | .promoted deploymentResult =>
    request.deploymentResult = some deploymentResult ∧ deploymentResult ≠ []
  | _ => True

theorem guardTarget_ok {evaluationRuns : UUID → Option String} {now : Instant}
    {operator : OperatorIdentity} {request : ProposalTransitionRequest}
    {current target : ProposalStatus} {a : Assignment}
    (h : guardTarget evaluationRuns now operator request current target = .ok a) :
    a.target = target ∧ GuardMet evaluationRuns request a := by
  cases target with
  | proposed | rolledBack =>
    obtain rfl := Except.ok.inj h
    exact ⟨rfl, trivial⟩
  | evaluated =>
    simp only [guardTarget] at h
    split at h
    · rename_i hrun hresult
      split at h
      · cases h
      · rename_i hstatus
        split at h
        · cases h
        · rename_i hcompleted
          obtain rfl := Except.ok.inj h
          obtain ⟨hgiven, hne⟩ := nonEmpty?_some hresult
          exact ⟨rfl, hrun, hgiven, hne, by rw [hstatus, not_not.mp hcompleted]⟩
    · cases h
  | approved =>
    simp only [guardTarget] at h
    split at h
    · cases h
    · obtain rfl := Except.ok.inj h
      exact ⟨rfl, trivial⟩
  | canary =>
    simp only [guardTarget] at h
    split at h
    · cases h
    · obtain rfl := Except.ok.inj h
      exact ⟨rfl, trivial⟩
  | promoted =>
    simp only [guardTarget] at h
    split at h
    · cases h
    · rename_i hresult
      obtain rfl := Except.ok.inj h
      exact ⟨rfl, nonEmpty?_some hresult⟩

theorem checkTransition_ok {evaluationRuns : UUID → Option String} {now : Instant}
    {operator : OperatorIdentity} {request : ProposalTransitionRequest} {target : ProposalStatus}
    {record : Proposal} {a : Assignment}
    (h : checkTransition evaluationRuns now operator request target record = .ok a) :
    a.target = target ∧ GuardMet evaluationRuns request a ∧
      validTransition record.status a.target = true := by
  simp only [checkTransition] at h
  split at h
  · cases h
  · split at h
    · rename_i hvalid
      obtain ⟨rfl, hmet⟩ := guardTarget_ok h
      exact ⟨rfl, hmet, hvalid⟩
    · cases h

end GroundGraph.Operator

import GroundGraph.Library.LabelledSystem
import GroundGraph.Operator.Proposals

/-! What the proposals table tells an auditor after any requests, served one after the
other: every stage a proposal has passed left its record, and no later request touches it.
-/

set_option autoImplicit false

namespace GroundGraph.Operator

/-- A database error, before the commit took effect or after it (in the refresh). -/
inductive Failure where
  | beforeCommit (exc : List Char)
  | afterCommit (exc : List Char)

/-- What a request finds beside the proposals. -/
structure RequestContext where
  operator : OperatorIdentity
  now : Instant
  evaluationRuns : UUID → Option String
  failure : Option Failure := none

inductive ProposalRequest where
  | create (context : RequestContext) (proposal : ProposalSubmission) (proposalId : UUID)
  | transition (context : RequestContext) (proposalId : UUID) (request : ProposalTransitionRequest)

inductive Answer where
  | ok (record : Proposal)
  | httpError (statusCode : Nat) (detail : List Char)

def newProposal (context : RequestContext) (proposal : ProposalSubmission) (proposalId : UUID) :
    Proposal :=
  { proposalId := proposalId
    tenantId := context.operator.tenantId
    failureClusterId := proposal.failureClusterId
    status := .proposed
    baselineConfig := proposal.baselineConfig
    proposalConfig := proposal.proposalConfig
    createdAt := context.now
    updatedAt := context.now }

def failedToCreate (exc : List Char) : Answer :=
  .httpError 500 ("Failed to create proposal: ".toList ++ exc)

/-- `create_proposal`; `proposalId` is the column's `uuid4()`. -/
def createProposal (proposals : Proposals) (context : RequestContext)
    (proposal : ProposalSubmission) (proposalId : UUID) : Proposals × Answer :=
  let record := newProposal context proposal proposalId
  match context.failure, proposals.insert? record with
  | some (.beforeCommit exc), _ => (proposals, failedToCreate exc)
  | _, none => (proposals, failedToCreate "duplicate key".toList)
  | some (.afterCommit exc), some proposals' => (proposals', failedToCreate exc)
  | none, some proposals' => (proposals', .ok record)

def failedToTransition (exc : List Char) : Answer :=
  .httpError 500 ("Failed to transition proposal: ".toList ++ exc)

def Refusal.answer (r : Refusal) : Answer := .httpError r.statusCode r.detail

/-- The answer of a request whose commit went through: the refresh may still fail. -/
def answerAfterCommit (failure : Option Failure) (answer : Answer) : Answer :=
  match failure with
  | some (.afterCommit exc) => failedToTransition exc
  | _ => answer

/-- `transition_proposal`. With a guard missing it still gets to the commit, which then has
nothing to write; the other refusals come before. -/
def transitionProposal (proposals : Proposals) (context : RequestContext) (proposalId : UUID)
    (request : ProposalTransitionRequest) : Proposals × Answer :=
  match ProposalStatus.ofText? request.targetStatus with
  | none =>
    (proposals,
      .httpError 400 ("Invalid target status: ".toList ++ request.targetStatus.toList))
  | some target =>
    match context.failure with
    | some (.beforeCommit exc) => (proposals, failedToTransition exc)
    | failure =>
      match proposals.get? proposalId with
      | none => (proposals, (Refusal.notFound proposalId).answer)
      | some record =>
        match checkTransition context.evaluationRuns context.now context.operator request target
          record with
        | .error (.missingGuard transitionErrorMsg) =>
          (proposals, answerAfterCommit failure (Refusal.missingGuard transitionErrorMsg).answer)
        | .error refusal => (proposals, refusal.answer)
        | .ok assignment =>
          (proposals.modifyAt proposalId (assignment.write context.now)
              (assignment.write_proposalId context.now),
            answerAfterCommit failure (.ok (assignment.write context.now record)))

def answerRequest (proposals : Proposals) : ProposalRequest → Proposals × Answer
  | .create context proposal proposalId => createProposal proposals context proposal proposalId
  | .transition context proposalId request =>
    transitionProposal proposals context proposalId request

/-- The requests served so far stay beside the table, newest first. -/
structure ServerState where
  proposals : Proposals
  served : List ProposalRequest

def serve (s : ServerState) (request : ProposalRequest) : ServerState :=
  ⟨(answerRequest s.proposals request).1, request :: s.served⟩

def operatorSystem : LabelledSystem ServerState ProposalRequest :=
  ⟨⟨.empty, []⟩, fun s request => some (serve s request)⟩

/-- What a request does to the table: nothing, one new proposal, or one checked write. -/
inductive TableEffect (proposals : Proposals) : ProposalRequest → Proposals → Prop
  | unchanged (request : ProposalRequest) : TableEffect proposals request proposals
  | created (context : RequestContext) (proposal : ProposalSubmission) (proposalId : UUID)
      (proposals' : Proposals)
      (hinsert : proposals.insert? (newProposal context proposal proposalId) = some proposals') :
      TableEffect proposals (.create context proposal proposalId) proposals'
  | moved (context : RequestContext) (request : ProposalTransitionRequest) (record : Proposal)
      (assignment : Assignment)
      (hrecord : proposals.get? record.proposalId = some record)
      (htarget : ProposalStatus.ofText? request.targetStatus = some assignment.target)
      (hmet : GuardMet context.evaluationRuns request assignment)
      (hvalid : validTransition record.status assignment.target = true) :
      TableEffect proposals (.transition context record.proposalId request)
        (proposals.modifyAt record.proposalId (assignment.write context.now)
          (assignment.write_proposalId context.now))

theorem createProposal_effect (proposals : Proposals) (context : RequestContext)
    (proposal : ProposalSubmission) (proposalId : UUID) :
    TableEffect proposals (.create context proposal proposalId)
      (createProposal proposals context proposal proposalId).1 := by
  unfold createProposal
  dsimp only
  split
  · exact .unchanged _
  · exact .unchanged _
  · rename_i hinsert
    exact .created context proposal proposalId _ hinsert
  · rename_i hinsert
    exact .created context proposal proposalId _ hinsert

theorem transitionProposal_effect (proposals : Proposals) (context : RequestContext)
    (proposalId : UUID) (request : ProposalTransitionRequest) :
    TableEffect proposals (.transition context proposalId request)
      (transitionProposal proposals context proposalId request).1 := by
  unfold transitionProposal
  split
  · exact .unchanged _
  · rename_i target htarget
    split
    · exact .unchanged _
    · split
      · exact .unchanged _
      · rename_i record hrecord
        obtain rfl := (proposals.get?_some_iff.mp hrecord).2
        split
        · exact .unchanged _
        · exact .unchanged _
        · rename_i assignment hcheck
          obtain ⟨rfl, hmet, hvalid⟩ := checkTransition_ok hcheck
          exact .moved context request record assignment hrecord htarget hmet hvalid

theorem answerRequest_effect (proposals : Proposals) (request : ProposalRequest) :
    TableEffect proposals request (answerRequest proposals request).1 := by
  cases request with
  | create context proposal proposalId =>
    exact createProposal_effect proposals context proposal proposalId
  | transition context proposalId request =>
    exact transitionProposal_effect proposals context proposalId request

def Answer.isRefusal : Answer → Bool
  | .ok _ => false
  | .httpError statusCode _ => decide (statusCode = 400 ∨ statusCode = 403 ∨ statusCode = 404)

theorem answerAfterCommit_ok (failure : Option Failure) (record : Proposal) :
    (answerAfterCommit failure (.ok record)).isRefusal = false := by
  unfold answerAfterCommit
  split <;> rfl

theorem answerRequest_refused {proposals : Proposals} {request : ProposalRequest}
    (h : (answerRequest proposals request).2.isRefusal = true) :
    (answerRequest proposals request).1 = proposals := by
  cases request with
  | create context proposal proposalId =>
    simp only [answerRequest, createProposal] at h ⊢
    split at h
    · rfl
    · rfl
    · cases h
    · cases h
  | transition context proposalId request =>
    simp only [answerRequest, transitionProposal] at h ⊢
    split at h
    · rfl
    · split at h
      · cases h
      · split at h
        · rfl
        · split at h
          · rfl
          · rfl
          · rw [answerAfterCommit_ok] at h
            cases h

/-- The request recorded this evaluation run for the proposal, and saw it completed. -/
def ProposalRequest.recordsRun (proposalId evalRunId : UUID) : ProposalRequest → Prop
  | .create _ _ _ => False
  | .transition context id request =>
    id = proposalId ∧ ProposalStatus.ofText? request.targetStatus = some .evaluated ∧
      request.evalRunId = some evalRunId ∧ context.evaluationRuns evalRunId = some "completed"

structure AuditTrail (served : List ProposalRequest) (p : Proposal) : Prop where
  evaluated : 1 ≤ p.status.stage → ∃ evalRunId evalResult, p.evalRunId = some evalRunId ∧
    p.evalResult = some evalResult ∧ evalResult ≠ [] ∧
    ∃ request ∈ served, request.recordsRun p.proposalId evalRunId
  approved : 2 ≤ p.status.stage → p.approver.isSome ∧ p.approvedAt.isSome
  promoted : p.status = .promoted → ∃ d, p.deploymentResult = some d ∧ d ≠ []
  rolledBack : p.status = .rolledBack → p.rolledBackAt.isSome

/-- A later version of a record: what the stages passed so far recorded is still there. -/
structure Keeps (p p' : Proposal) : Prop where
  proposalId : p'.proposalId = p.proposalId
  tenantId : p'.tenantId = p.tenantId
  failureClusterId : p'.failureClusterId = p.failureClusterId
  baselineConfig : p'.baselineConfig = p.baselineConfig
  proposalConfig : p'.proposalConfig = p.proposalConfig
  createdAt : p'.createdAt = p.createdAt
  canaryResult : p'.canaryResult = p.canaryResult
  stage : p.status.stage ≤ p'.status.stage
  final : p.status.isFinal = true → p' = p
  evaluated : 1 ≤ p.status.stage → p'.evalRunId = p.evalRunId ∧ p'.evalResult = p.evalResult
  approved : 2 ≤ p.status.stage → p'.approver = p.approver ∧ p'.approvedAt = p.approvedAt

theorem Keeps.refl (p : Proposal) : Keeps p p :=
  ⟨rfl, rfl, rfl, rfl, rfl, rfl, rfl, Nat.le_refl _, fun _ => rfl, fun _ => ⟨rfl, rfl⟩,
    fun _ => ⟨rfl, rfl⟩⟩

theorem Keeps.trans {p q r : Proposal} (h : Keeps p q) (h' : Keeps q r) : Keeps p r := by
  refine ⟨h'.proposalId.trans h.proposalId, h'.tenantId.trans h.tenantId,
    h'.failureClusterId.trans h.failureClusterId, h'.baselineConfig.trans h.baselineConfig,
    h'.proposalConfig.trans h.proposalConfig, h'.createdAt.trans h.createdAt,
    h'.canaryResult.trans h.canaryResult, Nat.le_trans h.stage h'.stage, ?_, ?_, ?_⟩
  · intro hfinal
    obtain rfl := h.final hfinal
    exact h'.final hfinal
  · intro hstage
    have hq := h.evaluated hstage
    have hr := h'.evaluated (Nat.le_trans hstage h.stage)
    exact ⟨hr.1.trans hq.1, hr.2.trans hq.2⟩
  · intro hstage
    have hq := h.approved hstage
    have hr := h'.approved (Nat.le_trans hstage h.stage)
    exact ⟨hr.1.trans hq.1, hr.2.trans hq.2⟩

theorem keeps_write (now : Instant) {a : Assignment} {p : Proposal}
    (hvalid : validTransition p.status a.target = true) : Keeps p (a.write now p) := by
  have hstage := stage_of_validTransition hvalid
  have hnotFinal := not_isFinal_of_validTransition hvalid
  refine ⟨by simp, by cases a <;> rfl, by cases a <;> rfl, by cases a <;> rfl, by cases a <;> rfl,
    by cases a <;> rfl, by cases a <;> rfl, by simp [hstage], ?_, ?_, ?_⟩
  · intro hfinal
    rw [hnotFinal] at hfinal
    cases hfinal
  · intro hpassed
    cases a with
    | evaluated evalRunId evalResult =>
      simp only [Assignment.target_stage] at hstage
      omega
    | proposed | approved | canary | promoted | rolledBack => exact ⟨rfl, rfl⟩
  · intro hpassed
    cases a with
    | approved approver approvedAt =>
      simp only [Assignment.target_stage] at hstage
      omega
    | proposed | evaluated | canary | promoted | rolledBack => exact ⟨rfl, rfl⟩

theorem AuditTrail.mono {served : List ProposalRequest} {p : Proposal} (h : AuditTrail served p)
    (request : ProposalRequest) : AuditTrail (request :: served) p := by
  refine ⟨fun hstage => ?_, h.approved, h.promoted, h.rolledBack⟩
  obtain ⟨evalRunId, evalResult, hrun, hresult, hne, r, hr, hrecords⟩ := h.evaluated hstage
  exact ⟨evalRunId, evalResult, hrun, hresult, hne, r, List.mem_cons_of_mem _ hr, hrecords⟩

theorem AuditTrail.write {served : List ProposalRequest} {p : Proposal} (h : AuditTrail served p)
    {context : RequestContext} {request : ProposalTransitionRequest} {a : Assignment}
    (htarget : ProposalStatus.ofText? request.targetStatus = some a.target)
    (hmet : GuardMet context.evaluationRuns request a)
    (hvalid : validTransition p.status a.target = true) :
    AuditTrail (.transition context p.proposalId request :: served) (a.write context.now p) := by
  have hstage := stage_of_validTransition hvalid
  have hkeeps := keeps_write context.now hvalid
  have hmono := h.mono (.transition context p.proposalId request)
  refine ⟨?_, ?_, ?_, ?_⟩
  · intro _
    cases a with
    | evaluated evalRunId evalResult =>
      obtain ⟨hrun, _, hne, hcompleted⟩ := hmet
      exact ⟨evalRunId, evalResult, rfl, rfl, hne, _, List.mem_cons_self, rfl, htarget, hrun,
        hcompleted⟩
    | proposed =>
      simp only [Assignment.target_stage] at hstage
      omega
    | approved | canary | promoted | rolledBack =>
      exact hmono.evaluated (by simp only [Assignment.target_stage] at hstage; omega)
  · intro hpassed
    cases a with
    | approved approver approvedAt => exact ⟨rfl, rfl⟩
    | proposed | evaluated =>
      simp [Assignment.target, ProposalStatus.stage] at hpassed
    | canary | promoted | rolledBack =>
      exact h.approved (by simp only [Assignment.target_stage] at hstage; omega)
  · intro hpromoted
    cases a with
    | promoted deploymentResult => exact ⟨deploymentResult, rfl, hmet.2⟩
    | proposed | evaluated | approved | canary | rolledBack => cases hpromoted
  · intro hrolled
    cases a with
    | rolledBack rolledBackAt rollbackReason => rfl
    | proposed | evaluated | approved | canary | promoted => cases hrolled

theorem auditTrail_new (served : List ProposalRequest) (context : RequestContext)
    (proposal : ProposalSubmission) (proposalId : UUID) :
    AuditTrail served (newProposal context proposal proposalId) := by
  refine ⟨?_, ?_, ?_, ?_⟩ <;> intro h <;> simp [newProposal, ProposalStatus.stage] at h

def Audited (s : ServerState) : Prop := ∀ p ∈ s.proposals.rows, AuditTrail s.served p

theorem audited_serve {s : ServerState} (hs : Audited s) (request : ProposalRequest) :
    Audited (serve s request) := by
  intro p hp
  have heffect := answerRequest_effect s.proposals request
  simp only [serve] at hp ⊢
  rw [KeyedTable.mem_rows_iff] at hp
  generalize (answerRequest s.proposals request).1 = proposals' at heffect hp
  cases heffect with
  | unchanged =>
    exact (hs p (s.proposals.mem_rows_iff.mpr hp)).mono request
  | created context proposal proposalId proposals' hinsert =>
    rw [KeyedTable.get?_insert? hinsert] at hp
    split at hp
    · obtain rfl := Option.some.inj hp
      exact auditTrail_new _ context proposal proposalId
    · exact (hs p (s.proposals.mem_rows_iff.mpr hp)).mono _
  | moved context request record assignment hrecord htarget hmet hvalid =>
    rw [KeyedTable.get?_modifyAt] at hp
    split at hp
    · rename_i hid
      rw [hid, hrecord, Option.map_some, Option.some.injEq] at hp
      subst hp
      exact (hs record (s.proposals.mem_rows_iff.mpr hrecord)).write htarget hmet hvalid
    · exact (hs p (s.proposals.mem_rows_iff.mpr hp)).mono _

def TableKeeps (s t : ServerState) : Prop :=
  ∀ p ∈ s.proposals.rows, ∃ p', t.proposals.get? p.proposalId = some p' ∧ Keeps p p'

theorem tableKeeps_serve (s : ServerState) (request : ProposalRequest) :
    TableKeeps s (serve s request) := by
  intro p hp
  have heffect := answerRequest_effect s.proposals request
  rw [KeyedTable.mem_rows_iff] at hp
  simp only [serve]
  generalize (answerRequest s.proposals request).1 = proposals' at heffect
  cases heffect with
  | unchanged => exact ⟨p, hp, Keeps.refl p⟩
  | created context proposal proposalId proposals' hinsert =>
    exact ⟨p, KeyedTable.get?_of_insert? hinsert hp, Keeps.refl p⟩
  | moved context request record assignment hrecord htarget hmet hvalid =>
    rw [KeyedTable.get?_modifyAt, hp]
    split
    · rename_i hid
      rw [hid, hrecord] at hp
      obtain rfl := Option.some.inj hp
      exact ⟨_, rfl, keeps_write context.now hvalid⟩
    · exact ⟨p, rfl, Keeps.refl p⟩

theorem TableKeeps.trans {s t u : ServerState} (h : TableKeeps s t) (h' : TableKeeps t u) :
    TableKeeps s u := by
  intro p hp
  obtain ⟨q, hq, hpq⟩ := h p hp
  obtain ⟨r, hr, hqr⟩ := h' q (t.proposals.get?_some_iff.mp hq).1
  rw [hpq.proposalId] at hr
  exact ⟨r, hr, hpq.trans hqr⟩

theorem tableKeeps_run {s t : ServerState} {requests : List ProposalRequest}
    (h : operatorSystem.run s requests = some t) : TableKeeps s t := by
  refine operatorSystem.run_relates (I := fun _ => True) (R := TableKeeps) ?_
    (fun _ _ _ => TableKeeps.trans) (fun _ _ _ _ _ => trivial) ?_ trivial h
  · intro s p hp
    exact ⟨p, s.proposals.mem_rows_iff.mp hp, Keeps.refl p⟩
  · intro s request t _ hstep
    obtain rfl := Option.some.inj hstep
    exact tableKeeps_serve s request

/-- The audit trail after any requests, what later requests keep of it, and the requests
that leave the table alone. -/
structure TrailKept (s : ServerState) : Prop where
  trail : ∀ p ∈ s.proposals.rows, AuditTrail s.served p
  kept : ∀ requests t, operatorSystem.run s requests = some t → TableKeeps s t
  refused : ∀ request, (answerRequest s.proposals request).2.isRefusal = true →
    (serve s request).proposals = s.proposals

theorem proposal_trail_kept {s : ServerState} (hs : operatorSystem.Reachable s) : TrailKept s := by
  refine ⟨?_, fun _ _ => tableKeeps_run, fun _ => answerRequest_refused⟩
  refine operatorSystem.reachable_invariant (I := Audited) (fun p hp => by cases hp) ?_ hs
  intro s request t hs hstep
  obtain rfl := Option.some.inj hstep
  exact audited_serve hs request

def auditContext : RequestContext :=
  { operator := ⟨"alice", "t", false⟩, now := 5, evaluationRuns := fun _ => some "completed" }

def moveTo (target : ProposalStatus) : ProposalRequest :=
  .transition auditContext 1
    { targetStatus := target.value, evalRunId := some 9, evalResult := some [("f1", .int 1)]
      deploymentResult := some [("ok", .bool true)] }

/-- A proposal promoted stage by stage, with a roll-back that comes too late. -/
def promotion : List ProposalRequest :=
  [.create auditContext {} 1, moveTo .evaluated, moveTo .approved, moveTo .canary,
   moveTo .promoted, moveTo .rolledBack]

theorem proposal_trail_kept_promotion :
    ∃ s, operatorSystem.run operatorSystem.start promotion = some s ∧
      s.proposals.rows.map Proposal.status = [.promoted] ∧ TrailKept s := by
  have hrun : operatorSystem.run operatorSystem.start promotion =
      some (promotion.foldl serve operatorSystem.start) := rfl
  exact ⟨_, hrun, by decide, proposal_trail_kept ⟨promotion, hrun⟩⟩

end GroundGraph.Operator

import GroundGraph.Answering.Generate
import GroundGraph.Answering.QueryGraph
import GroundGraph.Retrieval.Backing

/-! From the answer of a workflow back to the stores. Each execution may find other stores than
the one before, with other chunks and facts to see; what an answer cites is in those of the last
execution.
-/

set_option autoImplicit false

namespace GroundGraph.Answering

open GroundGraph.Knowledge GroundGraph.Neo4j GroundGraph.Retrieval

/-- What the generator writes into a citation comes from the evidence that the map finds. -/
structure CitesFrom (evidence : List Evidence) (c : Citation) (ev : Evidence) : Prop where
  listed : ev ∈ evidence
  evidenceId : ev.evidenceId = c.evidenceId
  locator : c.locator = chunkLocator ev
  allowedPrincipals : c.allowedPrincipals = ev.allowedPrincipals

section
variable {evidence : List Evidence} {uuid4 : UuidSource}

theorem buildCitations_cites (claimId : UUID) (ids : List UUID) (draws : Nat) :
    ∀ c ∈ buildCitations evidence uuid4 claimId draws ids, ∃ ev, CitesFrom evidence c ev := by
  induction ids generalizing draws with
  | nil => simp [buildCitations]
  | cons id ids ih =>
    intro c hc
    cases hev : evidenceMap evidence (strUuid id) with
    | none =>
      simp only [buildCitations, hev] at hc
      exact ih draws c hc
    | some ev =>
      simp only [buildCitations, hev, List.mem_cons] at hc
      rcases hc with rfl | hc
      · obtain ⟨hmem, hid⟩ := evidenceMap_some hev
        exact ⟨ev, hmem, strUuid_injective hid, rfl, rfl⟩
      · exact ih (draws + 1) c hc

theorem buildClaim_cites {s : BuildState} (hs : ∀ c ∈ s.citations, ∃ ev, CitesFrom evidence c ev)
    (output : ClaimOutput) :
    ∀ c ∈ (buildClaim evidence uuid4 s output).citations, ∃ ev, CitesFrom evidence c ev := by
  intro c hc
  cases hmake : AnswerClaim.make? s.claimId output.text output.factual
    (mappedIds evidence output) (groundedStatus evidence output) with
  | none =>
    simp only [buildClaim, hmake] at hc
    exact hs c hc
  | some claim =>
    simp only [buildClaim, hmake, List.mem_append] at hc
    rcases hc with hc | hc
    · exact hs c hc
    · exact buildCitations_cites _ _ _ c hc

theorem buildClaims_cites (outputs : List ClaimOutput) :
    ∀ c ∈ (buildClaims evidence uuid4 outputs).citations, ∃ ev, CitesFrom evidence c ev :=
  List.foldlRecOn (motive := fun s : BuildState => ∀ c ∈ s.citations, ∃ ev, CitesFrom evidence c ev)
    outputs (buildClaim evidence uuid4) (List.forall_mem_nil _)
    fun _ hs output _ => buildClaim_cites hs output

theorem generate_answered {llm : AnswerModel} {question : List Char} {r : QueryResponse}
    (h : generate llm uuid4 question evidence = some r) (hans : r.status = .answered) :
    ∃ output, buildResponse uuid4 output evidence = some r := by
  unfold generate at h
  split at h
  · obtain ⟨_, hstatus, _⟩ := QueryResponse.make?_some h
    rw [hstatus] at hans
    cases hans
  · split at h
    · obtain ⟨_, hstatus, _⟩ := QueryResponse.make?_some h
      rw [hstatus] at hans
      cases hans
    · exact ⟨_, h⟩

/-- An answered response, validated, holds together with the evidence. -/
structure Attested (evidence : List Evidence) (r : QueryResponse) : Prop where
  supported : ∃ claim ∈ r.claims, claim.evidenceIds ≠ []
  cited : ∀ claim ∈ r.claims, ∀ id ∈ claim.evidenceIds,
    ∃ c ∈ r.citations, c.claimId = claim.claimId ∧ c.evidenceId = id
  claimed : ∀ c ∈ r.citations, ∃ claim ∈ r.claims,
    claim.claimId = c.claimId ∧ c.evidenceId ∈ claim.evidenceIds
  factual : ∀ claim ∈ r.claims, claim.factual = true → claim.evidenceIds ≠ []
  evidence : ∀ c ∈ r.citations, ∃ ev, CitesFrom evidence c ev

theorem validateNode_eq {r : QueryResponse} (h : (validateNode r evidence).status = .answered) :
    validateNode r evidence = validate r evidence ∧ r.status = .answered := by
  unfold validateNode at h ⊢
  simp only at h ⊢
  split at h
  · cases h
  · rename_i hnone
    rw [if_neg hnone]
    exact ⟨rfl, h⟩

theorem exists_citation {r : QueryResponse} (hkeys : r.citations.map citationKey =
      r.claims.flatMap listedKeys) {claim : AnswerClaim} (hclaim : claim ∈ r.claims) {id : UUID}
    (hid : id ∈ claim.evidenceIds) :
    ∃ c ∈ r.citations, c.claimId = claim.claimId ∧ c.evidenceId = id := by
  have hkey : (claim.claimId, id) ∈ r.citations.map citationKey := by
    rw [hkeys]
    exact List.mem_flatMap.mpr ⟨claim, hclaim, List.mem_map_of_mem hid⟩
  obtain ⟨c, hc, heq⟩ := List.mem_map.mp hkey
  obtain ⟨hclaimId, hevidenceId⟩ := Prod.mk.inj heq
  exact ⟨c, hc, hclaimId, hevidenceId⟩

theorem exists_claim {r : QueryResponse} (hkeys : r.citations.map citationKey =
      r.claims.flatMap listedKeys) {c : Citation} (hc : c ∈ r.citations) :
    ∃ claim ∈ r.claims, claim.claimId = c.claimId ∧ c.evidenceId ∈ claim.evidenceIds := by
  have hkey : citationKey c ∈ r.claims.flatMap listedKeys := hkeys ▸ List.mem_map_of_mem hc
  obtain ⟨claim, hclaim, hlisted⟩ := List.mem_flatMap.mp hkey
  obtain ⟨id, hid, heq⟩ := List.mem_map.mp hlisted
  obtain ⟨hclaimId, hevidenceId⟩ := Prod.mk.inj heq
  exact ⟨claim, hclaim, hclaimId, hevidenceId ▸ hid⟩

theorem generated_attested {llm : AnswerModel} {question : List Char} {r : QueryResponse}
    (h : generate llm uuid4 question evidence = some r)
    (hans : (validateNode r evidence).status = .answered) :
    Attested evidence (validateNode r evidence) := by
  have hgrounded := validateNode_answered hans
  obtain ⟨heq, hstatus⟩ := validateNode_eq hans
  rw [heq] at hgrounded ⊢
  obtain ⟨output, hbuild⟩ := generate_answered h hstatus
  obtain ⟨hclaims, hcitations, -, hpos⟩ := buildResponse_answered hbuild hstatus
  have hinv : BuildInv evidence uuid4 (buildClaims evidence uuid4 output.claims) :=
    buildClaims_inv output.claims
  have hlisted : ∀ c ∈ r.claims, ∀ id ∈ c.evidenceIds, ∃ ev ∈ evidence, ev.evidenceId = id :=
    hclaims ▸ hinv.listed
  have hkeys : r.citations.map citationKey = r.claims.flatMap listedKeys := by
    rw [hclaims, hcitations]
    exact hinv.keys
  have hkept : (validate r evidence).claims = r.claims := validate_claims hlisted
  have hmem : ∀ c, c ∈ (validate r evidence).citations ↔ c ∈ r.citations := by
    intro c
    simp only [validate, validateCitations, List.mem_flatMap, List.mem_filter, Bool.and_eq_true,
      decide_eq_true_eq]
    constructor
    · rintro ⟨_, _, hc, _⟩
      exact hc
    · intro hc
      obtain ⟨claim, hclaim, hclaimId, hid⟩ := exists_claim hkeys hc
      obtain ⟨ev, hev, hevidence⟩ := hlisted claim hclaim _ hid
      exact ⟨claim, hclaim, hc, hclaimId.symm, List.any_eq_true.mpr ⟨ev, hev, by simp [hevidence]⟩⟩
  constructor
  · obtain ⟨claim, hclaim, hsupported⟩ := List.countP_pos_iff.mp hpos
    rw [← hclaims, ← hkept] at hclaim
    refine ⟨claim, hclaim, fun hnil => ?_⟩
    simp [isSupported, claim.evidenceForSupportStatus.mpr hnil] at hsupported
  · intro claim hclaim id hid
    rw [hkept] at hclaim
    obtain ⟨c, hc, hpair⟩ := exists_citation hkeys hclaim hid
    exact ⟨c, (hmem c).mpr hc, hpair⟩
  · intro c hc
    rw [hkept]
    exact exists_claim hkeys ((hmem c).mp hc)
  · intro claim hclaim hfactual hnil
    exact hgrounded claim hclaim hfactual (claim.evidenceForSupportStatus.mpr hnil)
  · intro c hc
    have hc := (hmem c).mp hc
    rw [hcitations] at hc
    exact buildClaims_cites output.claims c hc

end

/-- One call of the service: its ports, the stores as they stand, and the model. -/
structure Execution where
  cfg : HybridRetrievalConfig
  backend : SearchBackend
  store : ChunkStore
  graph : Graph
  llm : AnswerModel
  uuid4 : UuidSource
  /-- `str(exc)`, also of the `ValidationError` of a response. -/
  text : QueryError → List Char

def Execution.service (x : Execution) : HybridRetrievalConfig :=
  { x.cfg.over x.backend x.store x.graph with
    generate := fun question evidence _ =>
      match Answering.generate x.llm x.uuid4 question evidence with
      | some r => .ok r
      | none => .error (.generation []) }

def Execution.outcome (x : Execution) (req : HybridRequest) : ExecutionOutcome :=
  match x.service.queryWithEvidence req with
  | .ok result => .returned result.response result.evidence
  | .error e => .raised (x.text e)

/-- The locator names a chunk that the reader may read, or the citation a fact that he may see. -/
inductive LeadsTo (store : ChunkStore) (g : Graph) (rd : Reader) (c : Citation) : Prop where
  | chunk (r : ChunkRow) (readable : ReadableChunk store rd r)
      (locator : c.locator = strUuid r.chunkId ++ '@' :: strUuid r.versionId)
      (allowedPrincipals : c.allowedPrincipals = r.allowedPrincipals)
  | fact (f : KnowledgeFact) (stored : g.facts.get? c.evidenceId = some f)
      (visible : Visible rd.tenantId rd.principal none f)
      (locator : c.locator = strUuid f.factId)
      (allowedPrincipals : c.allowedPrincipals = f.allowedPrincipals)

theorem CitesFrom.leadsTo {evidence : List Evidence} {c : Citation} {ev : Evidence}
    {store : ChunkStore} {g : Graph} {rd : Reader} (h : CitesFrom evidence c ev)
    (hbacked : Backed store g rd ev) : LeadsTo store g rd c := by
  cases hbacked with
  | chunk r hreadable hshows =>
    refine .chunk r hreadable ?_ (h.allowedPrincipals.trans hshows.allowedPrincipals)
    rw [h.locator, chunkLocator, hshows.chunkId, hshows.versionId]
  | fact f hshows =>
    have hid : f.factId = ev.evidenceId := (g.facts.get?_some_iff.mp hshows.stored).2
    refine .fact f ?_ hshows.visible ?_ (h.allowedPrincipals.trans hshows.allowedPrincipals)
    · rw [← h.evidenceId]
      exact hshows.stored
    · rw [h.locator, chunkLocator, hshows.versionId, hshows.structuredRecordId, hid]
      cases ev.chunkId <;> rfl

theorem outcome_returned {x : Execution} {req : HybridRequest} {r : QueryResponse}
    {evidence : List Evidence} (h : x.outcome req = .returned r evidence) :
    (x.cfg.over x.backend x.store x.graph).gatherEvidence req = .ok evidence ∧
      generate x.llm x.uuid4 req.question evidence = some r := by
  have hgather : x.service.gatherEvidence req =
      (x.cfg.over x.backend x.store x.graph).gatherEvidence req := rfl
  unfold Execution.outcome HybridRetrievalConfig.queryWithEvidence at h
  rw [hgather] at h
  cases hevidence : (x.cfg.over x.backend x.store x.graph).gatherEvidence req with
  | error e =>
    rw [hevidence] at h
    cases h
  | ok gathered =>
    rw [hevidence] at h
    cases hresponse : generate x.llm x.uuid4 req.question gathered with
    | none =>
      simp only [bind, Except.bind, Execution.service, hresponse] at h
      cases h
    | some response =>
      simp only [bind, Except.bind, Execution.service, hresponse, pure, Except.pure,
        ExecutionOutcome.returned.injEq] at h
      obtain ⟨rfl, rfl⟩ := h
      exact ⟨rfl, hresponse⟩

/-- Each citation of an answer leads to a chunk or a fact that was there in the last execution and
that the reader may see, each id that a claim lists is cited, and factual claims list some. -/
structure Traced (x : Execution) (rd : Reader) (r : QueryResponse) : Prop where
  leads : ∀ c ∈ r.citations, LeadsTo x.store x.graph rd c
  claimed : ∀ c ∈ r.citations, ∃ claim ∈ r.claims,
    claim.claimId = c.claimId ∧ c.evidenceId ∈ claim.evidenceIds
  cited : ∀ claim ∈ r.claims, ∀ id ∈ claim.evidenceIds,
    ∃ c ∈ r.citations, c.claimId = claim.claimId ∧ c.evidenceId = id
  factual : ∀ claim ∈ r.claims, claim.factual = true → claim.evidenceIds ≠ []

/-- What is answered was generated and validated in the last execution, over the evidence that it
gathered. -/
theorem answered_attested (req : HybridRequest) (executionRunId : UUID) (maxRetries : Nat)
    (executions : Nat → Execution) :
    let run := graphRun executionRunId maxRetries fun i => (executions i).outcome req
    let x := executions (run.executions - 1)
    (finalResponse run.state).status = .answered →
      ∃ evidence, (x.cfg.over x.backend x.store x.graph).gatherEvidence req = .ok evidence ∧
        Attested evidence (finalResponse run.state) := by
  intro run x hanswered
  obtain ⟨-, hsound⟩ := graphRun_sound executionRunId maxRetries fun i => (executions i).outcome req
  obtain ⟨r, evidence, hlast, hfinal, -⟩ := hsound.answered hanswered
  obtain ⟨hgather, hgenerate⟩ := outcome_returned hlast
  rw [hfinal] at hanswered ⊢
  exact ⟨evidence, hgather, generated_attested hgenerate hanswered⟩

theorem answer_traced {rd : Reader} {req : HybridRequest} (h : req.AskedBy rd)
    (executionRunId : UUID) (maxRetries : Nat) (executions : Nat → Execution) :
    let run := graphRun executionRunId maxRetries fun i => (executions i).outcome req
    (finalResponse run.state).status = .answered →
      Traced (executions (run.executions - 1)) rd (finalResponse run.state) := by
  intro run hanswered
  obtain ⟨evidence, hgather, hattested⟩ :=
    answered_attested req executionRunId maxRetries executions hanswered
  refine ⟨?_, hattested.claimed, hattested.cited, hattested.factual⟩
  intro c hc
  obtain ⟨ev, hcites⟩ := hattested.evidence c hc
  exact hcites.leadsTo (gatherEvidence_backed h hgather ev hcites.listed)

def anyMatch : SearchBackend where
  distance := fun _ _ => 0
  nearest := fun _ => ⟨id, fun _ => .refl _⟩
  isMatch := fun _ _ => true
  rank := fun _ _ => 0
  best := fun _ => ⟨id, fun _ => .refl _⟩

def citingModel : AnswerModel where
  create := fun _ => .message (some "reply")
  modelValidateJson := fun _ =>
    some ⟨"It is.".toList, [⟨"c".toList, true, "supported".toList, [strUuid 77]⟩]⟩

def lateIndex (n : Nat) : Execution where
  cfg :=
    { plainService with
      resolveActive := if n = 0 then fun _ => none else plainService.resolveActive }
  backend := anyMatch
  store := if n = 0 then ⟨.empty, .empty, []⟩ else backingStore
  graph := sampleGraph
  llm := citingModel
  uuid4 := BitVec.ofNat 128
  text := fun _ => "no index".toList

def isIt : HybridRequest := { question := "is it?".toList, principal := "p", tenantId := "t" }

def asker : Reader := ⟨"t", "p", by decide⟩

theorem answer_traced_lateIndex :
    let run := graphRun 1 1 fun i => (lateIndex i).outcome isIt
    run.executions = 2 ∧ (finalResponse run.state).citations.map Citation.evidenceId = [77] ∧
      Traced (lateIndex 1) asker (finalResponse run.state) := by
  have hexecutions : (graphRun 1 1 fun i => (lateIndex i).outcome isIt).executions = 2 := by decide
  have hanswered : (finalResponse
      (graphRun 1 1 fun i => (lateIndex i).outcome isIt).state).status = .answered := by decide
  have hasked : isIt.AskedBy asker := ⟨rfl, rfl⟩
  have htraced := answer_traced hasked 1 1 lateIndex hanswered
  rw [hexecutions] at htraced
  exact ⟨hexecutions, by decide, htraced⟩

end GroundGraph.Answering

import GroundGraph.Answering.Workflow
import GroundGraph.Library.Correspondence

/-! Fail-closed grounding: when every factual claim of the LLM output reaches an
answered response, and the one way in which it does not.
-/

set_option autoImplicit false

namespace GroundGraph.Answering

open GroundGraph.Retrieval

variable {evidence : List Evidence} {uuid4 : UuidSource}

def Matches (evidence : List Evidence) (output : ClaimOutput) (c : AnswerClaim) : Prop :=
  c.text = output.text ∧ c.supportStatus ≠ .unsupported ∧
    ∃ id ∈ c.evidenceIds, ∃ ev ∈ evidence, ev.evidenceId = id

/-- If the response is answered, its factual claims are the factual claims of the
output, one for one and in order. -/
def Grounded (output : ResponseOutput) (evidence : List Evidence) (r : QueryResponse) : Prop :=
  r.status = .answered →
    List.Forall₂ (Matches evidence) (output.claims.filter ClaimOutput.factual)
      (r.claims.filter AnswerClaim.factual)

def FailClosed (uuid4 : UuidSource) (output : ResponseOutput) (evidence : List Evidence) : Prop :=
  ∀ r, answerAndValidate uuid4 output evidence = some r → Grounded output evidence r

/-- The loop keeps this claim: it lists real evidence exactly if it is supported. -/
def kept (evidence : List Evidence) (output : ClaimOutput) : Bool :=
  !(decide (rawStatus output = .unsupported) && decide (mappedIds evidence output ≠ []))

def supportedByEvidence (evidence : List Evidence) (output : ClaimOutput) : Bool :=
  decide (rawStatus output ≠ .unsupported) && decide (mappedIds evidence output ≠ [])

theorem groundedStatus_consistent_iff {output : ClaimOutput} :
    (groundedStatus evidence output = .unsupported ↔ mappedIds evidence output = []) ↔
      kept evidence output = true := by
  unfold groundedStatus kept
  by_cases hraw : rawStatus output = .unsupported
  · by_cases hids : mappedIds evidence output = [] <;> simp [hraw, hids]
  · by_cases hids : mappedIds evidence output = [] <;> simp [hraw, hids]

structure Builds (evidence : List Evidence) (output : ClaimOutput) (c : AnswerClaim) : Prop where
  text : c.text = output.text
  factual : c.factual = output.factual
  evidenceIds : c.evidenceIds = mappedIds evidence output
  supportStatus : c.supportStatus = groundedStatus evidence output

theorem Builds.unsupported_iff {output : ClaimOutput} {c : AnswerClaim}
    (h : Builds evidence output c) : c.supportStatus = .unsupported ↔ mappedIds evidence output = [] := by
  rw [← h.evidenceIds]
  exact c.evidenceForSupportStatus

theorem buildClaims_builds (outputs : List ClaimOutput) :
    List.Forall₂ (Builds evidence) (outputs.filter (kept evidence))
      (buildClaims evidence uuid4 outputs).claims := by
  have hfold : ∀ (outputs done : List ClaimOutput) (s : BuildState),
      List.Forall₂ (Builds evidence) (done.filter (kept evidence)) s.claims →
        List.Forall₂ (Builds evidence) ((done ++ outputs).filter (kept evidence))
          (outputs.foldl (buildClaim evidence uuid4) s).claims := by
    intro outputs
    induction outputs with
    | nil =>
      intro done s hs
      simpa using hs
    | cons o os ih =>
      intro done s hs
      have hnext : List.Forall₂ (Builds evidence) ((done ++ [o]).filter (kept evidence))
          (buildClaim evidence uuid4 s o).claims := by
        rw [List.filter_append]
        cases hmake : AnswerClaim.make? s.claimId o.text o.factual (mappedIds evidence o)
          (groundedStatus evidence o) with
        | none =>
          have hdrop : ¬ kept evidence o = true := by
            rw [← groundedStatus_consistent_iff, ← AnswerClaim.make?_isSome_iff s.claimId
              o.text o.factual, hmake]
            simp
          simpa [buildClaim, hmake, hdrop] using hs
        | some claim =>
          have hkeep : kept evidence o = true := by
            rw [← groundedStatus_consistent_iff, ← AnswerClaim.make?_isSome_iff s.claimId
              o.text o.factual, hmake]
            rfl
          obtain ⟨_, htext, hfactual, hids, hstatus⟩ := AnswerClaim.make?_some_iff.mp hmake
          simp only [buildClaim, hmake, List.filter_cons, hkeep, if_true, List.filter_nil]
          exact List.rel_append hs (.cons ⟨htext, hfactual, hids, hstatus⟩ .nil)
      have hrest := ih (done ++ [o]) _ hnext
      simpa using hrest
  simpa [buildClaims] using hfold outputs [] ⟨[], [], uuid4 0, 1⟩ .nil

theorem validateClaim_of_retrieved {c : AnswerClaim}
    (h : ∀ id ∈ c.evidenceIds, ∃ ev ∈ evidence, ev.evidenceId = id) : validateClaim evidence c = c := by
  have hall : c.evidenceIds.filter (retrieved evidence) = c.evidenceIds := by
    rw [List.filter_eq_self]
    intro id hid
    obtain ⟨ev, hev, rfl⟩ := h id hid
    exact List.any_eq_true.mpr ⟨ev, hev, by simp⟩
  unfold validateClaim
  split
  · rfl
  · rename_i hstatus
    have hne : c.evidenceIds ≠ [] := fun hnil => hstatus (c.evidenceForSupportStatus.mpr hnil)
    simp [hall, hne]

theorem validate_claims {r : QueryResponse}
    (h : ∀ c ∈ r.claims, ∀ id ∈ c.evidenceIds, ∃ ev ∈ evidence, ev.evidenceId = id) :
    (validate r evidence).claims = r.claims := by
  have hmap : r.claims.map (validateClaim evidence) = r.claims.map id :=
    List.map_congr_left fun c hc => validateClaim_of_retrieved (h c hc)
  simpa [validate] using hmap

theorem validateNode_answered_iff {r : QueryResponse}
    (h : ∀ c ∈ r.claims, ∀ id ∈ c.evidenceIds, ∃ ev ∈ evidence, ev.evidenceId = id) :
    (validateNode r evidence).status = .answered ↔
      r.status = .answered ∧
        ∀ c ∈ r.claims, c.factual = true → c.supportStatus ≠ .unsupported := by
  have hclaims := validate_claims h
  unfold validateNode
  simp only [hclaims]
  split
  · rename_i hsome
    refine iff_of_false (by simp) ?_
    rintro ⟨_, hnone⟩
    refine hsome (List.filter_eq_nil_iff.mpr ?_)
    intro c hc hboth
    simp only [isUnsupported, Bool.and_eq_true, decide_eq_true_eq] at hboth
    exact hnone c hc hboth.1 hboth.2
  · rename_i hnone
    have hnone := List.filter_eq_nil_iff.mp (not_not.mp hnone)
    refine ⟨fun hs => ⟨hs, ?_⟩, fun hs => hs.1⟩
    intro c hc hfactual hstatus
    exact hnone c hc (by simp [isUnsupported, hfactual, hstatus])

theorem validateNode_claims {r : QueryResponse}
    (h : ∀ c ∈ r.claims, ∀ id ∈ c.evidenceIds, ∃ ev ∈ evidence, ev.evidenceId = id)
    (hans : (validateNode r evidence).status = .answered) :
    (validateNode r evidence).claims = r.claims := by
  have hclaims := validate_claims h
  unfold validateNode at hans ⊢
  simp only at hans ⊢
  split at hans
  · cases hans
  · rename_i hnone
    rw [if_neg hnone]
    exact hclaims

/-- The loop drops this factual claim: it is not supported, yet lists evidence
that was retrieved. -/
def dropped (evidence : List Evidence) (output : ClaimOutput) : Bool :=
  output.factual && !kept evidence output

/-- Nothing is answered, or a factual claim without retrieved evidence makes the
workflow refuse, or no factual claim is dropped. -/
def GroundingHolds (output : ResponseOutput) (evidence : List Evidence) : Prop :=
  PyText.strip output.answer = [] ∨
    (∀ o ∈ output.claims, supportedByEvidence evidence o = false) ∨
    (∃ o ∈ output.claims, o.factual = true ∧ mappedIds evidence o = []) ∨
    (∀ o ∈ output.claims, dropped evidence o = false)

instance (output : ResponseOutput) (evidence : List Evidence) :
    Decidable (GroundingHolds output evidence) := by
  unfold GroundingHolds
  infer_instance

theorem supportedByEvidence_iff {output : ClaimOutput} :
    supportedByEvidence evidence output = true ↔
      kept evidence output = true ∧ mappedIds evidence output ≠ [] := by
  by_cases hraw : rawStatus output = .unsupported <;>
    by_cases hids : mappedIds evidence output = [] <;>
      simp [supportedByEvidence, kept, hraw, hids]

theorem countP_isSupported_pos_iff (outputs : List ClaimOutput) :
    0 < (buildClaims evidence uuid4 outputs).claims.countP isSupported ↔
      ∃ o ∈ outputs, supportedByEvidence evidence o = true := by
  have hbuilt : List.Forall₂ (Builds evidence) (outputs.filter (kept evidence))
      (buildClaims evidence uuid4 outputs).claims := buildClaims_builds outputs
  rw [List.countP_pos_iff]
  constructor
  · rintro ⟨c, hc, hsupported⟩
    obtain ⟨o, ho, hb⟩ := Correspondence.exists_left_of_mem hbuilt hc
    obtain ⟨hmem, hkept⟩ := List.mem_filter.mp ho
    refine ⟨o, hmem, supportedByEvidence_iff.mpr ⟨hkept, fun hids => ?_⟩⟩
    simp [isSupported, hb.unsupported_iff.mpr hids] at hsupported
  · rintro ⟨o, hmem, hsupported⟩
    obtain ⟨hkept, hids⟩ := supportedByEvidence_iff.mp hsupported
    obtain ⟨c, hc, hb⟩ := Correspondence.exists_right_of_mem hbuilt (List.mem_filter.mpr ⟨hmem, hkept⟩)
    refine ⟨c, hc, ?_⟩
    simpa [isSupported, hb.unsupported_iff] using hids

theorem buildClaims_factual (evidence : List Evidence) (uuid4 : UuidSource)
    (outputs : List ClaimOutput) :
    List.Forall₂ (Builds evidence) ((outputs.filter (kept evidence)).filter ClaimOutput.factual)
      ((buildClaims evidence uuid4 outputs).claims.filter AnswerClaim.factual) := by
  refine List.rel_filter ?_ (buildClaims_builds outputs)
  intro o c hb
  simp [hb.factual]

theorem filter_kept_factual {outputs : List ClaimOutput}
    (h : ∀ o ∈ outputs, dropped evidence o = false) :
    (outputs.filter (kept evidence)).filter ClaimOutput.factual =
      outputs.filter ClaimOutput.factual := by
  rw [List.filter_filter]
  apply List.filter_congr
  intro o ho
  have hdrop := h o ho
  cases hf : o.factual with
  | false => simp
  | true => simpa [dropped, hf] using hdrop

/-- Dropping one factual claim leaves too few of them. -/
theorem length_filter_kept_lt {outputs : List ClaimOutput} {o : ClaimOutput} (ho : o ∈ outputs)
    (hdrop : dropped evidence o = true) :
    ((outputs.filter (kept evidence)).filter ClaimOutput.factual).length <
      (outputs.filter ClaimOutput.factual).length := by
  simp only [dropped, Bool.and_eq_true, Bool.not_eq_true'] at hdrop
  rw [List.filter_comm]
  apply List.length_filter_lt_length_iff_exists.mpr
  exact ⟨o, List.mem_filter.mpr ⟨ho, hdrop.1⟩, by simp [hdrop.2]⟩

theorem answered_iff {output : ResponseOutput} {r : QueryResponse}
    (h : buildResponse uuid4 output evidence = some r) :
    (validateNode r evidence).status = .answered ↔
      r.status = .answered ∧ ∀ o ∈ output.claims, o.factual = true → mappedIds evidence o ≠ [] := by
  have hbuilt : List.Forall₂ (Builds evidence) (output.claims.filter (kept evidence))
      (buildClaims evidence uuid4 output.claims).claims := buildClaims_builds output.claims
  have hlisted : r.status = .answered →
      ∀ c ∈ r.claims, ∀ id ∈ c.evidenceIds, ∃ ev ∈ evidence, ev.evidenceId = id := by
    intro hans
    rw [(buildResponse_answered h hans).1]
    exact (buildClaims_inv output.claims).listed
  constructor
  · intro hfinal
    have hans : r.status = .answered := by
      unfold validateNode at hfinal
      simp only at hfinal
      split at hfinal
      · cases hfinal
      · exact hfinal
    refine ⟨hans, fun o ho hfactual hids => ?_⟩
    have hkept : kept evidence o = true := by simp [kept, hids]
    obtain ⟨c, hc, hb⟩ := Correspondence.exists_right_of_mem hbuilt (List.mem_filter.mpr ⟨ho, hkept⟩)
    rw [← (buildResponse_answered h hans).1] at hc
    exact ((validateNode_answered_iff (hlisted hans)).mp hfinal).2 c hc
      (hb.factual.trans hfactual) (hb.unsupported_iff.mpr hids)
  · rintro ⟨hans, hids⟩
    refine (validateNode_answered_iff (hlisted hans)).mpr ⟨hans, fun c hc hfactual hstatus => ?_⟩
    rw [(buildResponse_answered h hans).1] at hc
    obtain ⟨o, ho, hb⟩ := Correspondence.exists_left_of_mem hbuilt hc
    exact hids o (List.mem_filter.mp ho).1 (hb.factual.symm.trans hfactual)
      (hb.unsupported_iff.mp hstatus)

theorem buildResponse_isSome {output : ResponseOutput} (hanswer : PyText.strip output.answer ≠ [])
    (hsupported : 0 < (buildClaims evidence uuid4 output.claims).claims.countP isSupported) :
    ∃ r, buildResponse uuid4 output evidence = some r ∧ r.status = .answered := by
  have hne : output.answer ≠ [] := by
    rintro hnil
    rw [hnil] at hanswer
    exact hanswer rfl
  have hconsistent : answerConsistent .answered (some output.answer) = true := by
    simp [answerConsistent, hne]
  simp only [buildResponse, if_pos hanswer, if_neg (Nat.ne_of_gt hsupported), QueryResponse.make?,
    dif_pos hconsistent]
  exact ⟨_, rfl, rfl⟩

theorem Builds.matches {o : ClaimOutput} {c : AnswerClaim} (hb : Builds evidence o c)
    (hids : mappedIds evidence o ≠ []) : Matches evidence o c := by
  refine ⟨hb.text, fun h => hids (hb.unsupported_iff.mp h), ?_⟩
  obtain ⟨id, hid⟩ := List.exists_mem_of_ne_nil _ hids
  exact ⟨id, hb.evidenceIds ▸ hid, mem_mappedIds hid⟩

theorem failClosed_iff (uuid4 : UuidSource) (output : ResponseOutput) (evidence : List Evidence) :
    FailClosed uuid4 output evidence ↔ GroundingHolds output evidence := by
  constructor
  · intro h
    by_contra hfails
    simp only [GroundingHolds, not_or, not_forall, not_exists, not_and,
      Bool.not_eq_false] at hfails
    obtain ⟨hanswer, ⟨o, ho, hsupported⟩, hids, o', ho', hdrop⟩ := hfails
    have hpos : 0 < (buildClaims evidence uuid4 output.claims).claims.countP isSupported :=
      (countP_isSupported_pos_iff output.claims).mpr ⟨o, ho, hsupported⟩
    obtain ⟨r, hr, hans⟩ := buildResponse_isSome hanswer hpos
    have hfinal := (answered_iff hr).mpr ⟨hans, hids⟩
    have hground := h (validateNode r evidence) (by simp [answerAndValidate, hr]) hfinal
    have hclaims := (buildResponse_answered hr hans).1
    rw [validateNode_claims (by rw [hclaims]; exact (buildClaims_inv output.claims).listed) hfinal,
      hclaims] at hground
    have hlt := length_filter_kept_lt ho' hdrop
    have hbuilt := (buildClaims_factual evidence uuid4 output.claims).length_eq
    have hlen := hground.length_eq
    omega
  · intro hholds r hr hfinal
    obtain ⟨built, hbuilt, rfl⟩ := Option.map_eq_some_iff.mp hr
    obtain ⟨hans, hids⟩ := (answered_iff hbuilt).mp hfinal
    obtain ⟨hclaims, _, hanswer, hpos⟩ := buildResponse_answered hbuilt hans
    have hnodrop : ∀ o ∈ output.claims, dropped evidence o = false := by
      rcases hholds with h | h | ⟨o, ho, hfactual, h⟩ | h
      · exact absurd h hanswer
      · obtain ⟨o, ho, hsupported⟩ := (countP_isSupported_pos_iff output.claims).mp hpos
        simp [h o ho] at hsupported
      · exact absurd h (hids o ho hfactual)
      · exact h
    rw [validateNode_claims (by rw [hclaims]; exact (buildClaims_inv output.claims).listed) hfinal,
      hclaims]
    have hfactual := buildClaims_factual evidence uuid4 output.claims
    rw [filter_kept_factual hnodrop] at hfactual
    refine ((List.forall₂_and_left (p := fun o => mappedIds evidence o ≠ []) _ _).mpr
      ⟨?_, hfactual⟩).imp fun o c hb => hb.2.matches hb.1
    intro o ho
    obtain ⟨hmem, hf⟩ := List.mem_filter.mp ho
    exact hids o hmem hf

/-- One supported claim, and a factual claim that the model itself calls
unsupported but for which it lists evidence. -/
def slippingOutput : ResponseOutput :=
  ⟨"Yes, and the moon is cheese.".toList,
    [⟨"Yes.".toList, true, "supported".toList, [strUuid 7]⟩,
     ⟨"The moon is cheese.".toList, true, "unsupported".toList, [strUuid 7]⟩]⟩

theorem not_failClosed_slipping :
    ¬ FailClosed (fun n => BitVec.ofNat 128 n) slippingOutput [sampleEvidence 7 "alice"] := by
  intro h
  have hsome : (answerAndValidate (fun n => BitVec.ofNat 128 n) slippingOutput
      [sampleEvidence 7 "alice"]).isSome := by decide
  obtain ⟨r, hr⟩ := Option.isSome_iff_exists.mp hsome
  have hview : (answerAndValidate (fun n => BitVec.ofNat 128 n) slippingOutput
      [sampleEvidence 7 "alice"]).map (fun r =>
        (r.status, (r.claims.filter AnswerClaim.factual).length)) = some (.answered, 1) := by decide
  rw [hr, Option.map_some, Option.some.injEq, Prod.mk.injEq] at hview
  have hlen := (h r hr hview.1).length_eq
  rw [hview.2] at hlen
  exact absurd hlen (by decide)

end GroundGraph.Answering

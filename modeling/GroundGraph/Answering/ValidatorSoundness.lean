import GroundGraph.Answering.Workflow
import GroundGraph.Library.Correspondence
import GroundGraph.Library.Grouping

/-! The claim validator never raises, keeps no id that was not retrieved and raises no status. A
second pass finds nothing to do, and neither does the first on a response that the generator
built from the same evidence.
-/

set_option autoImplicit false

namespace GroundGraph.Answering

open GroundGraph.Retrieval Grouping

/-- `_validate_claim` with the constructor of `AnswerClaim`, which may raise. The status is one of
the three literals. -/
def validateClaim? (evidence : List Evidence) (claim : AnswerClaim) : Option AnswerClaim :=
  if claim.supportStatus = .supported ∨ claim.supportStatus = .partiallySupported then
    if claim.evidenceIds = [] then
      AnswerClaim.make? claim.claimId claim.text claim.factual claim.evidenceIds .unsupported
    else
      let presentIds := claim.evidenceIds.filter (retrieved evidence)
      if presentIds = [] then
        AnswerClaim.make? claim.claimId claim.text claim.factual [] .unsupported
      else if presentIds.length < claim.evidenceIds.length then
        AnswerClaim.make? claim.claimId claim.text claim.factual presentIds .partiallySupported
      else some claim
  else some claim

/-- `validate`; `none` where a claim or the response does not pass its validator. -/
def validate? (r : QueryResponse) (evidence : List Evidence) : Option QueryResponse := do
  let claims ← r.claims.mapM (validateClaim? evidence)
  let unsupported := claims.countP isUnsupported
  QueryResponse.make? r.executionRunId r.answer r.status claims (validateCitations evidence r)
    r.confidenceBand (if unsupported > 0 then
        r.warnings ++ [(Nat.repr unsupported).toList ++ " unsupported claim(s) detected".toList]
      else r.warnings)

variable {evidence : List Evidence}

theorem retrieved_iff {id : UUID} :
    retrieved evidence id = true ↔ ∃ ev ∈ evidence, ev.evidenceId = id := by
  unfold retrieved
  rw [List.any_eq_true]
  simp only [decide_eq_true_eq]

theorem validateClaim_cases (c : AnswerClaim) :
    validateClaim evidence c = c ∧ (∀ id ∈ c.evidenceIds, retrieved evidence id = true) ∨
      c.supportStatus ≠ .unsupported ∧ (validateClaim evidence c).claimId = c.claimId ∧
        (validateClaim evidence c).text = c.text ∧ (validateClaim evidence c).factual = c.factual ∧
        (validateClaim evidence c).evidenceIds = c.evidenceIds.filter (retrieved evidence) ∧
        ((validateClaim evidence c).supportStatus = .unsupported ∨
          (validateClaim evidence c).supportStatus = .partiallySupported) := by
  unfold validateClaim
  by_cases hstatus : c.supportStatus = .unsupported
  · left
    rw [if_pos hstatus, c.evidenceForSupportStatus.mp hstatus]
    exact ⟨rfl, List.forall_mem_nil _⟩
  · rw [if_neg hstatus]
    dsimp only
    split
    · rename_i hnone
      exact Or.inr ⟨hstatus, rfl, rfl, rfl, hnone.symm, Or.inl rfl⟩
    · rename_i hsome
      split
      · exact Or.inr ⟨hstatus, rfl, rfl, rfl, rfl, Or.inr rfl⟩
      · rename_i hle
        have hlength : (c.evidenceIds.filter (retrieved evidence)).length = c.evidenceIds.length :=
          Nat.le_antisymm (List.length_filter_le _ _) (Nat.not_lt.mp hle)
        exact Or.inl ⟨rfl, List.length_filter_eq_length_iff.mp hlength⟩

theorem validateClaim?_eq (c : AnswerClaim) :
    validateClaim? evidence c = some (validateClaim evidence c) := by
  unfold validateClaim? validateClaim
  by_cases hstatus : c.supportStatus = .unsupported
  · have hneither : ¬ (c.supportStatus = .supported ∨ c.supportStatus = .partiallySupported) := by
      rw [hstatus]
      rintro (h | h) <;> cases h
    rw [if_neg hneither, if_pos hstatus]
  · have heither : c.supportStatus = .supported ∨ c.supportStatus = .partiallySupported := by
      cases h : c.supportStatus with
      | supported => exact Or.inl rfl
      | partiallySupported => exact Or.inr rfl
      | unsupported => exact absurd h hstatus
    have hids : c.evidenceIds ≠ [] := fun hnil => hstatus (c.evidenceForSupportStatus.mpr hnil)
    rw [if_pos heither, if_neg hids, if_neg hstatus]
    dsimp only
    by_cases hnone : c.evidenceIds.filter (retrieved evidence) = []
    · rw [if_pos hnone, dif_pos hnone]
      exact AnswerClaim.make?_some_iff.mpr ⟨rfl, rfl, rfl, rfl, rfl⟩
    · rw [if_neg hnone, dif_neg hnone]
      split
      · exact AnswerClaim.make?_some_iff.mpr ⟨rfl, rfl, rfl, rfl, rfl⟩
      · rfl

theorem validate?_eq (r : QueryResponse) (evidence : List Evidence) :
    validate? r evidence = some (validate r evidence) := by
  have hclaims : r.claims.mapM (validateClaim? evidence) =
      some (r.claims.map (validateClaim evidence)) := by
    rw [funext validateClaim?_eq]
    exact List.mapM_pure
  unfold validate?
  rw [hclaims]
  exact dif_pos r.answerStatusConsistency

def supportRank (s : SupportStatus) : Nat :=
  match s with
  | .unsupported => 0
  | .partiallySupported => 1
  | .supported => 2

structure ClaimChecked (evidence : List Evidence) (c c' : AnswerClaim) : Prop where
  claimId : c'.claimId = c.claimId
  text : c'.text = c.text
  factual : c'.factual = c.factual
  left : c'.evidenceIds.Sublist c.evidenceIds
  present : ∀ id ∈ c'.evidenceIds, ∃ ev ∈ evidence, ev.evidenceId = id
  supported : c'.supportStatus = .supported → c.supportStatus = .supported ∧
    ∀ id ∈ c.evidenceIds, ∃ ev ∈ evidence, ev.evidenceId = id
  notUpgraded : supportRank c'.supportStatus ≤ supportRank c.supportStatus

theorem validateClaim_checked (c : AnswerClaim) :
    ClaimChecked evidence c (validateClaim evidence c) := by
  rcases @validateClaim_cases evidence c with
    ⟨hsame, hall⟩ | ⟨hstatus, hid, htext, hfactual, hids, hnew⟩
  · have hpresent : ∀ id ∈ c.evidenceIds, ∃ ev ∈ evidence, ev.evidenceId = id :=
      fun id hmem => retrieved_iff.mp (hall id hmem)
    rw [hsame]
    exact ⟨rfl, rfl, rfl, List.Sublist.refl _, hpresent, fun h => ⟨h, hpresent⟩, le_rfl⟩
  · refine ⟨hid, htext, hfactual, ?_, ?_, ?_, ?_⟩
    · rw [hids]
      exact List.filter_sublist
    · intro id hmem
      rw [hids] at hmem
      exact retrieved_iff.mp (List.mem_filter.mp hmem).2
    · intro h
      rw [h] at hnew
      rcases hnew with hnew | hnew <;> cases hnew
    · have hone : 1 ≤ supportRank c.supportStatus := by
        cases h : c.supportStatus with
        | unsupported => exact absurd h hstatus
        | partiallySupported => exact le_rfl
        | supported => exact Nat.le_succ 1
      rcases hnew with hnew | hnew
      · rw [hnew]
        exact Nat.zero_le _
      · rw [hnew]
        exact hone

theorem validateClaim_of_present {c : AnswerClaim}
    (h : ∀ id ∈ c.evidenceIds, retrieved evidence id = true) : validateClaim evidence c = c := by
  have hfilter : c.evidenceIds.filter (retrieved evidence) = c.evidenceIds :=
    List.filter_eq_self.mpr h
  unfold validateClaim
  by_cases hstatus : c.supportStatus = .unsupported
  · rw [if_pos hstatus]
  · have hids : c.evidenceIds ≠ [] := fun hnil => hstatus (c.evidenceForSupportStatus.mpr hnil)
    rw [if_neg hstatus]
    simp only [hfilter]
    rw [dif_neg hids, if_neg (lt_irrefl _)]

theorem validateClaim_idem (c : AnswerClaim) :
    validateClaim evidence (validateClaim evidence c) = validateClaim evidence c :=
  validateClaim_of_present fun id hmem =>
    retrieved_iff.mpr ((validateClaim_checked c).present id hmem)

theorem validateCitations_eq (r : QueryResponse) :
    validateCitations evidence r = grouped Citation.claimId (r.claims.map AnswerClaim.claimId)
      (r.citations.filter fun cit => retrieved evidence cit.evidenceId) := by
  unfold validateCitations grouped withKey
  rw [List.flatMap_map]
  simp only [List.filter_filter]

theorem validate_map_claimId (r : QueryResponse) :
    (validate r evidence).claims.map AnswerClaim.claimId = r.claims.map AnswerClaim.claimId := by
  have hclaims : (validate r evidence).claims = r.claims.map (validateClaim evidence) := rfl
  rw [hclaims, List.map_map]
  exact List.map_congr_left fun c _ => (validateClaim_checked c).claimId

theorem mem_validateCitations {r : QueryResponse} {cit : Citation} :
    cit ∈ validateCitations evidence r ↔ cit ∈ r.citations ∧
      cit.claimId ∈ r.claims.map AnswerClaim.claimId ∧
      ∃ ev ∈ evidence, ev.evidenceId = cit.evidenceId := by
  rw [validateCitations_eq, mem_grouped, List.mem_filter, retrieved_iff, and_assoc]
  exact and_congr_right fun _ => and_comm

theorem validateCitations_idem {r : QueryResponse} (hids : (r.claims.map AnswerClaim.claimId).Nodup) :
    validateCitations evidence (validate r evidence) = validateCitations evidence r := by
  have hkept : (validateCitations evidence r).filter (fun cit => retrieved evidence cit.evidenceId) =
      validateCitations evidence r := by
    rw [List.filter_eq_self]
    intro cit hcit
    exact retrieved_iff.mpr (mem_validateCitations.mp hcit).2.2
  rw [validateCitations_eq, validate_map_claimId]
  change grouped _ _ ((validateCitations evidence r).filter _) = _
  rw [hkept, validateCitations_eq]
  exact grouped_grouped hids

theorem validateCitations_of_keys {r : QueryResponse}
    (hids : (r.claims.map AnswerClaim.claimId).Nodup)
    (hkeys : r.citations.map citationKey = r.claims.flatMap listedKeys)
    (hlisted : ∀ c ∈ r.claims, ∀ id ∈ c.evidenceIds, ∃ ev ∈ evidence, ev.evidenceId = id) :
    validateCitations evidence r = r.citations := by
  have hpresent : r.citations.filter (fun cit => retrieved evidence cit.evidenceId) = r.citations := by
    rw [List.filter_eq_self]
    intro cit hcit
    have hmem : citationKey cit ∈ r.claims.flatMap listedKeys := hkeys ▸ List.mem_map_of_mem hcit
    obtain ⟨c, hc, hkey⟩ := List.mem_flatMap.mp hmem
    obtain ⟨id, hid, heq⟩ := List.mem_map.mp hkey
    have hcite : id = cit.evidenceId := congrArg Prod.snd heq
    exact retrieved_iff.mpr (hcite ▸ hlisted c hc id hid)
  have hruns : r.citations.map Citation.claimId =
      r.claims.flatMap fun c => List.replicate c.evidenceIds.length c.claimId := by
    have hfst := congrArg (List.map Prod.fst) hkeys
    rw [List.map_map, List.map_flatMap] at hfst
    refine hfst.trans (List.flatMap_congr fun c _ => ?_)
    unfold listedKeys
    rw [List.map_map]
    exact List.map_const'
  rw [validateCitations_eq, hpresent]
  exact grouped_of_runs hids hruns

structure Checked (evidence : List Evidence) (r out : QueryResponse) : Prop where
  claims : List.Forall₂ (ClaimChecked evidence) r.claims out.claims
  citations : ∀ cit ∈ out.citations, cit ∈ r.citations ∧
    (∃ c ∈ r.claims, cit.claimId = c.claimId) ∧ ∃ ev ∈ evidence, ev.evidenceId = cit.evidenceId

theorem validate_checked (r : QueryResponse) (evidence : List Evidence) :
    Checked evidence r (validate r evidence) := by
  refine ⟨?_, ?_⟩
  · change List.Forall₂ _ r.claims (r.claims.map (validateClaim evidence))
    rw [List.forall₂_map_right_iff, List.forall₂_same]
    exact fun c _ => validateClaim_checked c
  · intro cit hcit
    obtain ⟨hmem, hid, hpresent⟩ := mem_validateCitations.mp hcit
    obtain ⟨c, hc, heq⟩ := List.mem_map.mp hid
    exact ⟨hmem, ⟨c, hc, heq.symm⟩, hpresent⟩

def Unchanged (r out : QueryResponse) : Prop := out.claims = r.claims ∧ out.citations = r.citations

theorem validate_idem {r : QueryResponse} (hids : (r.claims.map AnswerClaim.claimId).Nodup) :
    Unchanged (validate r evidence) (validate (validate r evidence) evidence) := by
  refine ⟨?_, validateCitations_idem hids⟩
  change (r.claims.map _).map _ = r.claims.map _
  rw [List.map_map]
  exact List.map_congr_left fun c _ => validateClaim_idem c

theorem buildResponse_parts {uuid4 : UuidSource} {output : ResponseOutput} {r : QueryResponse}
    (h : buildResponse uuid4 output evidence = some r) :
    r.claims = [] ∧ r.citations = [] ∨
      r.claims = (buildClaims evidence uuid4 output.claims).claims ∧
        r.citations = (buildClaims evidence uuid4 output.claims).citations := by
  unfold buildResponse at h
  simp only at h
  split at h
  · split at h
    · obtain ⟨-, -, hclaims, hcitations⟩ := QueryResponse.make?_some h
      exact Or.inl ⟨hclaims, hcitations⟩
    · obtain ⟨-, -, hclaims, hcitations⟩ := QueryResponse.make?_some h
      exact Or.inr ⟨hclaims, hcitations⟩
  · obtain ⟨-, -, hclaims, hcitations⟩ := QueryResponse.make?_some h
    exact Or.inr ⟨hclaims, hcitations⟩

theorem validate_built {uuid4 : UuidSource} {output : ResponseOutput} {r : QueryResponse}
    (hfresh : uuid4.FreshUpTo (buildClaims evidence uuid4 output.claims).draws)
    (h : buildResponse uuid4 output evidence = some r) : Unchanged r (validate r evidence) := by
  rcases buildResponse_parts h with ⟨hclaims, hcitations⟩ | ⟨hclaims, hcitations⟩
  · refine ⟨?_, ?_⟩
    · change r.claims.map _ = r.claims
      rw [hclaims, List.map_nil]
    · change validateCitations evidence r = r.citations
      rw [validateCitations, hclaims, hcitations, List.flatMap_nil]
  · have hinv : BuildInv evidence uuid4 (buildClaims evidence uuid4 output.claims) :=
      buildClaims_inv output.claims
    have hlisted := hinv.listed
    have hkeys := hinv.keys
    rw [← hclaims] at hlisted hkeys
    rw [← hcitations] at hkeys
    refine ⟨?_, validateCitations_of_keys ?_ hkeys hlisted⟩
    · change r.claims.map _ = r.claims
      refine (List.map_congr_left fun c hc => ?_).trans (List.map_id _)
      exact validateClaim_of_present fun id hid => retrieved_iff.mpr (hlisted c hc id hid)
    · rw [hclaims]
      exact hinv.claimIds_nodup hfresh

/-- The validator is sound and stable. -/
theorem validate_sound (r : QueryResponse) (evidence : List Evidence) :
    ∃ out, validate? r evidence = some out ∧ Checked evidence r out ∧
      ((r.claims.map AnswerClaim.claimId).Nodup →
        ∃ again, validate? out evidence = some again ∧ Unchanged out again) ∧
      ∀ (uuid4 : UuidSource) output,
        uuid4.FreshUpTo (buildClaims evidence uuid4 output.claims).draws →
          buildResponse uuid4 output evidence = some r → Unchanged r out := by
  refine ⟨validate r evidence, validate?_eq r evidence, validate_checked r evidence, ?_, ?_⟩
  · intro hids
    exact ⟨_, validate?_eq _ evidence, validate_idem hids⟩
  · intro uuid4 output hfresh h
    exact validate_built hfresh h

end GroundGraph.Answering

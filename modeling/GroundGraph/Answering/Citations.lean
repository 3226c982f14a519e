import GroundGraph.Answering.Generator

/-! A response that is answered is cited: its claims, the evidence they list and
its citations belong together.
-/

set_option autoImplicit false

namespace GroundGraph.Answering

open GroundGraph.Retrieval

variable {evidence : List Evidence} {uuid4 : UuidSource}

theorem evidenceMap_some {cid : List Char} {ev : Evidence} (h : evidenceMap evidence cid = some ev) :
    ev ∈ evidence ∧ strUuid ev.evidenceId = cid :=
  ⟨List.mem_reverse.mp (List.mem_of_find?_eq_some h), by simpa using List.find?_some h⟩

theorem evidenceMap_of_mem (hids : (evidence.map Evidence.evidenceId).Nodup) {ev : Evidence}
    (hev : ev ∈ evidence) : evidenceMap evidence (strUuid ev.evidenceId) = some ev := by
  cases h : evidenceMap evidence (strUuid ev.evidenceId) with
  | none =>
    have hnone := List.find?_eq_none.mp h ev (List.mem_reverse.mpr hev)
    simp at hnone
  | some x =>
    obtain ⟨hx, hid⟩ := evidenceMap_some h
    rw [List.inj_on_of_nodup_map hids hx hev (strUuid_injective hid)]

theorem mem_mappedIds {output : ClaimOutput} {id : UUID} (h : id ∈ mappedIds evidence output) :
    ∃ ev ∈ evidence, ev.evidenceId = id := by
  obtain ⟨cid, _, hmap⟩ := List.mem_filterMap.mp h
  obtain ⟨ev, hev, rfl⟩ := Option.map_eq_some_iff.mp hmap
  exact ⟨ev, (evidenceMap_some hev).1, rfl⟩

/-- The lookup `evidence_map[str(evidence_id)]` never misses. -/
theorem evidenceMap_isSome {id : UUID} (h : ∃ ev ∈ evidence, ev.evidenceId = id) :
    ∃ ev, evidenceMap evidence (strUuid id) = some ev := by
  obtain ⟨ev, hev, rfl⟩ := h
  cases hmap : evidenceMap evidence (strUuid ev.evidenceId) with
  | none =>
    have hnone := List.find?_eq_none.mp hmap ev (List.mem_reverse.mpr hev)
    simp at hnone
  | some x => exact ⟨x, rfl⟩

def citationKey (c : Citation) : UUID × UUID := (c.claimId, c.evidenceId)

def listedKeys (c : AnswerClaim) : List (UUID × UUID) :=
  c.evidenceIds.map fun id => (c.claimId, id)

theorem buildCitations_keys (claimId : UUID) (ids : List UUID)
    (hids : ∀ id ∈ ids, ∃ ev ∈ evidence, ev.evidenceId = id) (draws : Nat) :
    (buildCitations evidence uuid4 claimId draws ids).map citationKey =
      ids.map fun id => (claimId, id) := by
  induction ids generalizing draws with
  | nil => rfl
  | cons id ids ih =>
    obtain ⟨ev, hev⟩ := evidenceMap_isSome (hids id List.mem_cons_self)
    have hrest := ih (fun j hj => hids j (List.mem_cons_of_mem _ hj)) (draws + 1)
    simp [buildCitations, hev, hrest, citationKey]

theorem buildCitations_principals (claimId : UUID) (ids : List UUID) (draws : Nat) :
    ∀ c ∈ buildCitations evidence uuid4 claimId draws ids,
      ∃ ev, evidenceMap evidence (strUuid c.evidenceId) = some ev ∧
        c.allowedPrincipals = ev.allowedPrincipals := by
  induction ids generalizing draws with
  | nil => simp [buildCitations]
  | cons id ids ih =>
    intro c hc
    cases hev : evidenceMap evidence (strUuid id) with
    | none =>
      simp only [buildCitations, hev] at hc
      exact ih draws c hc
    | some ev =>
      simp only [buildCitations, hev, List.mem_cons] at hc
      rcases hc with rfl | hc
      · exact ⟨ev, hev, rfl⟩
      · exact ih (draws + 1) c hc

/-- What the loop keeps true. The claim ids handed out so far are draws with
smaller numbers than the one that is waiting. -/
structure BuildInv (evidence : List Evidence) (uuid4 : UuidSource) (s : BuildState) : Prop where
  claimIds : ∃ (current : Nat) (taken : List Nat), s.claimId = uuid4 current ∧ current < s.draws ∧
    taken.Nodup ∧ (∀ i ∈ taken, i < current) ∧ s.claims.map AnswerClaim.claimId = taken.map uuid4
  listed : ∀ c ∈ s.claims, ∀ id ∈ c.evidenceIds, ∃ ev ∈ evidence, ev.evidenceId = id
  keys : s.citations.map citationKey = s.claims.flatMap listedKeys
  principals : ∀ c ∈ s.citations, ∃ ev, evidenceMap evidence (strUuid c.evidenceId) = some ev ∧
    c.allowedPrincipals = ev.allowedPrincipals

theorem buildClaim_inv {s : BuildState} (hs : BuildInv evidence uuid4 s) (output : ClaimOutput) :
    BuildInv evidence uuid4 (buildClaim evidence uuid4 s output) := by
  obtain ⟨current, taken, hcur, hlt, hnodup, hsmall, htaken⟩ := hs.claimIds
  cases hmake : AnswerClaim.make? s.claimId output.text output.factual
    (mappedIds evidence output) (groundedStatus evidence output) with
  | none =>
    simp only [buildClaim, hmake]
    refine ⟨⟨s.draws, taken, rfl, by simp, hnodup, ?_, htaken⟩, hs.listed, hs.keys, hs.principals⟩
    intro i hi
    exact (hsmall i hi).trans hlt
  | some claim =>
    obtain ⟨hid, _, _, hev, _⟩ := AnswerClaim.make?_some_iff.mp hmake
    have hreal : ∀ id ∈ mappedIds evidence output, ∃ ev ∈ evidence, ev.evidenceId = id :=
      fun id h => mem_mappedIds h
    simp only [buildClaim, hmake]
    refine ⟨⟨_, taken ++ [current], rfl, by simp, ?_, ?_, ?_⟩, ?_, ?_, ?_⟩
    · refine List.nodup_append.mpr ⟨hnodup, by simp, ?_⟩
      intro i hi j hj hij
      obtain rfl : j = current := by simpa using hj
      have := hsmall i hi
      omega
    · intro i hi
      rcases List.mem_append.mp hi with hi | hi
      · have := hsmall i hi
        omega
      · obtain rfl : i = current := by simpa using hi
        omega
    · simp [htaken, hid, hcur]
    · intro c hc id hmem
      rcases List.mem_append.mp hc with hc | hc
      · exact hs.listed c hc id hmem
      · obtain rfl : c = claim := by simpa using hc
        exact hreal id (hev ▸ hmem)
    · rw [List.map_append, hs.keys, buildCitations_keys s.claimId _ hreal, List.flatMap_append]
      simp [listedKeys, hid, hev]
    · intro c hc
      rcases List.mem_append.mp hc with hc | hc
      · exact hs.principals c hc
      · exact buildCitations_principals _ _ _ c hc

theorem buildClaims_inv (outputs : List ClaimOutput) :
    BuildInv evidence uuid4 (buildClaims evidence uuid4 outputs) := by
  have hfold : ∀ (outputs : List ClaimOutput) (s : BuildState), BuildInv evidence uuid4 s →
      BuildInv evidence uuid4 (outputs.foldl (buildClaim evidence uuid4) s) := by
    intro outputs
    induction outputs with
    | nil => exact fun _ hs => hs
    | cons o os ih => exact fun s hs => ih _ (buildClaim_inv hs o)
  apply hfold
  exact ⟨⟨0, [], rfl, by simp, by simp, by simp, rfl⟩, by simp, rfl, by simp⟩

theorem BuildInv.claimIds_nodup {s : BuildState} (hs : BuildInv evidence uuid4 s)
    (hfresh : uuid4.FreshUpTo s.draws) : (s.claims.map AnswerClaim.claimId).Nodup := by
  obtain ⟨current, taken, _, hlt, hnodup, hsmall, htaken⟩ := hs.claimIds
  rw [htaken]
  refine hnodup.map_on ?_
  intro i hi j hj hij
  exact hfresh.inj ((hsmall i hi).trans hlt) ((hsmall j hj).trans hlt) hij

structure Cited (evidence : List Evidence) (r : QueryResponse) : Prop where
  supported : ∃ c ∈ r.claims, c.supportStatus = .supported ∨ c.supportStatus = .partiallySupported
  claimIds_nodup : (r.claims.map AnswerClaim.claimId).Nodup
  listed : ∀ c ∈ r.claims, ∀ id ∈ c.evidenceIds, ∃ ev ∈ evidence, ev.evidenceId = id
  keys : r.citations.map citationKey = r.claims.flatMap listedKeys
  principals : ∀ c ∈ r.citations, ∀ ev ∈ evidence, ev.evidenceId = c.evidenceId →
    c.allowedPrincipals = ev.allowedPrincipals

theorem buildResponse_answered {output : ResponseOutput} {r : QueryResponse}
    (h : buildResponse uuid4 output evidence = some r) (hans : r.status = .answered) :
    r.claims = (buildClaims evidence uuid4 output.claims).claims ∧
      r.citations = (buildClaims evidence uuid4 output.claims).citations ∧
      PyText.strip output.answer ≠ [] ∧
      0 < (buildClaims evidence uuid4 output.claims).claims.countP isSupported := by
  unfold buildResponse at h
  simp only at h
  split at h
  · rename_i hanswer
    split at h
    · obtain ⟨_, hstatus, _⟩ := QueryResponse.make?_some h
      rw [hstatus] at hans
      cases hans
    · rename_i hsupported
      obtain ⟨_, _, hclaims, hcitations⟩ := QueryResponse.make?_some h
      exact ⟨hclaims, hcitations, hanswer, Nat.pos_of_ne_zero hsupported⟩
  · obtain ⟨_, hstatus, _⟩ := QueryResponse.make?_some h
    rw [hstatus] at hans
    cases hans

theorem answered_implies_cited {output : ResponseOutput} {r : QueryResponse}
    (hids : (evidence.map Evidence.evidenceId).Nodup)
    (hfresh : uuid4.FreshUpTo (buildClaims evidence uuid4 output.claims).draws)
    (h : buildResponse uuid4 output evidence = some r) (hans : r.status = .answered) :
    Cited evidence r := by
  obtain ⟨hclaims, hcitations, _, hpos⟩ := buildResponse_answered h hans
  have hinv : BuildInv evidence uuid4 (buildClaims evidence uuid4 output.claims) :=
    buildClaims_inv output.claims
  refine ⟨?_, ?_, ?_, ?_, ?_⟩
  · obtain ⟨c, hc, hsupported⟩ := List.countP_pos_iff.mp hpos
    refine ⟨c, hclaims ▸ hc, ?_⟩
    cases hstatus : c.supportStatus with
    | supported => exact Or.inl rfl
    | partiallySupported => exact Or.inr rfl
    | unsupported => simp [isSupported, hstatus] at hsupported
  · rw [hclaims]
    exact hinv.claimIds_nodup hfresh
  · rw [hclaims]
    exact hinv.listed
  · rw [hclaims, hcitations]
    exact hinv.keys
  · rw [hcitations]
    intro c hc ev hev hid
    obtain ⟨x, hx, hprincipals⟩ := hinv.principals c hc
    rw [← hid, evidenceMap_of_mem hids hev] at hx
    rw [hprincipals, Option.some.inj hx]

def sampleEvidence (id : UUID) (principal : String) : Evidence :=
  { evidenceId := id, sourceId := id, content := [], retrievalMethod := .vector
    allowedPrincipals := [principal], temporalBounds := absent_bounds }

/-- A supported claim that lists one evidence twice, an invented id, and a claim
that loses its support. -/
def sampleOutput : ResponseOutput :=
  ⟨"Yes.".toList,
    [⟨"a".toList, true, "supported".toList, [strUuid 7, "invented".toList, strUuid 7]⟩,
     ⟨"b".toList, false, "supported".toList, []⟩]⟩

theorem answered_implies_cited_sample :
    ∃ r, buildResponse (fun n => BitVec.ofNat 128 (n + 50)) sampleOutput
        [sampleEvidence 7 "alice", sampleEvidence 8 "bob"] = some r ∧
      r.citations.map citationKey = [(50, 7), (50, 7)] ∧
      Cited [sampleEvidence 7 "alice", sampleEvidence 8 "bob"] r := by
  have hsome : (buildResponse (fun n => BitVec.ofNat 128 (n + 50)) sampleOutput
      [sampleEvidence 7 "alice", sampleEvidence 8 "bob"]).isSome := by decide
  obtain ⟨r, hr⟩ := Option.isSome_iff_exists.mp hsome
  have hstatus : (buildResponse (fun n => BitVec.ofNat 128 (n + 50)) sampleOutput
      [sampleEvidence 7 "alice", sampleEvidence 8 "bob"]).map
        (fun r => (r.status, r.citations.map citationKey)) =
      some (.answered, [(50, 7), (50, 7)]) := by decide
  rw [hr, Option.map_some, Option.some.injEq, Prod.mk.injEq] at hstatus
  exact ⟨r, hr, hstatus.2, answered_implies_cited (by decide) (by decide) hr hstatus.1⟩

end GroundGraph.Answering

import GroundGraph.Neo4j.Projection
import GroundGraph.Neo4j.UnitOfWork

/-! The graph of domain objects is what the stored nodes show: each write query changes both
alike, and a unit of work around `update_fact_status` does what the transaction
`Neo4j.updateFactStatus` says.
-/

set_option autoImplicit false

namespace GroundGraph.Neo4j.Nodes

open GroundGraph.Knowledge Transaction

structure Shows (co : Conversions) (s : NodeStore) (g : Graph) : Prop where
  fact : ∀ id, (s.facts.get? (uuidString id)).map (dictToFact co) = (g.facts.get? id).map some
  entity : ∀ id, s.hasEntity id = g.hasEntity id
  subjectOf : s.subjectOf = g.subjectOf
  object : s.object = g.object
  supersededBy : s.supersededBy = g.supersededBy

variable {co : Conversions} {s : NodeStore} {g : Graph}

theorem Shows.hasFact (h : Shows co s g) (id : UUID) :
    s.hasFact id = (g.facts.get? id).isSome := by
  have hfact := congrArg Option.isSome (h.fact id)
  simpa [NodeStore.hasFact] using hfact

theorem Shows.node (h : Shows co s g) {id : UUID} {f : KnowledgeFact}
    (hf : g.facts.get? id = some f) :
    ∃ n, s.facts.get? (uuidString id) = some n ∧ dictToFact co n = some f := by
  have hfact := h.fact id
  rw [hf] at hfact
  exact Option.map_eq_some_iff.mp hfact

theorem Shows.mergeFact (hco : ReadsUuids co) (h : Shows co s g) (f : KnowledgeFact) :
    Shows co (mergeFact f s) ((Neo4j.createFact g f).apply g) where
  fact id := by
    have hkey : uuidString id = (factNode f).factId ↔ id = f.factId :=
      ⟨uuidString_injective, fun hid => congrArg uuidString hid⟩
    simp only [Nodes.mergeFact, Neo4j.createFact, GraphWrite.apply, KeyedTable.get?_upsert, hkey]
    by_cases hid : id = f.factId
    · simp [hid, dictToFact_factNode hco]
    · simp only [hid, if_false, h.fact]
  entity id := h.entity id
  subjectOf := by
    simp [Nodes.mergeFact, Neo4j.createFact, GraphWrite.apply, h.entity, h.subjectOf]
  object := by
    simp [Nodes.mergeFact, Neo4j.createFact, GraphWrite.apply, h.entity, h.object]
  supersededBy := h.supersededBy

theorem Shows.modifyAt (h : Shows co s g) {factId : UUID} {status : String}
    {f updated : KnowledgeFact} {a : FactStatus} (hf : g.facts.get? factId = some f)
    (ha : FactStatus.ofText? status = some a) (hupdated : f.withStatus? a = some updated)
    (id : UUID) :
    ((s.facts.modifyAt (uuidString factId) (FactNode.withStatus status)
      (FactNode.factId_withStatus status)).get? (uuidString id)).map (dictToFact co) =
        ((g.facts.upsert updated).get? id).map some := by
  have hkey : updated.factId = factId := by
    rw [(KnowledgeFact.withStatus?_some hupdated).1]
    exact (g.facts.get?_some_iff.mp hf).2
  rw [KeyedTable.get?_modifyAt, KeyedTable.get?_upsert, hkey]
  by_cases hid : id = factId
  · obtain ⟨n, hn, hnf⟩ := h.node hf
    rw [hid, if_pos rfl, if_pos rfl, hn]
    simp [dictToFact_withStatus hnf, ha, hupdated]
  · have hne : uuidString id ≠ uuidString factId := fun he => hid (uuidString_injective he)
    rw [if_neg hid, if_neg hne]
    exact h.fact id

def NodeStore.marked (s : NodeStore) (factId : UUID) (status : String)
    (supersededBy : Option UUID) : NodeStore :=
  { s with
    facts := s.facts.modifyAt (uuidString factId) (FactNode.withStatus status)
      (FactNode.factId_withStatus status)
    supersededBy := supersededBy.elim s.supersededBy fun new =>
      mergeEdge s.supersededBy (factId, new) }

theorem setStatus_eq {factId : UUID} (hfact : s.hasFact factId = true) (status : String)
    (supersededBy : Option UUID) :
    setStatus factId status supersededBy s =
      if supersededBy.all s.hasFact then .ok (s.marked factId status supersededBy)
      else .error .missingNode := by
  have hmodified : ∀ new, NodeStore.hasFact { s with
      facts := s.facts.modifyAt (uuidString factId) (FactNode.withStatus status)
        (FactNode.factId_withStatus status) } new = s.hasFact new := by
    intro new
    simp only [NodeStore.hasFact, KeyedTable.get?_modifyAt]
    split <;> simp
  unfold setStatus
  rw [if_pos hfact]
  cases supersededBy with
  | none => rfl
  | some new =>
    simp only [hmodified, Option.all_some]
    rfl

theorem updateFactStatus_eq {factId : UUID} (hfact : s.hasFact factId = true) (status : String)
    (supersededBy : Option UUID) :
    updateFactStatus co factId status supersededBy noFaults s =
      if supersededBy.all s.hasFact then
        match ((s.marked factId status supersededBy).facts.get? (uuidString factId)).bind
            (dictToFact co) with
        | some f => .returned f (s.marked factId status supersededBy)
        | none => .raised .validation (s.marked factId status supersededBy)
      else .raised .missingNode s := by
  obtain ⟨n, hn⟩ := Option.isSome_iff_exists.mp hfact
  have hmarked : (s.marked factId status supersededBy).facts.get? (uuidString factId) =
      some (n.withStatus status) := by
    rw [NodeStore.marked, KeyedTable.get?_modifyAt, if_pos rfl, hn, Option.map_some]
  simp only [updateFactStatus, bind_apply, perform, noFaults, setStatus_eq hfact, hmarked,
    Option.bind_some]
  by_cases hall : supersededBy.all s.hasFact = true
  · simp only [hall, if_true, Except.map, getFact, query, perform, noFaults, hmarked]
    cases hread : dictToFact co (n.withStatus status) with
    | none => rfl
    | some f => rfl
  · simp only [hall, Except.map]
    rfl

theorem updateFactStatus_missing {factId : UUID} (hfact : s.hasFact factId = false)
    (status : String) (supersededBy : Option UUID) :
    updateFactStatus co factId status supersededBy noFaults s = .raised (.notFound factId) s := by
  have hget : s.facts.get? (uuidString factId) = none := by
    simpa [NodeStore.hasFact] using hfact
  simp [updateFactStatus, bind_apply, perform, noFaults, setStatus, hfact, Except.map, getFact,
    query, hget, raise]

theorem unitOfWork_update (factId : UUID) (status : String) (supersededBy : Option UUID) :
    unitOfWork co [(.updateFactStatus factId status supersededBy, noFaults)] noFaults s =
      match updateFactStatus co factId status supersededBy noFaults s with
      | .returned _ t => (t, .ok ())
      | .raised e _ => (s, .error e) := by
  simp only [unitOfWork, runCalls, UowCall.body, onPending, Uow.begin]
  cases updateFactStatus co factId status supersededBy noFaults s with
  | returned f t => rfl
  | raised e t => rfl

theorem Shows.bound (h : Shows co s g) (supersededBy : Option UUID) :
    supersededBy.all s.hasFact = supersededBy.all fun new => (g.facts.get? new).isSome := by
  cases supersededBy with
  | none => rfl
  | some new => exact h.hasFact new

/-- A unit of work around one update commits what the transaction on the graph commits, and
raises where that fails. -/
theorem Shows.unitOfWork_update (h : Shows co s g) (factId : UUID) (status : String)
    (supersededBy : Option UUID) :
    match Neo4j.updateFactStatus g factId status supersededBy with
    | some g' => ∃ t, unitOfWork co [(.updateFactStatus factId status supersededBy, noFaults)]
        noFaults s = (t, .ok ()) ∧ Shows co t g'
    | none => ∃ e, unitOfWork co [(.updateFactStatus factId status supersededBy, noFaults)]
        noFaults s = (s, .error e) := by
  rw [Nodes.unitOfWork_update]
  cases hf : g.facts.get? factId with
  | none =>
    have hfact : s.hasFact factId = false := by rw [h.hasFact, hf, Option.isSome_none]
    rw [updateFactStatus_missing hfact]
    simp [Neo4j.updateFactStatus, hf]
  | some f =>
    have hfact : s.hasFact factId = true := by rw [h.hasFact, hf, Option.isSome_some]
    obtain ⟨n, hn, hnf⟩ := h.node hf
    have hread : ((s.marked factId status supersededBy).facts.get? (uuidString factId)).bind
        (dictToFact co) = (FactStatus.ofText? status).bind f.withStatus? := by
      rw [NodeStore.marked, KeyedTable.get?_modifyAt, if_pos rfl, hn, Option.map_some,
        Option.bind_some, dictToFact_withStatus hnf]
    rw [updateFactStatus_eq hfact, hread, h.bound, Neo4j.updateFactStatus_eq hf]
    cases hupdated : (FactStatus.ofText? status).bind f.withStatus? with
    | none =>
      by_cases hall : supersededBy.all (fun new => (g.facts.get? new).isSome) = true
      · rw [if_pos hall]
        exact ⟨.validation, rfl⟩
      · rw [if_neg hall]
        exact ⟨.missingNode, rfl⟩
    | some updated =>
      obtain ⟨a, ha, hset⟩ := Option.bind_eq_some_iff.mp hupdated
      simp only [Option.bind_some]
      by_cases hall : supersededBy.all (fun new => (g.facts.get? new).isSome) = true
      · rw [if_pos hall, if_pos hall]
        refine ⟨_, rfl, h.modifyAt hf ha hset, h.entity, h.subjectOf, h.object, ?_⟩
        simp only [NodeStore.marked, h.supersededBy]
      · rw [if_neg hall, if_neg hall]
        exact ⟨.missingNode, rfl⟩

end GroundGraph.Neo4j.Nodes

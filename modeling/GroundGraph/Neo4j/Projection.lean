import GroundGraph.Knowledge.Payload
import GroundGraph.Library.LabelledSystem
import GroundGraph.Neo4j.Repository
import GroundGraph.Outbox.Repository

/-! Projecting outbox events into the graph: `OutboxGraphProjector.project_event`,
and the graph under any sequence of projections and status updates.
-/

set_option autoImplicit false

namespace GroundGraph.Neo4j

open GroundGraph.Knowledge
open GroundGraph.Outbox (OutboxEventType)

/-- The query that `project_event` runs, with what it matches in the graph. Events
of other types are logged and do nothing. -/
def projectEvent (co : Conversions) (g : Graph) (now : Instant) (eventType : OutboxEventType)
    (payload : JsonObject) : Except ProjectionError GraphWrite :=
  match eventType with
  | .entityMentioned => do
    let mention ← mentionOfPayload co payload
    pure (createMention g mention)
  | .entityResolved => do
    let entity ← entityOfPayload co payload
    pure (createEntity entity)
  | .factCandidate => do
    let fact ← factOfPayload co payload now
    pure (createFact g fact)
  | .documentParsed => pure .nothing
  | .chunksCreated => pure .nothing

inductive GraphAction where
  | project (eventType : OutboxEventType) (payload : JsonObject) (now : Instant)
  | updateFactStatus (factId : UUID) (status : String) (supersededBy : Option UUID)

/-- A whole transaction; one that raises is rolled back. -/
def graphStep (co : Conversions) (g : Graph) : GraphAction → Option Graph
  | .project eventType payload now =>
    match projectEvent co g now eventType payload with
    | .ok write => some (write.apply g)
    | .error _ => some g
  | .updateFactStatus factId status supersededBy =>
    some ((updateFactStatus g factId status supersededBy).getD g)

/-- `chunks` are the chunk nodes that other programs have put into the graph. -/
def graphSystem (co : Conversions) (chunks : List UUID) : LabelledSystem Graph GraphAction where
  start := .empty chunks
  step := graphStep co

theorem graphStep_total (co : Conversions) (g : Graph) (a : GraphAction) :
    ∃ t, graphStep co g a = some t := by
  cases a with
  | project eventType payload now =>
    simp only [graphStep]
    split
    · exact ⟨_, rfl⟩
    · exact ⟨_, rfl⟩
  | updateFactStatus factId status supersededBy => exact ⟨_, rfl⟩

/-- A projection that raises at a fact event has read no fact. -/
theorem projectEvent_fact_error {co : Conversions} {g : Graph} {now : Instant}
    {payload : JsonObject} {e : ProjectionError}
    (h : projectEvent co g now .factCandidate payload = .error e) (f : KnowledgeFact) :
    factOfPayload co payload now ≠ .ok f := by
  intro hf
  simp [projectEvent, hf, bind, Except.bind, pure, Except.pure] at h

theorem graphStep_project_cases {co : Conversions} {g g' : Graph} {eventType : OutboxEventType}
    {payload : JsonObject} {now : Instant}
    (h : graphStep co g (.project eventType payload now) = some g') :
    (∃ e, projectEvent co g now eventType payload = .error e ∧ g' = g) ∨
      ∃ write, projectEvent co g now eventType payload = .ok write ∧ g' = write.apply g := by
  simp only [graphStep] at h
  split at h
  · rename_i write hwrite
    exact Or.inr ⟨write, hwrite, (Option.some.inj h).symm⟩
  · rename_i e herror
    exact Or.inl ⟨e, herror, (Option.some.inj h).symm⟩

theorem graphStep_update_cases {co : Conversions} {g g' : Graph} {factId : UUID} {status : String}
    {supersededBy : Option UUID}
    (h : graphStep co g (.updateFactStatus factId status supersededBy) = some g') :
    (updateFactStatus g factId status supersededBy = none ∧ g' = g) ∨
      updateFactStatus g factId status supersededBy = some g' := by
  obtain rfl := Option.some.inj h
  cases updateFactStatus g factId status supersededBy with
  | none => exact Or.inl ⟨rfl, rfl⟩
  | some g' => exact Or.inr rfl

theorem updateFactStatus_eq {g : Graph} {factId : UUID} {fact : KnowledgeFact}
    (hfact : g.facts.get? factId = some fact) (status : String) (supersededBy : Option UUID) :
    updateFactStatus g factId status supersededBy =
      ((FactStatus.ofText? status).bind fact.withStatus?).bind fun updated =>
        if supersededBy.all fun new => (g.facts.get? new).isSome then
          some { g with
            facts := g.facts.upsert updated
            supersededBy := supersededBy.elim g.supersededBy fun new =>
              mergeEdge g.supersededBy (factId, new) }
        else none := by
  cases ha : FactStatus.ofText? status with
  | none => simp [updateFactStatus, hfact, ha]
  | some a =>
    cases hupdated : fact.withStatus? a with
    | none => simp [updateFactStatus, hfact, ha, hupdated]
    | some updated =>
      have hkey : updated.factId = factId :=
        (KnowledgeFact.withStatus?_some hupdated).1.trans (g.facts.get?_some_iff.mp hfact).2
      have hkept : ∀ new,
          ((g.facts.upsert updated).get? new).isSome = (g.facts.get? new).isSome := by
        intro new
        rw [KeyedTable.get?_upsert]
        split
        · rename_i hid
          rw [hid, hkey, hfact]
          rfl
        · rfl
      cases supersededBy with
      | none => simp [updateFactStatus, hfact, ha, hupdated]
      | some new => simp [updateFactStatus, hfact, ha, hupdated, hkept]

theorem updateFactStatus_some {g g' : Graph} {factId : UUID} {status : String}
    {supersededBy : Option UUID} (h : updateFactStatus g factId status supersededBy = some g') :
    ∃ fact a updated, g.facts.get? factId = some fact ∧ status = a.text ∧
      fact.withStatus? a = some updated ∧ g'.facts = g.facts.upsert updated ∧
      g'.entities = g.entities ∧ g'.subjectOf = g.subjectOf ∧ g'.object = g.object := by
  simp only [updateFactStatus, bind, Option.bind_eq_some_iff] at h
  obtain ⟨fact, hfact, a, ha, updated, hupdated, h⟩ := h
  refine ⟨fact, a, updated, hfact, FactStatus.text_of_ofText? ha, hupdated, ?_⟩
  cases supersededBy with
  | none =>
    obtain rfl := Option.some.inj h
    exact ⟨rfl, rfl, rfl, rfl⟩
  | some new =>
    simp only [Option.ite_none_right_eq_some] at h
    obtain rfl := Option.some.inj h.2
    exact ⟨rfl, rfl, rfl, rfl⟩

/-- Edges end in entity nodes. -/
structure EdgesBound (g : Graph) : Prop where
  subjectOf : ∀ edge ∈ g.subjectOf, g.hasEntity edge.1 = true
  object : ∀ edge ∈ g.object, g.hasEntity edge.2 = true

theorem hasEntity_upsert {g : Graph} {e : CanonicalEntity} {id : UUID} :
    ({ g with entities := g.entities.upsert e } : Graph).hasEntity id = true ↔
      id = e.entityId ∨ g.hasEntity id = true := by
  simp only [Graph.hasEntity, KeyedTable.get?_upsert]
  split <;> simp_all

theorem EdgesBound.createFact {g : Graph} (hg : EdgesBound g) (f : KnowledgeFact) :
    EdgesBound ((createFact g f).apply g) := by
  constructor
  · intro edge hedge
    simp only [Neo4j.createFact, GraphWrite.apply] at hedge
    split at hedge
    · rename_i hsubject
      rcases mem_mergeEdge.mp hedge with hedge | rfl
      · exact hg.subjectOf edge hedge
      · exact hsubject
    · exact hg.subjectOf edge hedge
  · intro edge hedge
    simp only [Neo4j.createFact, GraphWrite.apply] at hedge
    split at hedge
    · rename_i hboth
      rw [Bool.and_eq_true] at hboth
      rcases mem_mergeEdge.mp hedge with hedge | rfl
      · exact hg.object edge hedge
      · exact hboth.2
    · exact hg.object edge hedge

theorem EdgesBound.createEntity {g : Graph} (hg : EdgesBound g) (e : CanonicalEntity) :
    EdgesBound ((createEntity e).apply g) :=
  ⟨fun edge hedge => hasEntity_upsert.mpr (Or.inr (hg.subjectOf edge hedge)),
    fun edge hedge => hasEntity_upsert.mpr (Or.inr (hg.object edge hedge))⟩

theorem projectEvent_ok {co : Conversions} {g : Graph} {now : Instant} {eventType : OutboxEventType}
    {payload : JsonObject} {write : GraphWrite}
    (h : projectEvent co g now eventType payload = .ok write) :
    (write = .nothing ∧ eventType ≠ .entityResolved ∧ eventType ≠ .factCandidate) ∨
      (∃ m, write = createMention g m ∧ eventType = .entityMentioned) ∨
      (∃ e, write = createEntity e ∧ eventType = .entityResolved ∧
        entityOfPayload co payload = .ok e) ∨
      (∃ f, write = createFact g f ∧ eventType = .factCandidate ∧
        factOfPayload co payload now = .ok f) := by
  cases eventType with
  | documentParsed => exact Or.inl ⟨(Except.ok.inj h).symm, by simp, by simp⟩
  | chunksCreated => exact Or.inl ⟨(Except.ok.inj h).symm, by simp, by simp⟩
  | entityMentioned =>
    cases hm : mentionOfPayload co payload with
    | error e => simp [projectEvent, hm, bind, Except.bind] at h
    | ok m =>
      simp only [projectEvent, hm, bind, Except.bind] at h
      exact Or.inr (Or.inl ⟨m, (Except.ok.inj h).symm, rfl⟩)
  | entityResolved =>
    cases he : entityOfPayload co payload with
    | error e => simp [projectEvent, he, bind, Except.bind] at h
    | ok e =>
      simp only [projectEvent, he, bind, Except.bind] at h
      exact Or.inr (Or.inr (Or.inl ⟨e, (Except.ok.inj h).symm, rfl, rfl⟩))
  | factCandidate =>
    cases hf : factOfPayload co payload now with
    | error e => simp [projectEvent, hf, bind, Except.bind] at h
    | ok f =>
      simp only [projectEvent, hf, bind, Except.bind] at h
      exact Or.inr (Or.inr (Or.inr ⟨f, (Except.ok.inj h).symm, rfl, rfl⟩))

theorem EdgesBound.projectEvent {co : Conversions} {g : Graph} {now : Instant}
    {eventType : OutboxEventType} {payload : JsonObject} {write : GraphWrite} (hg : EdgesBound g)
    (h : projectEvent co g now eventType payload = .ok write) : EdgesBound (write.apply g) := by
  obtain ⟨rfl, _⟩ | ⟨m, rfl, _⟩ | ⟨e, rfl, _⟩ | ⟨f, rfl, _⟩ := projectEvent_ok h
  · exact hg
  · exact ⟨hg.subjectOf, hg.object⟩
  · exact hg.createEntity e
  · exact hg.createFact f

theorem graphStep_edgesBound {co : Conversions} (g : Graph) (a : GraphAction) (g' : Graph)
    (hg : EdgesBound g) (h : graphStep co g a = some g') : EdgesBound g' := by
  cases a with
  | project eventType payload now =>
    obtain ⟨e, -, rfl⟩ | ⟨write, hwrite, rfl⟩ := graphStep_project_cases h
    · exact hg
    · exact hg.projectEvent hwrite
  | updateFactStatus factId status supersededBy =>
    obtain ⟨-, rfl⟩ | hupdate := graphStep_update_cases h
    · exact hg
    · obtain ⟨_, _, _, _, _, _, _, hentities, hsubject, hobject⟩ := updateFactStatus_some hupdate
      refine ⟨fun edge hedge => ?_, fun edge hedge => ?_⟩
      · rw [hsubject] at hedge
        simpa only [Graph.hasEntity, hentities] using hg.subjectOf edge hedge
      · rw [hobject] at hedge
        simpa only [Graph.hasEntity, hentities] using hg.object edge hedge

theorem reachable_edgesBound {co : Conversions} {chunks : List UUID} {g : Graph}
    (h : (graphSystem co chunks).Reachable g) : EdgesBound g :=
  (graphSystem co chunks).reachable_invariant
    ⟨by simp [graphSystem, Graph.empty], by simp [graphSystem, Graph.empty]⟩
    graphStep_edgesBound h

end GroundGraph.Neo4j

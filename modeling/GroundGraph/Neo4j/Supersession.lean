import GroundGraph.Neo4j.Projection
import GroundGraph.Neo4j.UnitOfWork

/-! The constraint `superseded_has_superseder` of the ontology: the status of a fact and its
`SUPERSEDED_BY` edge are written apart, so each write has to agree with the other one.
-/

set_option autoImplicit false

namespace GroundGraph.Neo4j

open GroundGraph.Knowledge GroundGraph.Outbox

inductive FactAction where
  | graph (a : GraphAction)
  | createFact (f : KnowledgeFact)

def factStep (co : Conversions) (g : Graph) : FactAction → Option Graph
  | .graph a => graphStep co g a
  | .createFact f => some ((createFact g f).apply g)

/-- Projections, `create_fact` and `update_fact_status`, in any order. -/
def factSystem (co : Conversions) (chunks : List UUID) : LabelledSystem Graph FactAction where
  start := .empty chunks
  step := factStep co

def Graph.HasSuperseder (g : Graph) (factId : UUID) : Prop :=
  ∃ new, (factId, new) ∈ g.supersededBy

/-- A superseded fact has an edge to a fact that is there, and no other fact has an edge. -/
def Traceable (g : Graph) : Prop :=
  ∀ f ∈ g.facts.rows,
    (f.status = .superseded →
      ∃ new, (f.factId, new) ∈ g.supersededBy ∧ (g.facts.get? new).isSome = true) ∧
    (f.status ≠ .superseded → ∀ new, (f.factId, new) ∉ g.supersededBy)

/-- The update finds its fact and the superseding one, and the model accepts the status. -/
def Accepted (g : Graph) (factId : UUID) (status : String) (supersededBy : Option UUID) : Prop :=
  ∃ fact a, g.facts.get? factId = some fact ∧ FactStatus.ofText? status = some a ∧
    (a = .verified → fact.evidenceIds ≠ []) ∧
    (supersededBy.all fun new => (g.facts.get? new).isSome) = true

/-- A written fact is superseded exactly when it has an edge already, and an update that is
accepted sets `superseded` exactly when there is an edge or it draws one. -/
def Traced (co : Conversions) (g : Graph) : FactAction → Prop
  | .createFact f => f.status = .superseded ↔ g.HasSuperseder f.factId
  | .graph (.project .factCandidate payload now) =>
    ∀ f, factOfPayload co payload now = .ok f →
      (f.status = .superseded ↔ g.HasSuperseder f.factId)
  | .graph (.project _ _ _) => True
  | .graph (.updateFactStatus factId status supersededBy) =>
    Accepted g factId status supersededBy →
      (status = "superseded" ↔ supersededBy.isSome ∨ g.HasSuperseder factId)

/-- `SUPERSEDED_BY` edges join facts. -/
def SupersessionBound (g : Graph) : Prop :=
  ∀ e ∈ g.supersededBy, (g.facts.get? e.1).isSome = true ∧ (g.facts.get? e.2).isSome = true

variable {co : Conversions} {g g' : Graph}

theorem traceable_iff (hg : SupersessionBound g) :
    Traceable g ↔ ∀ f ∈ g.facts.rows, f.status = .superseded ↔ g.HasSuperseder f.factId := by
  constructor
  · intro h f hf
    constructor
    · intro hstatus
      obtain ⟨new, hedge, _⟩ := (h f hf).1 hstatus
      exact ⟨new, hedge⟩
    · rintro ⟨new, hedge⟩
      by_contra hstatus
      exact (h f hf).2 hstatus new hedge
  · intro h f hf
    constructor
    · intro hstatus
      obtain ⟨new, hedge⟩ := (h f hf).mp hstatus
      exact ⟨new, hedge, (hg _ hedge).2⟩
    · intro hstatus new hedge
      exact hstatus ((h f hf).mpr ⟨new, hedge⟩)

theorem superseded_upsert_iff {f : KnowledgeFact} (hfacts : g'.facts = g.facts.upsert f)
    (hedges : ∀ id, id ≠ f.factId → (g'.HasSuperseder id ↔ g.HasSuperseder id))
    (h : ∀ x ∈ g.facts.rows, x.status = .superseded ↔ g.HasSuperseder x.factId) :
    (∀ x ∈ g'.facts.rows, x.status = .superseded ↔ g'.HasSuperseder x.factId) ↔
      (f.status = .superseded ↔ g'.HasSuperseder f.factId) := by
  have hmem : f ∈ g'.facts.rows := by
    rw [KeyedTable.mem_rows_iff, hfacts, KeyedTable.get?_upsert, if_pos rfl]
  constructor
  · intro hall
    exact hall f hmem
  · intro hf x hx
    by_cases hid : x.factId = f.factId
    · obtain rfl := g'.facts.eq_of_mem hx hmem hid
      exact hf
    · have hold : x ∈ g.facts.rows := by
        rw [hfacts] at hx
        exact (KeyedTable.mem_upsert hx).resolve_right fun he => hid (by rw [he])
      rw [hedges _ hid]
      exact h x hold

theorem SupersessionBound.upsert (hg : SupersessionBound g) {f : KnowledgeFact}
    (hfacts : g'.facts = g.facts.upsert f)
    (hedges : ∀ e ∈ g'.supersededBy, e ∈ g.supersededBy ∨
      (g.facts.get? e.1).isSome = true ∧ (g.facts.get? e.2).isSome = true) :
    SupersessionBound g' := by
  have hkept : ∀ id, (g.facts.get? id).isSome = true → (g'.facts.get? id).isSome = true := by
    intro id hid
    rw [hfacts, KeyedTable.get?_upsert]
    split
    · rfl
    · exact hid
  intro e he
  obtain hold | ⟨h₁, h₂⟩ := hedges e he
  · exact ⟨hkept _ (hg e hold).1, hkept _ (hg e hold).2⟩
  · exact ⟨hkept _ h₁, hkept _ h₂⟩

theorem accepted_iff {factId : UUID} {status : String} {supersededBy : Option UUID} :
    Accepted g factId status supersededBy ↔
      ∃ g', updateFactStatus g factId status supersededBy = some g' := by
  constructor
  · rintro ⟨fact, a, hfact, ha, hevidence, hbound⟩
    rw [updateFactStatus_eq hfact, ha, Option.bind_some, KnowledgeFact.withStatus?,
      dif_pos hevidence, Option.bind_some, if_pos hbound]
    exact ⟨_, rfl⟩
  · rintro ⟨g', h⟩
    obtain ⟨fact, a, updated, hfact, rfl, hupdated, -⟩ := updateFactStatus_some h
    rw [updateFactStatus_eq hfact, FactStatus.ofText?_text, Option.bind_some, hupdated,
      Option.bind_some] at h
    refine ⟨fact, a, hfact, FactStatus.ofText?_text a, ?_, ?_⟩
    · unfold KnowledgeFact.withStatus? at hupdated
      split at hupdated
      · assumption
      · cases hupdated
    · by_contra hbound
      rw [if_neg hbound] at h
      cases h

theorem updateFactStatus_supersedes {factId : UUID} {status : String}
    {supersededBy : Option UUID}
    (h : updateFactStatus g factId status supersededBy = some g') :
    ∃ updated, updated.factId = factId ∧ updated.status.text = status ∧
      g'.facts = g.facts.upsert updated ∧
      g'.supersededBy = supersededBy.elim g.supersededBy fun new =>
        mergeEdge g.supersededBy (factId, new) := by
  obtain ⟨fact, a, updated, hfact, rfl, hupdated, -⟩ := updateFactStatus_some h
  rw [updateFactStatus_eq hfact, FactStatus.ofText?_text, Option.bind_some, hupdated,
    Option.bind_some] at h
  simp only [Option.ite_none_right_eq_some] at h
  obtain rfl := Option.some.inj h.2
  obtain ⟨hid, hstatus⟩ := KnowledgeFact.withStatus?_some hupdated
  exact ⟨updated, hid.trans (g.facts.get?_some_iff.mp hfact).2, congrArg _ hstatus, rfl, rfl⟩

theorem hasSuperseder_elim_iff {factId id : UUID} {supersededBy : Option UUID}
    (h : g'.supersededBy = supersededBy.elim g.supersededBy fun new =>
      mergeEdge g.supersededBy (factId, new)) :
    g'.HasSuperseder id ↔ (id = factId ∧ supersededBy.isSome) ∨ g.HasSuperseder id := by
  cases supersededBy with
  | none =>
    rw [Option.elim_none] at h
    simp [Graph.HasSuperseder, h]
  | some new =>
    rw [Option.elim_some] at h
    simp only [Graph.HasSuperseder, h, mem_mergeEdge, Prod.mk.injEq, exists_or, Option.isSome_some,
      and_true]
    constructor
    · rintro (hold | ⟨_, hid, _⟩)
      · exact Or.inr hold
      · exact Or.inl hid
    · rintro (hid | hold)
      · exact Or.inr ⟨new, hid, rfl⟩
      · exact Or.inl hold

theorem traced_project_iff {eventType : OutboxEventType} {payload : JsonObject} {now : Instant} :
    Traced co g (.graph (.project eventType payload now)) ↔
      (eventType = .factCandidate → ∀ f, factOfPayload co payload now = .ok f →
        (f.status = .superseded ↔ g.HasSuperseder f.factId)) := by
  cases eventType <;> simp [Traced]

/-- Everything a step can do: leave facts and edges alone, write a fact, or update one. -/
theorem factStep_cases {a : FactAction} (hstep : factStep co g a = some g') :
    (g'.facts = g.facts ∧ g'.supersededBy = g.supersededBy ∧ Traced co g a) ∨
      (∃ f, g' = (createFact g f).apply g ∧
        (Traced co g a ↔ (f.status = .superseded ↔ g.HasSuperseder f.factId))) ∨
      (∃ factId status supersededBy, updateFactStatus g factId status supersededBy = some g' ∧
        (Traced co g a ↔
          (status = "superseded" ↔ supersededBy.isSome ∨ g.HasSuperseder factId))) := by
  cases a with
  | createFact f =>
    obtain rfl := Option.some.inj hstep
    exact Or.inr (Or.inl ⟨f, rfl, Iff.rfl⟩)
  | graph a =>
    cases a with
    | updateFactStatus factId status supersededBy =>
      have hgraph : graphStep co g (.updateFactStatus factId status supersededBy) = some g' := hstep
      simp only [Traced, accepted_iff]
      obtain ⟨hupdate, rfl⟩ | hupdate := graphStep_update_cases hgraph
      · exact Or.inl ⟨rfl, rfl, by simp [hupdate]⟩
      · exact Or.inr (Or.inr ⟨factId, status, supersededBy, hupdate, by simp [hupdate]⟩)
    | project eventType payload now =>
      rw [traced_project_iff]
      have hgraph : graphStep co g (.project eventType payload now) = some g' := hstep
      obtain ⟨e, herror, rfl⟩ | ⟨write, hwrite, rfl⟩ := graphStep_project_cases hgraph
      · refine Or.inl ⟨rfl, rfl, ?_⟩
        rintro rfl f hf
        exact absurd hf (projectEvent_fact_error herror f)
      · obtain ⟨rfl, -, hother⟩ | ⟨m, rfl, rfl⟩ | ⟨e, rfl, rfl, -⟩ | ⟨f, rfl, rfl, hf⟩ :=
          projectEvent_ok hwrite
        · exact Or.inl ⟨rfl, rfl, fun hfact => absurd hfact hother⟩
        · exact Or.inl ⟨rfl, rfl, fun hfact => by cases hfact⟩
        · exact Or.inl ⟨rfl, rfl, fun hfact => by cases hfact⟩
        · exact Or.inr (Or.inl ⟨f, rfl, by simp [hf]⟩)

theorem SupersessionBound.update (hg : SupersessionBound g) {factId : UUID} {status : String}
    {supersededBy : Option UUID}
    (hupdate : updateFactStatus g factId status supersededBy = some g') : SupersessionBound g' := by
  obtain ⟨updated, -, -, hfacts, hedges⟩ := updateFactStatus_supersedes hupdate
  obtain ⟨fact, a, hfact, -, -, hbound⟩ := accepted_iff.mpr ⟨g', hupdate⟩
  refine hg.upsert hfacts fun e he => ?_
  cases supersededBy with
  | none =>
    rw [hedges] at he
    exact Or.inl he
  | some new =>
    rw [hedges, Option.elim_some, mem_mergeEdge] at he
    refine he.imp id ?_
    rintro rfl
    exact ⟨by rw [hfact, Option.isSome_some], by simpa using hbound⟩

theorem SupersessionBound.step {a : FactAction} (hg : SupersessionBound g)
    (hstep : factStep co g a = some g') : SupersessionBound g' := by
  obtain ⟨hfacts, hedges, -⟩ | ⟨f, rfl, -⟩ | ⟨_, _, _, hupdate, -⟩ := factStep_cases hstep
  · intro e he
    rw [hedges] at he
    rw [hfacts]
    exact hg e he
  · exact hg.upsert rfl fun _ he => Or.inl he
  · exact hg.update hupdate

theorem updated_superseded_iff
    (h : ∀ f ∈ g.facts.rows, f.status = .superseded ↔ g.HasSuperseder f.factId) {factId : UUID}
    {status : String} {supersededBy : Option UUID}
    (hupdate : updateFactStatus g factId status supersededBy = some g') :
    (∀ f ∈ g'.facts.rows, f.status = .superseded ↔ g'.HasSuperseder f.factId) ↔
      (status = "superseded" ↔ supersededBy.isSome ∨ g.HasSuperseder factId) := by
  obtain ⟨updated, hid, hstatus, hfacts, hedges⟩ := updateFactStatus_supersedes hupdate
  have htext : updated.status = .superseded ↔ status = "superseded" := by
    rw [← hstatus]
    constructor
    · intro h
      rw [h]
      rfl
    · intro h
      exact Option.some.inj ((FactStatus.ofText?_text _).symm.trans (congrArg _ h))
  rw [superseded_upsert_iff hfacts (fun id hne => ?_) h, hasSuperseder_elim_iff hedges, htext, hid]
  · simp
  · rw [hasSuperseder_elim_iff hedges]
    have hother : id ≠ factId := hid ▸ hne
    simp [hother]

/-- A step keeps the supersession traceable exactly when it is traced. -/
theorem factStep_traceable_iff {a : FactAction} (hg : SupersessionBound g) (h : Traceable g)
    (hstep : factStep co g a = some g') : Traceable g' ↔ Traced co g a := by
  have hold := (traceable_iff hg).mp h
  rw [traceable_iff (hg.step hstep)]
  obtain ⟨hfacts, hedges, htraced⟩ | ⟨f, rfl, htraced⟩ | ⟨_, _, _, hupdate, htraced⟩ :=
    factStep_cases hstep
  · simp only [hfacts, Graph.HasSuperseder, hedges]
    exact iff_of_true hold htraced
  · rw [htraced]
    exact superseded_upsert_iff rfl (fun _ _ => Iff.rfl) hold
  · rw [htraced]
    exact updated_superseded_iff hold hupdate

theorem factStep_total (co : Conversions) (g : Graph) (a : FactAction) :
    ∃ t, factStep co g a = some t := by
  cases a with
  | graph a => exact graphStep_total co g a
  | createFact f => exact ⟨_, rfl⟩

/-- Supersession stays traceable throughout a run exactly when every step is traced. -/
theorem traceable_throughout_iff (co : Conversions) (chunks : List UUID) (as : List FactAction) :
    (∀ g ∈ (factSystem co chunks).states (.empty chunks) as, Traceable g) ↔
      (factSystem co chunks).Along (Traced co) (.empty chunks) as := by
  exact (factSystem co chunks).holds_throughout_iff (fun _ _ _ hg => hg.step)
    (factStep_total co) (fun _ _ _ hg h => factStep_traceable_iff hg h) as
    (List.forall_mem_nil _) (List.forall_mem_nil _)

/-- Nothing asks for the superseding fact. -/
theorem not_traceable : ¬ ∀ g, (factSystem plainConversions []).Reachable g → Traceable g := by
  intro h
  let actions : List FactAction :=
    [.createFact Nodes.bareFact, .graph (.updateFactStatus Nodes.bareFact.factId "superseded" none)]
  have hrun : ∃ g, (factSystem plainConversions []).run (.empty []) actions = some g ∧
      ∃ f ∈ g.facts.rows, f.status = .superseded ∧ g.supersededBy = [] :=
    ⟨_, rfl, _, List.mem_singleton_self _, rfl, rfl⟩
  obtain ⟨g, hg, f, hf, hstatus, hedges⟩ := hrun
  obtain ⟨new, hedge, -⟩ := (h g ⟨actions, hg⟩ f hf).1 hstatus
  rw [hedges] at hedge
  cases hedge

end GroundGraph.Neo4j

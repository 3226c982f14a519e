import GroundGraph.Neo4j.Projection

/-! At-least-once delivery: when projecting an event a second time changes
nothing. Every property is overwritten by `SET`, so this is a question of what has
happened to the event's own node and to its endpoints in between.
-/

set_option autoImplicit false

namespace GroundGraph.Neo4j

open GroundGraph.Knowledge
open GroundGraph.Outbox (OutboxEventType)

inductive Projected where
  | entity (e : CanonicalEntity)
  | fact (f : KnowledgeFact)

def projectedValue (co : Conversions) (eventType : OutboxEventType) (payload : JsonObject)
    (now : Instant) : Option Projected :=
  match eventType with
  | .entityResolved => (entityOfPayload co payload).toOption.map .entity
  | .factCandidate => (factOfPayload co payload now).toOption.map .fact
  | _ => none

/-- Projecting the event once more, at any time, leaves the graph as it is. -/
def Harmless (co : Conversions) (eventType : OutboxEventType) (payload : JsonObject)
    (g : Graph) : Prop :=
  ∀ now write, projectEvent co g now eventType payload = .ok write → write.apply g = g

/-- The graph still shows what the event wrote, and every edge that it would draw. -/
def Settled (g : Graph) : Projected → Prop
  | .entity e => g.entities.get? e.entityId = some e
  | .fact f => g.facts.get? f.factId = some f ∧
      (g.hasEntity f.subjectId = true → (f.subjectId, f.factId) ∈ g.subjectOf ∧
        (g.hasEntity f.objectId = true → (f.factId, f.objectId) ∈ g.object))

/-- Only an observation time that the payload names is the same the second time. -/
def Dated (eventType : OutboxEventType) (payload : JsonObject) : Prop :=
  eventType = .factCandidate → carriesObservedAt payload = true

/-- What an action may do next to an event that has been projected: rewrite the
event's node only with the same values, set only the status it has, and not create
an endpoint that the event found missing. -/
def Neutral (co : Conversions) (v : Projected) (g : Graph) (a : GraphAction) : Prop :=
  match v, a with
  | .entity e, .project .entityResolved payload _ =>
    ∀ e', entityOfPayload co payload = .ok e' → e'.entityId = e.entityId → e' = e
  | .fact f, .project .entityResolved payload _ =>
    ∀ e', entityOfPayload co payload = .ok e' → g.hasEntity e'.entityId = false →
      e'.entityId ≠ f.subjectId ∧
        (e'.entityId = f.objectId → g.hasEntity f.subjectId = false)
  | .fact f, .project .factCandidate payload now =>
    ∀ f', factOfPayload co payload now = .ok f' → f'.factId = f.factId → f' = f
  | .fact f, .updateFactStatus factId status supersededBy =>
    (updateFactStatus g factId status supersededBy).isSome → factId = f.factId →
      status = f.status.text
  | _, _ => True

theorem apply_createEntity_eq_self_iff {g : Graph} {e : CanonicalEntity} :
    (createEntity e).apply g = g ↔ Settled g (.entity e) := by
  obtain ⟨entities, facts, mentions, chunks, subjectOf, object, supersededBy, mentionedIn⟩ := g
  simp only [createEntity, GraphWrite.apply, Settled, Graph.mk.injEq, and_true]
  exact ⟨entities.get?_of_upsert_eq, entities.upsert_of_get?⟩

theorem apply_createFact_eq_self_iff {g : Graph} {f : KnowledgeFact} :
    (createFact g f).apply g = g ↔ Settled g (.fact f) := by
  have hfacts : g.facts.upsert f = g.facts ↔ g.facts.get? f.factId = some f :=
    ⟨g.facts.get?_of_upsert_eq, g.facts.upsert_of_get?⟩
  have hedges : ∀ (edges : Edges) (edge : UUID × UUID) (b : Bool),
      (if b then mergeEdge edges edge else edges) = edges ↔ (b = true → edge ∈ edges) := by
    intro edges edge b
    cases b <;> simp [mergeEdge_eq_self_iff]
  have hgraph : (createFact g f).apply g = g ↔
      g.facts.upsert f = g.facts ∧
        (if g.hasEntity f.subjectId then mergeEdge g.subjectOf (f.subjectId, f.factId)
          else g.subjectOf) = g.subjectOf ∧
        (if g.hasEntity f.subjectId && g.hasEntity f.objectId then
          mergeEdge g.object (f.factId, f.objectId) else g.object) = g.object := by
    obtain ⟨entities, facts, mentions, chunks, subjectOf, object, supersededBy, mentionedIn⟩ := g
    simp only [createFact, GraphWrite.apply, Graph.mk.injEq, and_true, true_and]
  rw [hgraph, hfacts, hedges, hedges, Bool.and_eq_true]
  simp only [Settled]
  constructor
  · rintro ⟨hf, hs, ho⟩
    exact ⟨hf, fun hsubject => ⟨hs hsubject, fun hobject => ho ⟨hsubject, hobject⟩⟩⟩
  · rintro ⟨hf, hboth⟩
    exact ⟨hf, fun hsubject => (hboth hsubject).1, fun h => (hboth h.1).2 h.2⟩

/-- Redelivery is harmless exactly in the graphs where nothing is left to write. -/
theorem harmless_iff {co : Conversions} {eventType : OutboxEventType} {payload : JsonObject}
    {now : Instant} {v : Projected} (hv : projectedValue co eventType payload now = some v)
    (g : Graph) : Harmless co eventType payload g ↔ Dated eventType payload ∧ Settled g v := by
  cases eventType with
  | documentParsed => cases hv
  | chunksCreated => cases hv
  | entityMentioned => cases hv
  | entityResolved =>
    cases he : entityOfPayload co payload with
    | error e => simp [projectedValue, he, Except.toOption] at hv
    | ok e =>
      simp only [projectedValue, he, Except.toOption, Option.map_some, Option.some.injEq] at hv
      subst hv
      simp [Harmless, Dated, projectEvent, he, bind, Except.bind, pure, Except.pure,
        apply_createEntity_eq_self_iff]
  | factCandidate =>
    cases hf : factOfPayload co payload now with
    | error e => simp [projectedValue, hf, Except.toOption] at hv
    | ok f =>
      simp only [projectedValue, hf, Except.toOption, Option.map_some, Option.some.injEq] at hv
      subst hv
      have hagain := factOfPayload_again hf
      have hharmless : Harmless co .factCandidate payload g ↔
          ∀ now', Settled g (.fact (readAgain payload f now')) := by
        simp [Harmless, projectEvent, hagain, bind, Except.bind, pure, Except.pure,
          apply_createFact_eq_self_iff]
      rw [hharmless]
      cases hcarries : carriesObservedAt payload with
      | true => simp [Dated, hcarries, readAgain_of_carries hcarries]
      | false =>
        refine iff_of_false (fun hall => ?_) (fun h => ?_)
        · -- two readings at different times would have to be one node
          have hsame : readAgain payload f 0 = readAgain payload f 1 :=
            Option.some.inj ((hall 0).1.symm.trans (hall 1).1)
          have htime := congrArg KnowledgeFact.observedAt hsame
          rw [readAgain_observedAt hcarries, readAgain_observedAt hcarries] at htime
          exact absurd htime (by decide)
        · have hdated := h.1 rfl
          rw [hcarries] at hdated
          cases hdated

theorem settled_after_createEntity {g : Graph} (hg : EdgesBound g) {f : KnowledgeFact}
    (hs : Settled g (.fact f)) (e : CanonicalEntity) :
    Settled ((createEntity e).apply g) (.fact f) ↔
      (g.hasEntity e.entityId = false → e.entityId ≠ f.subjectId ∧
        (e.entityId = f.objectId → g.hasEntity f.subjectId = false)) := by
  have hentity : ∀ id, ((createEntity e).apply g).hasEntity id = true ↔
      id = e.entityId ∨ g.hasEntity id = true := fun id => hasEntity_upsert
  have hsubjects : ((createEntity e).apply g).subjectOf = g.subjectOf := rfl
  have hobjects : ((createEntity e).apply g).object = g.object := rfl
  have hnode : ((createEntity e).apply g).facts = g.facts := rfl
  simp only [Settled, hentity, hsubjects, hobjects, hnode] at hs ⊢
  obtain ⟨hfact, hedges⟩ := hs
  constructor
  · rintro ⟨_, hafter⟩ hmissing
    refine ⟨fun hsubject => ?_, fun hobject => ?_⟩
    · -- the edge would start at a node that is not there
      have hedge := (hafter (Or.inl hsubject.symm)).1
      have hbound := hg.subjectOf _ hedge
      rw [← hsubject] at hbound
      rw [hbound] at hmissing
      cases hmissing
    · rw [← Bool.not_eq_true]
      intro hsubject
      have hedge := (hafter (Or.inr hsubject)).2 (Or.inl hobject.symm)
      have hbound := hg.object _ hedge
      rw [← hobject] at hbound
      rw [hbound] at hmissing
      cases hmissing
  · intro hneutral
    refine ⟨hfact, fun hsubject => ?_⟩
    have hhas : g.hasEntity f.subjectId = true := by
      rcases hsubject with hid | hhas
      · by_contra hno
        rw [hid] at hno
        exact (hneutral (by simpa using hno)).1 hid.symm
      · exact hhas
    refine ⟨(hedges hhas).1, fun hobject => (hedges hhas).2 ?_⟩
    rcases hobject with hid | hobject
    · by_contra hno
      rw [hid] at hno
      have hnone := (hneutral (by simpa using hno)).2 hid.symm
      rw [hhas] at hnone
      cases hnone
    · exact hobject

theorem settled_after_createFact {g : Graph} {f : KnowledgeFact} (hs : Settled g (.fact f))
    (f' : KnowledgeFact) :
    Settled ((createFact g f').apply g) (.fact f) ↔ (f'.factId = f.factId → f' = f) := by
  by_cases hid : f'.factId = f.factId
  · constructor
    · intro h _
      have hnode := h.1
      simp only [createFact, GraphWrite.apply, KeyedTable.get?_upsert, hid, if_true,
        Option.some.injEq] at hnode
      exact hnode
    · intro h
      obtain rfl := h hid
      rw [apply_createFact_eq_self_iff.mpr hs]
      exact hs
  · refine iff_of_true ?_ (fun h => absurd h hid)
    obtain ⟨hfact, hedges⟩ := hs
    refine ⟨?_, fun hsubject => ⟨?_, fun hobject => ?_⟩⟩
    · simp only [createFact, GraphWrite.apply, KeyedTable.get?_upsert, if_neg (Ne.symm hid)]
      exact hfact
    · simp only [createFact, GraphWrite.apply]
      split
      · exact mem_mergeEdge.mpr (Or.inl (hedges hsubject).1)
      · exact (hedges hsubject).1
    · simp only [createFact, GraphWrite.apply]
      split
      · exact mem_mergeEdge.mpr (Or.inl ((hedges hsubject).2 hobject))
      · exact (hedges hsubject).2 hobject

theorem settled_after_updateFactStatus {g g' : Graph} {f : KnowledgeFact}
    (hs : Settled g (.fact f)) {factId : UUID} {status : String} {supersededBy : Option UUID}
    (h : updateFactStatus g factId status supersededBy = some g') :
    Settled g' (.fact f) ↔ (factId = f.factId → status = f.status.text) := by
  obtain ⟨fact, a, updated, hfact, rfl, hupdated, hfacts, hentities, hsubject, hobject⟩ :=
    updateFactStatus_some h
  have hkey : updated.factId = factId :=
    (KnowledgeFact.withStatus?_some hupdated).1.trans (g.facts.get?_some_iff.mp hfact).2
  obtain ⟨hnode, hedges⟩ := hs
  have hrest : Settled g' (.fact f) ↔ g'.facts.get? f.factId = some f := by
    simp only [Settled, Graph.hasEntity, hentities, hsubject, hobject]
    exact ⟨fun h => h.1, fun h => ⟨h, hedges⟩⟩
  rw [hrest, hfacts, KeyedTable.get?_upsert, hkey]
  by_cases hid : factId = f.factId
  · subst hid
    obtain rfl : f = fact := Option.some.inj (hnode.symm.trans hfact)
    rw [if_pos rfl, Option.some.injEq, KnowledgeFact.withStatus?_eq_self_iff hupdated]
    constructor
    · rintro rfl _
      rfl
    · intro htext
      have hof := congrArg FactStatus.ofText? (htext rfl)
      rw [FactStatus.ofText?_text, FactStatus.ofText?_text] at hof
      exact Option.some.inj hof
  · rw [if_neg (Ne.symm hid)]
    exact iff_of_true hnode (fun h => absurd h hid)

theorem settled_after_entity {g : Graph} {e : CanonicalEntity} (hs : Settled g (.entity e))
    (e' : CanonicalEntity) :
    Settled ((createEntity e').apply g) (.entity e) ↔ (e'.entityId = e.entityId → e' = e) := by
  have hget : ((createEntity e').apply g).entities.get? e.entityId =
      if e.entityId = e'.entityId then some e' else g.entities.get? e.entityId :=
    g.entities.get?_upsert e' e.entityId
  simp only [Settled] at hs ⊢
  rw [hget]
  by_cases hid : e'.entityId = e.entityId
  · rw [if_pos hid.symm, Option.some.injEq]
    exact ⟨fun h _ => h, fun h => h hid⟩
  · rw [if_neg (Ne.symm hid)]
    exact iff_of_true hs (fun h => absurd h hid)

/-- An action keeps an event settled exactly if it is neutral. -/
theorem graphStep_settled_iff {co : Conversions} {g g' : Graph} {a : GraphAction} {v : Projected}
    (hg : EdgesBound g) (hs : Settled g v) (h : graphStep co g a = some g') :
    Settled g' v ↔ Neutral co v g a := by
  cases a with
  | project eventType payload now =>
    obtain ⟨error, herror, rfl⟩ | ⟨write, hwrite, rfl⟩ := graphStep_project_cases h
    · refine iff_of_true hs ?_
      cases v <;> cases eventType <;> simp only [Neutral]
      all_goals
        intro x hx
        simp [projectEvent, hx, bind, Except.bind, pure, Except.pure] at herror
    · obtain ⟨rfl, hne, hnf⟩ | ⟨m, rfl, rfl⟩ | ⟨e', rfl, rfl, he'⟩ | ⟨f', rfl, rfl, hf'⟩ :=
        projectEvent_ok hwrite
      · refine iff_of_true hs ?_
        cases v <;> cases eventType <;> simp_all [Neutral]
      · refine iff_of_true ?_ (by cases v <;> simp [Neutral])
        cases v with
        | entity e => exact hs
        | fact f => exact hs
      · cases v with
        | entity e => rw [settled_after_entity hs]; simp [Neutral, he']
        | fact f => rw [settled_after_createEntity hg hs]; simp [Neutral, he']
      · cases v with
        | entity e => exact iff_of_true hs (by simp [Neutral])
        | fact f => rw [settled_after_createFact hs]; simp [Neutral, hf']
  | updateFactStatus factId status supersededBy =>
    obtain ⟨hupd, rfl⟩ | hupd := graphStep_update_cases h
    · refine iff_of_true hs ?_
      cases v <;> simp [Neutral, hupd]
    · cases v with
      | entity e =>
        obtain ⟨_, _, _, _, _, _, _, hentities, _⟩ := updateFactStatus_some hupd
        refine iff_of_true ?_ (by simp [Neutral])
        simpa only [Settled, hentities] using hs
      | fact f =>
        rw [settled_after_updateFactStatus hs hupd]
        simp [Neutral, hupd]

theorem settled_after_projection {co : Conversions} {g g' : Graph} {eventType : OutboxEventType}
    {payload : JsonObject} {now : Instant} {v : Projected}
    (hv : projectedValue co eventType payload now = some v)
    (h : graphStep co g (.project eventType payload now) = some g') : Settled g' v := by
  cases eventType with
  | documentParsed => cases hv
  | chunksCreated => cases hv
  | entityMentioned => cases hv
  | entityResolved =>
    cases he : entityOfPayload co payload with
    | error e => simp [projectedValue, he, Except.toOption] at hv
    | ok e =>
      simp only [projectedValue, he, Except.toOption, Option.map_some, Option.some.injEq] at hv
      simp only [graphStep, projectEvent, he, bind, Except.bind, pure, Except.pure,
        Option.some.injEq] at h
      subst hv h
      have hget := g.entities.get?_upsert e e.entityId
      rw [if_pos rfl] at hget
      exact hget
  | factCandidate =>
    cases hf : factOfPayload co payload now with
    | error e => simp [projectedValue, hf, Except.toOption] at hv
    | ok f =>
      simp only [projectedValue, hf, Except.toOption, Option.map_some, Option.some.injEq] at hv
      simp only [graphStep, projectEvent, hf, bind, Except.bind, pure, Except.pure,
        Option.some.injEq] at h
      subst hv h
      refine ⟨?_, fun hsubject => ⟨?_, fun hobject => ?_⟩⟩
      · have hget := g.facts.get?_upsert f f.factId
        rw [if_pos rfl] at hget
        exact hget
      · have hsubject : g.hasEntity f.subjectId = true := hsubject
        simp [createFact, GraphWrite.apply, hsubject]
      · have hsubject : g.hasEntity f.subjectId = true := hsubject
        have hobject : g.hasEntity f.objectId = true := hobject
        simp [createFact, GraphWrite.apply, hsubject, hobject]

/-- After an event has been projected, redelivery is harmless in every state of a
run exactly when the event is dated and every action of the run is neutral. -/
theorem redelivery_harmless_iff {co : Conversions} {chunks : List UUID} {g₀ g₁ : Graph}
    (hreach : (graphSystem co chunks).Reachable g₀) {eventType : OutboxEventType}
    {payload : JsonObject} {now : Instant} {v : Projected}
    (hv : projectedValue co eventType payload now = some v)
    (hproj : graphStep co g₀ (.project eventType payload now) = some g₁)
    (actions : List GraphAction) :
    (∀ g ∈ (graphSystem co chunks).states g₁ actions, Harmless co eventType payload g) ↔
      Dated eventType payload ∧ (graphSystem co chunks).Along (Neutral co v) g₁ actions := by
  have hbound : EdgesBound g₁ :=
    graphStep_edgesBound g₀ _ g₁ (reachable_edgesBound hreach) hproj
  have hsettled : Settled g₁ v := settled_after_projection hv hproj
  have hthroughout := (graphSystem co chunks).holds_throughout_iff (I := EdgesBound)
    (H := fun g => Settled g v) (Q := Neutral co v)
    graphStep_edgesBound (graphStep_total co)
    (fun g a g' hg hs hstep => graphStep_settled_iff hg hs hstep) actions hbound hsettled
  rw [← hthroughout]
  simp only [harmless_iff hv]
  have hfirst : g₁ ∈ (graphSystem co chunks).states g₁ actions := by
    cases actions <;> simp [LabelledSystem.states]
  constructor
  · intro hall
    exact ⟨(hall g₁ hfirst).1, fun g hg => (hall g hg).2⟩
  · rintro ⟨hdated, hall⟩ g hg
    exact ⟨hdated, hall g hg⟩

def RedeliveryHarmless (co : Conversions) : Prop :=
  ∀ chunks g₀, (graphSystem co chunks).Reachable g₀ → ∀ eventType payload now v,
    projectedValue co eventType payload now = some v → ∀ g₁,
      graphStep co g₀ (.project eventType payload now) = some g₁ → ∀ actions,
        ∀ g ∈ (graphSystem co chunks).states g₁ actions, Harmless co eventType payload g

def uuidText (n : Nat) : JsonValue := .str (String.ofList (strUuid (BitVec.ofNat 128 n)))

def entityPayload (id : Nat) (name : String) : JsonObject :=
  [("entity_id", uuidText id), ("entity_type", .str "person"), ("canonical_name", .str name)]

def factPayload (id subject object : Nat) : JsonObject :=
  [("fact_id", uuidText id), ("subject_id", uuidText subject), ("predicate", .str "knows"),
   ("object_id", uuidText object), ("evidence_ids", .list [uuidText 9]), ("tenant_id", .str "t"),
   ("observed_at", .int 5)]

theorem Harmless.step {co : Conversions} {eventType : OutboxEventType} {payload : JsonObject}
    {g g' : Graph} (h : Harmless co eventType payload g) {now : Instant}
    (hstep : graphStep co g (.project eventType payload now) = some g') : g' = g := by
  obtain ⟨e, -, rfl⟩ | ⟨write, hwrite, rfl⟩ := graphStep_project_cases hstep
  · rfl
  · exact h now write hwrite

def statusOf (g : Graph) (factId : UUID) : Option FactStatus :=
  (g.facts.get? factId).map fun f => f.status

/-- A projected candidate is verified; the event is then delivered again. -/
theorem not_redeliveryHarmless : ¬ RedeliveryHarmless plainConversions := by
  intro h
  have hvalue : (projectedValue plainConversions .factCandidate (factPayload 1 2 3) 0).isSome := by
    decide
  obtain ⟨v, hv⟩ := Option.isSome_iff_exists.mp hvalue
  obtain ⟨g₁, hg₁⟩ := graphStep_total plainConversions (.empty [])
    (.project .factCandidate (factPayload 1 2 3) 0)
  obtain ⟨g₂, hg₂⟩ := graphStep_total plainConversions g₁ (.updateFactStatus 1 "verified" none)
  obtain ⟨g₃, hg₃⟩ := graphStep_total plainConversions g₂
    (.project .factCandidate (factPayload 1 2 3) 0)
  have hview : ((graphStep plainConversions (.empty [])
      (.project .factCandidate (factPayload 1 2 3) 0)).bind fun g₁ =>
        (graphStep plainConversions g₁ (.updateFactStatus 1 "verified" none)).bind fun g₂ =>
          (graphStep plainConversions g₂ (.project .factCandidate (factPayload 1 2 3) 0)).map
            fun g₃ => (statusOf g₂ 1, statusOf g₃ 1)) = some (some .verified, some .candidate) := by
    decide
  rw [hg₁, Option.bind_some, hg₂, Option.bind_some, hg₃, Option.map_some, Option.some.injEq,
    Prod.mk.injEq] at hview
  have hharmless := h [] (.empty []) (LabelledSystem.reachable_start _) .factCandidate
    (factPayload 1 2 3) 0 v hv g₁ hg₁ [.updateFactStatus 1 "verified" none] g₂
    (LabelledSystem.mem_states_of_run _ (LabelledSystem.run_single _ hg₂))
  rw [hharmless.step hg₃, hview.1] at hview
  exact absurd hview.2 (by decide)

def projectedStatus : Projected → Option FactStatus
  | .entity _ => none
  | .fact f => some f.status

/-- A fact between known entities, then a status update that changes nothing. -/
theorem redelivery_harmless_iff_sameStatus :
    ∃ g₀ g₁, (graphSystem plainConversions []).run (.empty [])
        [.project .entityResolved (entityPayload 2 "Ada") 0,
         .project .entityResolved (entityPayload 3 "Bob") 0] = some g₀ ∧
      graphStep plainConversions g₀ (.project .factCandidate (factPayload 1 2 3) 0) = some g₁ ∧
      ∀ g ∈ (graphSystem plainConversions []).states g₁ [.updateFactStatus 1 "candidate" none],
        Harmless plainConversions .factCandidate (factPayload 1 2 3) g := by
  have hvalue : (projectedValue plainConversions .factCandidate (factPayload 1 2 3) 0).isSome := by
    decide
  obtain ⟨v, hv⟩ := Option.isSome_iff_exists.mp hvalue
  have hstatus : (projectedValue plainConversions .factCandidate (factPayload 1 2 3) 0).map
      projectedStatus = some (some .candidate) := by decide
  rw [hv, Option.map_some, Option.some.injEq] at hstatus
  have hrun : ((graphSystem plainConversions []).run (.empty [])
      [.project .entityResolved (entityPayload 2 "Ada") 0,
       .project .entityResolved (entityPayload 3 "Bob") 0]).isSome := by decide
  obtain ⟨g₀, hg₀⟩ := Option.isSome_iff_exists.mp hrun
  obtain ⟨g₁, hg₁⟩ := graphStep_total plainConversions g₀
    (.project .factCandidate (factPayload 1 2 3) 0)
  refine ⟨g₀, g₁, hg₀, hg₁, (redelivery_harmless_iff ⟨_, hg₀⟩ hv hg₁ _).mpr ⟨?_, ?_, ?_⟩⟩
  · exact fun _ => by decide
  · cases v with
    | entity e => trivial
    | fact f =>
      obtain hcandidate : f.status = .candidate := by simpa [projectedStatus] using hstatus
      intro _ _
      rw [hcandidate]
      rfl
  · exact fun _ _ => trivial

end GroundGraph.Neo4j

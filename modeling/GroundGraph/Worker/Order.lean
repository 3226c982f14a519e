import GroundGraph.Worker.Durability

/-! The order in which events are projected. A fact event draws its edges to the
entity nodes that its query finds, and nothing draws them later; so what counts is
whether the endpoints had been resolved when some projection of the fact ran.
-/

set_option autoImplicit false

namespace GroundGraph.Worker

open GroundGraph.Knowledge GroundGraph.Neo4j GroundGraph.Outbox

def CarriesFact (co : Conversions) (c : ProjectionCommit) (x : KnowledgeFact) : Prop :=
  c.eventType = .factCandidate ∧ factOfPayload co c.payload c.now = .ok x

/-- The transaction resolved this entity. -/
def Resolves (co : Conversions) (c : ProjectionCommit) (id : UUID) : Prop :=
  c.eventType = .entityResolved ∧ ∃ e, entityOfPayload co c.payload = .ok e ∧ e.entityId = id

def WroteProjection (co : Conversions) (c : ProjectionCommit) : Prop :=
  ∃ g, projectEvent co g c.now c.eventType c.payload = .ok c.write

theorem Planned.wrote {co : Conversions} {chunks : List UUID} {commits : List ProjectionCommit}
    {c : ProjectionCommit} (h : Planned co chunks commits c) : WroteProjection co c :=
  ⟨_, h.write⟩

section Replay

variable {co : Conversions} {chunks : List UUID}

theorem hasEntity_replay_iff (chunks : List UUID) {commits : List ProjectionCommit}
    (h : ∀ c ∈ commits, WroteProjection co c) (id : UUID) :
    (replay chunks commits).hasEntity id = true ↔ ∃ c ∈ commits, Resolves co c id := by
  induction commits with
  | nil => simp [replay, Graph.empty, Graph.hasEntity]
  | cons c cs ih =>
    have hrest := ih fun d hd => h d (List.mem_cons_of_mem _ hd)
    obtain ⟨g, hwrite⟩ := h c List.mem_cons_self
    simp only [List.exists_mem_cons_iff, ← hrest, replay]
    obtain ⟨hw, hne, _⟩ | ⟨m, hw, ht⟩ | ⟨e, hw, ht, he⟩ | ⟨f, hw, ht, _⟩ := projectEvent_ok hwrite
    · rw [hw]
      simp [GraphWrite.apply, Resolves, hne]
    · rw [hw]
      simp [createMention, GraphWrite.apply, Graph.hasEntity, Resolves, ht]
    · rw [hw, show ((createEntity e).apply (replay chunks cs)).hasEntity id = true ↔ _ from
        hasEntity_upsert]
      refine or_congr_left ⟨fun hid => ⟨ht, e, he, hid.symm⟩, ?_⟩
      rintro ⟨_, e', he', rfl⟩
      rw [Except.ok.inj (he'.symm.trans he)]
    · rw [hw]
      simp [createFact, GraphWrite.apply, Graph.hasEntity, Resolves, ht]

theorem mem_subjectOf_replay_iff (commits : List ProjectionCommit) (edge : UUID × UUID) :
    edge ∈ (replay chunks commits).subjectOf ↔
      ∃ c ∈ commits, ∃ x b, c.write = .fact x true b ∧ edge = (x.subjectId, x.factId) := by
  induction commits with
  | nil => simp [replay, Graph.empty]
  | cons c cs ih =>
    simp only [List.exists_mem_cons_iff, ← ih, replay]
    cases hw : c.write with
    | nothing => simp [GraphWrite.apply]
    | mention m b => simp [GraphWrite.apply]
    | entity e => simp [GraphWrite.apply]
    | fact x subjectFound objectFound => cases subjectFound <;> simp [GraphWrite.apply, or_comm]

theorem mem_object_replay_iff (commits : List ProjectionCommit) (edge : UUID × UUID) :
    edge ∈ (replay chunks commits).object ↔
      ∃ c ∈ commits, ∃ x b, c.write = .fact x b true ∧ edge = (x.factId, x.objectId) := by
  induction commits with
  | nil => simp [replay, Graph.empty]
  | cons c cs ih =>
    simp only [List.exists_mem_cons_iff, ← ih, replay]
    cases hw : c.write with
    | nothing => simp [GraphWrite.apply]
    | mention m b => simp [GraphWrite.apply]
    | entity e => simp [GraphWrite.apply]
    | fact x subjectFound objectFound => cases objectFound <;> simp [GraphWrite.apply, or_comm]

theorem get?_facts_replay_isSome {commits : List ProjectionCommit} {c : ProjectionCommit}
    (hc : c ∈ commits) {x : KnowledgeFact} {a b : Bool} (hw : c.write = .fact x a b) :
    ((replay chunks commits).facts.get? x.factId).isSome := by
  induction commits with
  | nil => cases hc
  | cons d ds ih =>
    rcases List.mem_cons.mp hc with rfl | hc
    · simp only [replay, hw, GraphWrite.apply]
      rw [KeyedTable.get?_upsert, if_pos rfl]
      rfl
    · have hrest := ih hc
      simp only [replay]
      cases d.write with
      | nothing => exact hrest
      | mention m b => exact hrest
      | entity e => exact hrest
      | fact y a b =>
        simp only [GraphWrite.apply]
        rw [KeyedTable.get?_upsert]
        split
        · rfl
        · exact hrest

theorem Planned.fact_iff {commits : List ProjectionCommit} {c : ProjectionCommit}
    (hc : Planned co chunks commits c) (hall : ∀ d ∈ commits, WroteProjection co d)
    (x : KnowledgeFact) (subjectFound objectFound : Bool) :
    c.write = .fact x subjectFound objectFound ↔ CarriesFact co c x ∧
      (subjectFound = true ↔ ∃ d ∈ firstCommits commits c.seen, Resolves co d x.subjectId) ∧
      (objectFound = true ↔ (∃ d ∈ firstCommits commits c.seen, Resolves co d x.subjectId) ∧
        ∃ d ∈ firstCommits commits c.seen, Resolves co d x.objectId) := by
  have hfirst : ∀ d ∈ firstCommits commits c.seen, WroteProjection co d :=
    fun d hd => hall d (List.mem_of_mem_drop hd)
  simp only [← hasEntity_replay_iff chunks hfirst, ← Bool.and_eq_true,
    ← Bool.eq_iff_iff]
  have hwrite := hc.write
  constructor
  · intro hw
    obtain ⟨hw', _⟩ | ⟨m, hw', _⟩ | ⟨e, hw', _⟩ | ⟨f, hw', ht, hf⟩ := projectEvent_ok hwrite
    · rw [hw] at hw'
      cases hw'
    · rw [hw] at hw'
      cases hw'
    · rw [hw] at hw'
      cases hw'
    · rw [hw, createFact] at hw'
      obtain ⟨rfl, rfl, rfl⟩ := GraphWrite.fact.inj hw'
      exact ⟨⟨ht, hf⟩, rfl, rfl⟩
  · rintro ⟨⟨ht, hf⟩, rfl, rfl⟩
    simp only [projectEvent, ht, hf, bind, Except.bind, pure, Except.pure] at hwrite
    exact (Except.ok.inj hwrite).symm

end Replay

/-- Both edges are there, and every search that the fact's row passes finds it. -/
structure Linked (g : Graph) (f : FactFields) : Prop where
  subject : (f.subjectId, f.factId) ∈ g.subjectOf
  object : (f.factId, f.objectId) ∈ g.object
  node : (g.facts.get? f.factId).isSome
  found : ∀ node, g.facts.get? f.factId = some node → ∀ (q : FactFilter) (order : RowOrder),
    q.admits ⟨f.subjectId, node, f.objectId⟩ = true →
      (g.factRows.filter q.admits).length ≤ findFactsLimit → node ∈ findFacts g q order

/-- The event of the fact and events of its two endpoints are completed. -/
structure AllCompleted (co : Conversions) (s : World) (f : FactFields) : Prop where
  fact : ∃ r ∈ s.outbox.table.rows, r.status = .completed ∧ r.eventType = .factCandidate ∧
    factFieldsOfPayload co r.payload = .ok f
  subject : ∃ r ∈ s.outbox.table.rows, r.status = .completed ∧ r.eventType = .entityResolved ∧
    ∃ e, entityOfPayload co r.payload = .ok e ∧ e.entityId = f.subjectId
  object : ∃ r ∈ s.outbox.table.rows, r.status = .completed ∧ r.eventType = .entityResolved ∧
    ∃ e, entityOfPayload co r.payload = .ok e ∧ e.entityId = f.objectId

/-- Some projection of the fact ran after its subject had been resolved, and some
after its subject and its object had been. -/
structure EndpointsFirst (co : Conversions) (s : World) (f : FactFields) : Prop where
  subject : ∃ c ∈ s.commits, ∃ x, CarriesFact co c x ∧ x.factId = f.factId ∧
    x.subjectId = f.subjectId ∧ ∃ d ∈ firstCommits s.commits c.seen, Resolves co d x.subjectId
  object : ∃ c ∈ s.commits, ∃ x, CarriesFact co c x ∧ x.factId = f.factId ∧
    x.objectId = f.objectId ∧ (∃ d ∈ firstCommits s.commits c.seen, Resolves co d x.subjectId) ∧
      ∃ d ∈ firstCommits s.commits c.seen, Resolves co d x.objectId

variable {co : Conversions} {chunks : List UUID} {s : World}

theorem WorldInv.wrote (hi : WorldInv co chunks s) : ∀ c ∈ s.commits, WroteProjection co c :=
  fun c hc => (hi.planned c hc).wrote

theorem subject_edge_iff (hi : WorldInv co chunks s) (f : FactFields) :
    (f.subjectId, f.factId) ∈ s.graph.subjectOf ↔
      ∃ c ∈ s.commits, ∃ x, CarriesFact co c x ∧ x.factId = f.factId ∧
        x.subjectId = f.subjectId ∧
          ∃ d ∈ firstCommits s.commits c.seen, Resolves co d x.subjectId := by
  rw [hi.graph, mem_subjectOf_replay_iff]
  constructor
  · rintro ⟨c, hc, x, b, hw, hedge⟩
    obtain ⟨hsubject, hfact⟩ := Prod.mk.inj hedge
    obtain ⟨hcarries, hfound, _⟩ := ((hi.planned c hc).fact_iff hi.wrote x true b).mp hw
    exact ⟨c, hc, x, hcarries, hfact.symm, hsubject.symm, hfound.mp rfl⟩
  · rintro ⟨c, hc, x, hcarries, hfact, hsubject, hresolved⟩
    refine ⟨c, hc, x, (replay chunks (firstCommits s.commits c.seen)).hasEntity x.subjectId &&
      (replay chunks (firstCommits s.commits c.seen)).hasEntity x.objectId, ?_, ?_⟩
    · refine ((hi.planned c hc).fact_iff hi.wrote x true _).mpr ⟨hcarries, by simpa using hresolved, ?_⟩
      have hfirst : ∀ d ∈ firstCommits s.commits c.seen, WroteProjection co d :=
        fun d hd => hi.wrote d (List.mem_of_mem_drop hd)
      rw [Bool.and_eq_true, hasEntity_replay_iff chunks hfirst, hasEntity_replay_iff chunks hfirst]
    · rw [hfact, hsubject]

theorem object_edge_iff (hi : WorldInv co chunks s) (f : FactFields) :
    (f.factId, f.objectId) ∈ s.graph.object ↔
      ∃ c ∈ s.commits, ∃ x, CarriesFact co c x ∧ x.factId = f.factId ∧
        x.objectId = f.objectId ∧
          (∃ d ∈ firstCommits s.commits c.seen, Resolves co d x.subjectId) ∧
            ∃ d ∈ firstCommits s.commits c.seen, Resolves co d x.objectId := by
  rw [hi.graph, mem_object_replay_iff]
  constructor
  · rintro ⟨c, hc, x, b, hw, hedge⟩
    obtain ⟨hfact, hobject⟩ := Prod.mk.inj hedge
    obtain ⟨hcarries, _, hfound⟩ := ((hi.planned c hc).fact_iff hi.wrote x b true).mp hw
    obtain ⟨hs, ho⟩ := hfound.mp rfl
    exact ⟨c, hc, x, hcarries, hfact.symm, hobject.symm, hs, ho⟩
  · rintro ⟨c, hc, x, hcarries, hfact, hobject, hs, ho⟩
    refine ⟨c, hc, x, true, ?_, by rw [hfact, hobject]⟩
    exact ((hi.planned c hc).fact_iff hi.wrote x true true).mpr
      ⟨hcarries, by simpa using hs, by simpa using ⟨hs, ho⟩⟩

theorem hasEntity_of_completed (hi : WorldInv co chunks s) {r : Event}
    (hr : r ∈ s.outbox.table.rows) (hcompleted : r.status = .completed)
    (ht : r.eventType = .entityResolved) {e : CanonicalEntity}
    (he : entityOfPayload co r.payload = .ok e) : s.graph.hasEntity e.entityId = true := by
  obtain ⟨c, hc, hproj⟩ := hi.completed _ r (s.outbox.table.mem_rows_iff.mp hr) hcompleted
  rw [hi.graph, hasEntity_replay_iff chunks hi.wrote]
  exact ⟨c, hc, hproj.eventType.trans ht, e, by rw [hproj.payload, he], rfl⟩

theorem fact_node_of_completed (hi : WorldInv co chunks s) {r : Event}
    (hr : r ∈ s.outbox.table.rows) (hcompleted : r.status = .completed)
    (ht : r.eventType = .factCandidate) {f : FactFields}
    (hf : factFieldsOfPayload co r.payload = .ok f) : (s.graph.facts.get? f.factId).isSome := by
  obtain ⟨c, hc, hproj⟩ := hi.completed _ r (s.outbox.table.mem_rows_iff.mp hr) hcompleted
  have htype := hproj.eventType.trans ht
  obtain ⟨_, _, hne⟩ | ⟨m, _, hm⟩ | ⟨e, _, he, _⟩ | ⟨x, hw, _, hx⟩ :=
    projectEvent_ok (hi.planned c hc).write
  · exact absurd htype hne
  · rw [htype] at hm
    cases hm
  · rw [htype] at he
    cases he
  · obtain ⟨hfields, _⟩ := factOfPayload_ok_iff.mp hx
    rw [hproj.payload, hf] at hfields
    obtain rfl := Except.ok.inj hfields
    rw [hi.graph]
    exact get?_facts_replay_isSome hc hw

theorem linked_of_edges {f : FactFields} (hsubject : (f.subjectId, f.factId) ∈ s.graph.subjectOf)
    (hobject : (f.factId, f.objectId) ∈ s.graph.object)
    (hnode : (s.graph.facts.get? f.factId).isSome) (hs : s.graph.hasEntity f.subjectId = true)
    (ho : s.graph.hasEntity f.objectId = true) : Linked s.graph f := by
  refine ⟨hsubject, hobject, hnode, fun node hget q order hadmits hlimit => ?_⟩
  have hid : node.factId = f.factId := (s.graph.facts.get?_some_iff.mp hget).2
  have hrow : (⟨f.subjectId, node, f.objectId⟩ : FactRow) ∈ s.graph.factRows := by
    refine mem_factRows.mpr ⟨?_, ?_, ?_, hs, ho⟩
    · rw [hid]
      exact hsubject
    · rw [hid]
      exact hobject
    · rw [hid]
      exact hget
  exact mem_findFacts_of_row hrow hadmits hlimit

/-- Once its event and its endpoints' events are completed, a fact is linked
exactly if it was projected after its endpoints. -/
theorem linked_iff (hs : (worldSystem co chunks).Reachable s) {f : FactFields}
    (h : AllCompleted co s f) : Linked s.graph f ↔ EndpointsFirst co s f := by
  have hi := reachable_inv hs
  obtain ⟨⟨r, hr, hrc, hrt, hrf⟩, ⟨a, ha, hac, hat, e, hae, hesubject⟩,
    ⟨b, hb, hbc, hbt, e', hbe, heobject⟩⟩ := h
  constructor
  · intro hlinked
    exact ⟨(subject_edge_iff hi f).mp hlinked.subject, (object_edge_iff hi f).mp hlinked.object⟩
  · intro hfirst
    refine linked_of_edges ((subject_edge_iff hi f).mpr hfirst.subject)
      ((object_edge_iff hi f).mpr hfirst.object) (fact_node_of_completed hi hr hrc hrt hrf) ?_ ?_
    · rw [← hesubject]
      exact hasEntity_of_completed hi ha hac hat hae
    · rw [← heobject]
      exact hasEntity_of_completed hi hb hbc hbt hbe

def OrderIndependent (co : Conversions) : Prop :=
  ∀ chunks s, (worldSystem co chunks).Reachable s → ∀ f, AllCompleted co s f → Linked s.graph f

structure SampleEvent where
  id : UUID
  eventType : OutboxEventType
  payload : JsonObject

def factEvent : SampleEvent where
  id := 21
  eventType := .factCandidate
  payload :=
    [("fact_id", .str "00000000-0000-0000-0000-000000000001"),
     ("subject_id", .str "00000000-0000-0000-0000-000000000002"), ("predicate", .str "knows"),
     ("object_id", .str "00000000-0000-0000-0000-000000000003"), ("tenant_id", .str "t")]

def entityEvent (id : UUID) (entityId : String) : SampleEvent where
  id := id
  eventType := .entityResolved
  payload :=
    [("entity_id", .str entityId), ("entity_type", .str "person"), ("canonical_name", .str "n")]

def subjectEvent : SampleEvent := entityEvent 22 "00000000-0000-0000-0000-000000000002"

def objectEvent : SampleEvent := entityEvent 23 "00000000-0000-0000-0000-000000000003"

def SampleEvent.emit (e : SampleEvent) : Action :=
  .emit ⟨e.id, "event", e.id, e.eventType, e.payload, .pending, 0, none, 0, none, none, none⟩

def SampleEvent.claimedRow (e : SampleEvent) (token : UUID) : Event :=
  ⟨e.id, "event", e.id, e.eventType, e.payload, .claimed, 1, none, 0, 0, some workerId, some token,
    some 0, some 30000000, none⟩

/-- One worker takes the events in one batch and completes them in the order in
which they were emitted. -/
def oneBatch (events : List SampleEvent) : List Action :=
  events.map SampleEvent.emit ++
    .poll 0 0 (fun _ => false) (fun n => BitVec.ofNat 128 (n + 100)) .ok ::
      events.zipIdx.flatMap fun e =>
        [.project 0 0 [], .commitGraph 0 .ok [],
         .complete 0 (some (e.1.claimedRow (BitVec.ofNat 128 (e.2 + 100)))) 0 .ok []]

def rowView (r : Event) : StatusText × OutboxEventType × Option UUID × Option (UUID × UUID × UUID) :=
  (r.status, r.eventType,
    (entityOfPayload plainConversions r.payload).toOption.map CanonicalEntity.entityId,
    (factFieldsOfPayload plainConversions r.payload).toOption.map fun f =>
      (f.factId, f.subjectId, f.objectId))

def completedViews : List (StatusText × OutboxEventType × Option UUID × Option (UUID × UUID × UUID)) :=
  [(.completed, .factCandidate, none, some (1, 2, 3)),
   (.completed, .entityResolved, some 2, none), (.completed, .entityResolved, some 3, none)]

theorem toOption_some {ε α : Type} {x : Except ε α} {a : α} (h : x.toOption = some a) :
    x = .ok a := by
  cases x with
  | error e => cases h
  | ok b => rw [Option.some.inj h]

theorem allCompleted_of_views {s : World}
    (h : ∀ v ∈ completedViews, v ∈ s.outbox.table.rows.map rowView) :
    ∃ f, f.factId = 1 ∧ f.subjectId = 2 ∧ f.objectId = 3 ∧ AllCompleted plainConversions s f := by
  obtain ⟨r, hr, hrv⟩ := List.mem_map.mp
    (h (.completed, .factCandidate, none, some (1, 2, 3)) (by simp [completedViews]))
  obtain ⟨a, ha, hav⟩ := List.mem_map.mp
    (h (.completed, .entityResolved, some 2, none) (by simp [completedViews]))
  obtain ⟨b, hb, hbv⟩ := List.mem_map.mp
    (h (.completed, .entityResolved, some 3, none) (by simp [completedViews]))
  simp only [rowView, Prod.mk.injEq] at hrv hav hbv
  obtain ⟨hrc, hrt, _, hrf⟩ := hrv
  obtain ⟨hac, hat, hae, _⟩ := hav
  obtain ⟨hbc, hbt, hbe, _⟩ := hbv
  obtain ⟨f, hf, hids⟩ := Option.map_eq_some_iff.mp hrf
  obtain ⟨hid, hsubject, hobject⟩ := by simpa only [Prod.mk.injEq] using hids
  obtain ⟨e, he, heid⟩ := Option.map_eq_some_iff.mp hae
  obtain ⟨e', he', heid'⟩ := Option.map_eq_some_iff.mp hbe
  refine ⟨f, hid, hsubject, hobject, ⟨r, hr, hrc, hrt, toOption_some hf⟩, ?_, ?_⟩
  · exact ⟨a, ha, hac, hat, e, toOption_some he, heid.trans hsubject.symm⟩
  · exact ⟨b, hb, hbc, hbt, e', toOption_some he', heid'.trans hobject.symm⟩

/-- The fact's event comes first in the batch: all three events are completed, and
the fact has no edge. -/
theorem not_orderIndependent : ¬ OrderIndependent plainConversions := by
  intro h
  have hrun : ((worldSystem plainConversions []).run (worldSystem plainConversions []).start
      (oneBatch [factEvent, subjectEvent, objectEvent])).isSome := by decide
  obtain ⟨s, hs⟩ := Option.isSome_iff_exists.mp hrun
  have hview : ((worldSystem plainConversions []).run (worldSystem plainConversions []).start
      (oneBatch [factEvent, subjectEvent, objectEvent])).map
        (fun s => (decide (∀ v ∈ completedViews, v ∈ s.outbox.table.rows.map rowView),
          s.graph.subjectOf)) = some (true, []) := by decide
  rw [hs, Option.map_some, Option.some.injEq, Prod.mk.injEq] at hview
  obtain ⟨f, _, _, _, hall⟩ := allCompleted_of_views (of_decide_eq_true hview.1)
  have hlinked := h [] s ⟨_, hs⟩ f hall
  have hedge := hlinked.subject
  rw [hview.2] at hedge
  cases hedge

/-- With the endpoints first, the fact is linked. -/
theorem linked_iff_endpointsFirst :
    ∃ s f, (worldSystem plainConversions []).run (worldSystem plainConversions []).start
        (oneBatch [subjectEvent, objectEvent, factEvent]) = some s ∧
      f.factId = 1 ∧ Linked s.graph f ∧ EndpointsFirst plainConversions s f := by
  have hrun : ((worldSystem plainConversions []).run (worldSystem plainConversions []).start
      (oneBatch [subjectEvent, objectEvent, factEvent])).isSome := by decide
  obtain ⟨s, hs⟩ := Option.isSome_iff_exists.mp hrun
  have hview : ((worldSystem plainConversions []).run (worldSystem plainConversions []).start
      (oneBatch [subjectEvent, objectEvent, factEvent])).map
        (fun s => (decide (∀ v ∈ completedViews, v ∈ s.outbox.table.rows.map rowView),
          s.graph.subjectOf, s.graph.object)) = some (true, [(2, 1)], [(1, 3)]) := by decide
  have hnodes : ((worldSystem plainConversions []).run (worldSystem plainConversions []).start
      (oneBatch [subjectEvent, objectEvent, factEvent])).map
        (fun s => ((s.graph.facts.get? 1).isSome, s.graph.hasEntity 2, s.graph.hasEntity 3)) =
      some (true, true, true) := by decide
  rw [hs, Option.map_some, Option.some.injEq] at hview hnodes
  simp only [Prod.mk.injEq] at hview hnodes
  obtain ⟨hviews, hsubjects, hobjects⟩ := hview
  obtain ⟨hnode, h2, h3⟩ := hnodes
  obtain ⟨f, hid, hsubject, hobject, hall⟩ := allCompleted_of_views (of_decide_eq_true hviews)
  have hlinked : Linked s.graph f := by
    apply linked_of_edges
    · rw [hsubjects, hid, hsubject]
      simp
    · rw [hobjects, hid, hobject]
      simp
    · rw [hid]
      exact hnode
    · rw [hsubject]
      exact h2
    · rw [hobject]
      exact h3
  exact ⟨s, f, hs, hid, hlinked, (linked_iff ⟨_, hs⟩ hall).mp hlinked⟩

end GroundGraph.Worker

import GroundGraph.Extraction.EmittedFacts
import GroundGraph.Library.Slices
import GroundGraph.Neo4j.RoundTrip
import GroundGraph.Worker.Draining

/-! From the chunk to the graph. Ingestion announces versions in the outbox, which projects to
nothing, and the runs of the extraction graph emit what they have found; nobody else adds events.
What was found comes to be in the graph, as it was found, and there is nothing else in it.
-/

set_option autoImplicit false

namespace GroundGraph.Worker

open GroundGraph.Knowledge GroundGraph.Neo4j GroundGraph.Outbox GroundGraph.Extraction

/-- A run of the extraction graph that comes to its end; `datetime.now(UTC)` has no offset. Its
resolver reads the graph at most: an `EntityResolutionService` over the Neo4j repository itself
would also write the nodes of new entities, past the outbox. -/
structure ExtractionRun where
  services : ExtractionServices
  draws : ExtractionDraws
  state : ExtractionState
  rows : List (OutboxRow JsonObject)
  ended : runExtraction services draws state = .ok rows
  utc : draws.now.offset = .zero

inductive Produced : OutboxEventType → JsonObject → Prop
  | ingestion (payload : JsonObject) : Produced .documentParsed payload
  | extraction (x : ExtractionRun) {row : OutboxRow JsonObject} (hrow : row ∈ x.rows) :
    Produced row.eventType row.payload

def Action.Produces : Action → Prop
  | .emit event => Produced event.eventType event.payload
  | _ => True

/-! ## What a node of the graph is made of -/

inductive Finding where
  | mention (m : EntityMention)
  | entity (e : CanonicalEntity)
  | fact (f : KnowledgeFact)

def Finding.node : Finding → String × UUID
  | .mention m => ("Mention", m.mentionId)
  | .entity e => ("Entity", e.entityId)
  | .fact f => ("Fact", f.factId)

def Finding.write (g : Graph) : Finding → GraphWrite
  | .mention m => createMention g m
  | .entity e => Neo4j.createEntity e
  | .fact f => Neo4j.createFact g f

/-- What an event carries; the time of reading counts only where none of observation is given. -/
def findingOf (co : Conversions) (eventType : OutboxEventType) (payload : JsonObject) :
    Option Finding :=
  match eventType with
  | .entityMentioned => (mentionOfPayload co payload).toOption.map .mention
  | .entityResolved => (entityOfPayload co payload).toOption.map .entity
  | .factCandidate => (factOfPayload co payload 0).toOption.map .fact
  | .documentParsed => none
  | .chunksCreated => none

/-- The graph has the node, with these properties. -/
def Holds (g : Graph) : Finding → Prop
  | .mention m => g.mentions.get? m.mentionId = some m
  | .entity e => g.entities.get? e.entityId = some e
  | .fact f => g.facts.get? f.factId = some f

/-- The run has found this, and has emitted it. -/
def ExtractionRun.Found (x : ExtractionRun) : Finding → Prop
  | .mention m => ∃ id, emitMention id x.draws.writtenAt m ∈ x.rows
  | .entity e => ∃ id, emitEntity id x.draws.writtenAt e ∈ x.rows
  | .fact f => Attributed x.services.ontology x.state f ∧
    ∃ id z, emitFact id x.draws.writtenAt z ∈ x.rows ∧ z.fact = f

section
variable {co : Conversions} {chunks : List UUID} {s t : World}

theorem emitted_cases {d : ExtractionDraws} {st : ExtractionState} {row : OutboxRow JsonObject}
    (h : row ∈ emitOutboxNode d st) :
    (∃ m ∈ st.entities, ∃ id, row = emitMention id d.writtenAt m) ∨
      (∃ e ∈ st.resolvedEntities, ∃ id, row = emitEntity id d.writtenAt e) ∨
      ∃ z ∈ st.facts, ∃ id, row = emitFact id d.writtenAt z := by
  rw [emitOutboxNode, emissions, List.mapIdx_append, List.mapIdx_append] at h
  rcases List.mem_append.mp h with h | h
  · rcases List.mem_append.mp h with h | h
    · exact Or.inl (mem_emitted h)
    · exact Or.inr (Or.inl (mem_emitted h))
  · exact Or.inr (Or.inr (mem_emitted h))

/-- An event of a run is read as what the run has found, at whatever time and over whatever
graph. -/
theorem ExtractionRun.reads (x : ExtractionRun) (hco : Documented co) {row : OutboxRow JsonObject}
    (hrow : row ∈ x.rows) : ∃ y, x.Found y ∧ findingOf co row.eventType row.payload = some y ∧
      ∀ g now, projectEvent co g now row.eventType row.payload = .ok (y.write g) := by
  obtain ⟨mentions, resolved, ambiguous, outputs, facts, -, -, -, hfacts, hrows⟩ :=
    runExtraction_ok_iff.mp x.ended
  have hmem := hrow
  rw [hrows] at hmem
  obtain ⟨m, -, id, rfl⟩ | ⟨e, -, id, rfl⟩ | ⟨z, hz, id, rfl⟩ := emitted_cases hmem
  · refine ⟨.mention m, ⟨id, hrow⟩, ?_, fun g now => ?_⟩
    · simp [findingOf, emitMention, pendingRow, mentionOfPayload_mentionPayload hco,
        Except.toOption]
    · exact Nodes.projectEvent_emitMention hco m id x.draws.writtenAt now g
  · refine ⟨.entity e, ⟨id, hrow⟩, ?_, fun g now => ?_⟩
    · simp [findingOf, emitEntity, pendingRow, entityOfPayload_entityPayload hco, Except.toOption]
    · exact Nodes.projectEvent_emitEntity hco e id x.draws.writtenAt now g
  · obtain ⟨hattributed, -, -⟩ := attributed_of_mem_collect hfacts hz
    have hwhole : z.observedAt.wholeMinutes = true := by
      obtain ⟨f, -, ends, factId, hunit, -, rfl⟩ := exists_output_of_mem_collect hfacts hz
      simp [candidateFact, IsoDatetime.Datetime.wholeMinutes, x.utc, IsoDatetime.Clock.zero]
    have hread : factOfPayload co (Outbox.factPayload z) 0 = .ok z.fact := by
      refine factOfPayload_ok_iff.mpr ⟨factFieldsOfPayload_factPayload hco z, ?_⟩
      rw [observedAtOfPayload_factPayload hco, if_pos hwhole]
    refine ⟨.fact z.fact, ⟨hattributed, id, z, hrow, rfl⟩, ?_, fun g now => ?_⟩
    · simp [findingOf, emitFact, pendingRow, hread, Except.toOption]
    · exact (Nodes.projectEvent_emitFact_iff hco z id x.draws.writtenAt now g).mpr hwhole

/-! ## What a step does to the outbox and to the graph -/

/-- The outbox is called or left alone, and a worker may commit what it has staged. -/
structure WorldEffect (s : World) (a : Action) (t : World) : Prop where
  outbox : t.outbox = s.outbox ∨ ∃ call, leaseStep s.outbox call = some t.outbox ∧
    ∀ event, call = .add event → a = .emit event
  commits : t.commits = s.commits ∨ ∃ w event c, (s.workers w).stage = .projected event c ∧
    t.commits = c :: s.commits

theorem WorldEffect.of_worker {a : Action} (houtbox : t.outbox = s.outbox)
    (hcommits : t.commits = s.commits) : WorldEffect s a t :=
  ⟨Or.inl houtbox, Or.inl hcommits⟩

theorem WorldEffect.of_call {a : Action} {call : LeaseAction JsonObject}
    (hcall : leaseStep s.outbox call = some t.outbox)
    (hadds : ∀ event, call = .add event → a = .emit event) (hcommits : t.commits = s.commits) :
    WorldEffect s a t :=
  ⟨Or.inr ⟨call, hcall, hadds⟩, Or.inl hcommits⟩

theorem poll_effect {w : Nat} {now : Instant} {locked : UUID → Bool} {uuid4 : UuidSource}
    {outcome : CommitOutcome} (h : poll s w now locked uuid4 outcome = some t) (a : Action) :
    WorldEffect s a t := by
  unfold poll at h
  split at h
  · split at h
    · obtain rfl := Option.some.inj h
      exact .of_worker rfl rfl
    · split at h
      · cases h
      · rename_i o ho
        split at h
        · obtain rfl := Option.some.inj h
          exact .of_call ho (fun _ ha => by cases ha) rfl
        · obtain rfl := Option.some.inj h
          exact .of_call ho (fun _ ha => by cases ha) rfl
  · cases h

theorem commitGraph_effect {w : Nat} {outcome : CommitOutcome} {error : List Char}
    (h : commitGraph s w outcome error = some t) (a : Action) : WorldEffect s a t := by
  unfold commitGraph at h
  split at h
  · rename_i event c hstage
    cases outcome with
    | ok =>
      obtain rfl := Option.some.inj h
      exact ⟨Or.inl rfl, Or.inr ⟨w, event, c, hstage, rfl⟩⟩
    | unacknowledged =>
      obtain rfl := Option.some.inj h
      exact ⟨Or.inl rfl, Or.inr ⟨w, event, c, hstage, rfl⟩⟩
    | raised =>
      obtain rfl := Option.some.inj h
      exact .of_worker rfl rfl
  · cases h

theorem complete_effect {w : Nat} {seen : Option Event} {now : Instant} {outcome : CommitOutcome}
    {error : List Char} (h : complete s w seen now outcome error = some t) (a : Action) :
    WorldEffect s a t := by
  unfold complete at h
  split at h
  · rename_i event hstage
    cases hdone : completeEvent s.outbox seen event now with
    | none =>
      simp only [hdone, Option.some.injEq] at h
      subst h
      exact .of_worker rfl rfl
    | some o =>
      obtain ⟨token, hstep⟩ := completeEvent_leaseStep hdone
      cases outcome with
      | ok =>
        simp only [hdone, Option.some.injEq] at h
        subst h
        exact .of_call hstep (fun _ ha => by cases ha) rfl
      | unacknowledged =>
        simp only [hdone, Option.some.injEq] at h
        subst h
        exact .of_call hstep (fun _ ha => by cases ha) rfl
      | raised =>
        simp only [hdone, Option.some.injEq] at h
        subst h
        exact .of_worker rfl rfl
  · cases h

theorem fail_effect {w : Nat} {seen : Option Event} {now : Instant} {outcome : CommitOutcome}
    (h : fail s w seen now outcome = some t) (a : Action) : WorldEffect s a t := by
  unfold fail at h
  split at h
  · rename_i event error hstage
    cases hfailed : failEvent s.outbox seen event error now with
    | none =>
      simp only [hfailed, Option.some.injEq] at h
      subst h
      exact .of_worker rfl rfl
    | some o =>
      obtain ⟨token, hstep⟩ := failEvent_leaseStep hfailed
      cases outcome with
      | ok =>
        simp only [hfailed, Option.some.injEq] at h
        subst h
        exact .of_call hstep (fun _ ha => by cases ha) rfl
      | unacknowledged =>
        simp only [hfailed, Option.some.injEq] at h
        subst h
        exact .of_call hstep (fun _ ha => by cases ha) rfl
      | raised =>
        simp only [hfailed, Option.some.injEq] at h
        subst h
        exact .of_worker rfl rfl
  · cases h

theorem worldStep_effect {a : Action} (h : worldStep co s a = some t) : WorldEffect s a t := by
  cases a with
  | tick now =>
    obtain ⟨o, ho, rfl⟩ := Option.map_eq_some_iff.mp h
    exact .of_call ho (fun _ ha => by cases ha) rfl
  | emit event =>
    obtain ⟨o, ho, rfl⟩ := Option.map_eq_some_iff.mp h
    exact .of_call ho (fun e he => by rw [LeaseAction.add.inj he]) rfl
  | poll w now locked uuid4 outcome => exact poll_effect h _
  | project w now error =>
    simp only [worldStep, project] at h
    split at h
    · split at h
      · obtain rfl := Option.some.inj h
        exact .of_worker rfl rfl
      · obtain rfl := Option.some.inj h
        exact .of_worker rfl rfl
    · cases h
  | projectRaises w error =>
    simp only [worldStep, projectRaises] at h
    split at h
    · obtain rfl := Option.some.inj h
      exact .of_worker rfl rfl
    · obtain rfl := Option.some.inj h
      exact .of_worker rfl rfl
    · cases h
  | commitGraph w outcome error => exact commitGraph_effect h _
  | complete w seen now outcome error => exact complete_effect h _
  | fail w seen now outcome => exact fail_effect h _
  | crash w =>
    obtain rfl := Option.some.inj h
    exact .of_worker rfl rfl

/-! ## Every reachable state -/

/-- Every event is one that the program adds, and what was committed was in the outbox. -/
structure ProducedInv (s : World) : Prop where
  rows : ∀ r ∈ s.outbox.table.rows, Produced r.eventType r.payload
  commits : ∀ c ∈ s.commits, ∃ r, s.outbox.table.get? c.eventId = some r ∧ Projects r c

theorem WorldEffect.keeps_row {a : Action} (h : WorldEffect s a t) {k : UUID} {r : Event}
    (hr : s.outbox.table.get? k = some r) :
    ∃ r', t.outbox.table.get? k = some r' ∧ SameEvent r r' := by
  rcases h.outbox with hsame | ⟨call, hcall, _⟩
  · rw [hsame]
    exact ⟨r, hr, .refl r⟩
  · obtain ⟨r', hr', hsame, _⟩ := leaseStep_row hcall hr
    exact ⟨r', hr', hsame⟩

theorem WorldEffect.row_origin {a : Action} (h : WorldEffect s a t) {r' : Event}
    (hr' : r' ∈ t.outbox.table.rows) :
    (∃ r ∈ s.outbox.table.rows, SameEvent r r') ∨ ∃ e, a = .emit e ∧ r' = rowOfEvent e := by
  rcases h.outbox with hsame | ⟨call, hcall, hadds⟩
  · rw [hsame] at hr'
    exact Or.inl ⟨r', hr', .refl r'⟩
  · rcases leaseStep_origin hcall hr' with hold | ⟨e, he, hrow⟩
    · exact Or.inl hold
    · exact Or.inr ⟨e, hadds e he, hrow⟩

theorem ProducedInv.step {a : Action} (hi : WorldInv co chunks s) (hp : ProducedInv s)
    (ha : a.Produces) (h : WorldEffect s a t) : ProducedInv t := by
  have hkept : ∀ c ∈ s.commits, ∃ r, t.outbox.table.get? c.eventId = some r ∧ Projects r c := by
    intro c hc
    obtain ⟨r, hr, hproj⟩ := hp.commits c hc
    obtain ⟨r', hr', hsame⟩ := h.keeps_row hr
    exact ⟨r', hr', hproj.of_sameEvent hsame⟩
  refine ⟨fun r' hr' => ?_, fun c hc => ?_⟩
  · rcases h.row_origin hr' with ⟨r, hr, hsame⟩ | ⟨e, rfl, rfl⟩
    · rw [hsame.eventType, hsame.payload]
      exact hp.rows r hr
    · exact ha
  · rcases h.commits with hsame | ⟨w, event, d, hstage, hcommits⟩
    · rw [hsame] at hc
      exact hkept c hc
    · rw [hcommits] at hc
      rcases List.mem_cons.mp hc with rfl | hc
      · have hw := hi.workers w
        obtain ⟨hproj, _⟩ := hw.staged event c hstage
        have hevent : (s.workers w).stage.event? = some event := by rw [hstage, Stage.event?]
        obtain ⟨r, hr, hsame⟩ := hw.current hevent
        obtain ⟨r', hr', hsame'⟩ := h.keeps_row hr
        refine ⟨r', ?_, hproj.of_sameEvent (hsame.trans hsame')⟩
        rw [hproj.eventId]
        exact hr'
      · exact hkept c hc

theorem worldStep_produced {a : Action} (ha : a.Produces) (h : worldStep co s a = some t)
    (hs : WorldInv co chunks s ∧ ProducedInv s) : WorldInv co chunks t ∧ ProducedInv t :=
  ⟨worldStep_inv s a t hs.1 h, hs.2.step hs.1 ha (worldStep_effect h)⟩

theorem run_produced {as : List Action} (hproduces : ∀ a ∈ as, a.Produces)
    (hrun : (worldSystem co chunks).run (worldSystem co chunks).start as = some s) :
    WorldInv co chunks s ∧ ProducedInv s :=
  (worldSystem co chunks).run_preserves_of
    (fun _ _ _ hs ha hstep => worldStep_produced ha hstep hs)
    ⟨start_inv co chunks, by simp [worldSystem, leaseSystem], by simp [worldSystem]⟩
    hproduces hrun

theorem nextAction_produces {env : Conditions} {w : Nat} {a : Action}
    (h : nextAction env w s = some a) : a.Produces := by
  unfold nextAction at h
  split at h
  · cases h
  · obtain rfl := Option.some.inj h
    trivial
  · obtain rfl := Option.some.inj h
    trivial
  · obtain rfl := Option.some.inj h
    trivial
  · obtain rfl := Option.some.inj h
    trivial

theorem Rounds.produced {texts : Set (List Char)} {w n : Nat} {start : Instant}
    (h : Rounds co texts w start n s t) (hs : WorldInv co chunks s ∧ ProducedInv s) : WorldInv co chunks t ∧ ProducedInv t := by
  induction h with
  | zero => exact hs
  | succ _ _ hround ih =>
    cases hround with
    | mk _ htick hpoll hserve _ =>
      have hticked := worldStep_produced (a := .tick _) trivial htick (ih hs)
      have hpolled := worldStep_produced (a := .poll _ _ _ _ _) trivial hpoll hticked
      refine hserve.preserves (fun u => WorldInv co chunks u ∧ ProducedInv u)
        (fun u v hu hstep => ?_) hpolled
      obtain ⟨a, ha, hv⟩ := Option.bind_eq_some_iff.mp hstep
      exact worldStep_produced (nextAction_produces ha) hv hu

/-! ## The graph -/

theorem holds_apply {g g' : Graph} {x y : Finding} :
    Holds ((x.write g').apply g) y ↔ y = x ∨ y.node ≠ x.node ∧ Holds g y := by
  cases x with
  | mention m =>
    cases y with
    | mention m' =>
      simp only [Finding.mention.injEq, Finding.node, Ne, Prod.mk.injEq, true_and]
      exact g.mentions.get?_upsert_some_iff
    | entity e => simp [Holds, Finding.node, Finding.write, createMention, GraphWrite.apply]
    | fact f => simp [Holds, Finding.node, Finding.write, createMention, GraphWrite.apply]
  | entity e =>
    cases y with
    | mention m => simp [Holds, Finding.node, Finding.write, Neo4j.createEntity, GraphWrite.apply]
    | entity e' =>
      simp only [Finding.entity.injEq, Finding.node, Ne, Prod.mk.injEq, true_and]
      exact g.entities.get?_upsert_some_iff
    | fact f => simp [Holds, Finding.node, Finding.write, Neo4j.createEntity, GraphWrite.apply]
  | fact f =>
    cases y with
    | mention m => simp [Holds, Finding.node, Finding.write, Neo4j.createFact, GraphWrite.apply]
    | entity e => simp [Holds, Finding.node, Finding.write, Neo4j.createFact, GraphWrite.apply]
    | fact f' =>
      simp only [Finding.fact.injEq, Finding.node, Ne, Prod.mk.injEq, true_and]
      exact g.facts.get?_upsert_some_iff

def Carried (co : Conversions) (c : ProjectionCommit) (x : Finding) : Prop :=
  findingOf co c.eventType c.payload = some x ∧ ∃ g, c.write = x.write g

/-- Whatever the order of the transactions, a node is one that some of them carried, and the node
of each of them is there. -/
theorem holds_replay (chunks : List UUID) {commits : List ProjectionCommit}
    (hall : ∀ c ∈ commits, c.write = .nothing ∨ ∃ x, Carried co c x) :
    (∀ y, Holds (replay chunks commits) y → ∃ c ∈ commits, Carried co c y) ∧
      ∀ c ∈ commits, ∀ x, Carried co c x →
        ∃ y, y.node = x.node ∧ Holds (replay chunks commits) y := by
  induction commits with
  | nil =>
    refine ⟨fun y hy => ?_, by simp⟩
    cases y <;> cases hy
  | cons c cs ih =>
    obtain ⟨hback, hforth⟩ := ih fun d hd => hall d (List.mem_cons_of_mem _ hd)
    rcases hall c List.mem_cons_self with hnothing | ⟨x, hx⟩
    · have hsame : replay chunks (c :: cs) = replay chunks cs := by
        rw [replay, hnothing]
        rfl
      rw [hsame]
      refine ⟨fun y hy => ?_, fun d hd x hx => ?_⟩
      · obtain ⟨d, hd, hcarried⟩ := hback y hy
        exact ⟨d, List.mem_cons_of_mem _ hd, hcarried⟩
      · rcases List.mem_cons.mp hd with rfl | hd
        · obtain ⟨_, g, hwrite⟩ := hx
          rw [hnothing] at hwrite
          cases x <;> cases hwrite
        · exact hforth d hd x hx
    · have hx' := hx
      obtain ⟨hfinding, g, hwrite⟩ := hx'
      have hholds : ∀ y, Holds (replay chunks (c :: cs)) y ↔
          y = x ∨ y.node ≠ x.node ∧ Holds (replay chunks cs) y := by
        intro y
        rw [replay, hwrite]
        exact holds_apply
      refine ⟨fun y hy => ?_, fun d hd z hz => ?_⟩
      · rcases (hholds y).mp hy with rfl | ⟨_, hold⟩
        · exact ⟨c, List.mem_cons_self, hx⟩
        · obtain ⟨d, hd, hcarried⟩ := hback y hold
          exact ⟨d, List.mem_cons_of_mem _ hd, hcarried⟩
      · by_cases hnode : z.node = x.node
        · exact ⟨x, hnode.symm, (hholds x).mpr (Or.inl rfl)⟩
        · have hdrop : d ∈ cs := by
            rcases List.mem_cons.mp hd with rfl | hd
            · obtain rfl := Option.some.inj (hfinding.symm.trans hz.1)
              exact absurd rfl hnode
            · exact hd
          obtain ⟨y, hy, hold⟩ := hforth d hdrop z hz
          exact ⟨y, hy, (hholds y).mpr (Or.inr ⟨hy ▸ hnode, hold⟩)⟩

theorem Produced.reads {eventType : OutboxEventType} {payload : JsonObject}
    (h : Produced eventType payload) (hco : Documented co) :
    (eventType = .documentParsed ∨ ∃ y, findingOf co eventType payload = some y ∧
      (∃ x : ExtractionRun, x.Found y) ∧
        ∀ g now, projectEvent co g now eventType payload = .ok (y.write g)) := by
  cases h with
  | ingestion => exact Or.inl rfl
  | extraction x hrow =>
    obtain ⟨y, hfound, hfinding, hreads⟩ := x.reads hco hrow
    exact Or.inr ⟨y, hfinding, ⟨x, hfound⟩, hreads⟩

theorem ProducedInv.carried (hp : ProducedInv s) (hi : WorldInv co chunks s) (hco : Documented co)
    {c : ProjectionCommit} (hc : c ∈ s.commits) :
    c.eventType = .documentParsed ∧ c.write = .nothing ∨ ∃ x, Carried co c x := by
  obtain ⟨r, hr, hproj⟩ := hp.commits c hc
  have hwrite := (hi.planned c hc).write
  have hproduced := hp.rows r (s.outbox.table.get?_some_iff.mp hr).1
  rw [← hproj.eventType, ← hproj.payload] at hproduced
  rcases hproduced.reads hco with htype | ⟨y, hfinding, _, hreads⟩
  · rw [htype] at hwrite
    exact Or.inl ⟨htype, (Except.ok.inj hwrite).symm⟩
  · exact Or.inr ⟨y, hfinding, _, Except.ok.inj (hwrite.symm.trans (hreads _ _))⟩

/-- The graph has nodes for the completed events, each as some event of the outbox and some run
has it, and no others. -/
structure GraphOfRuns (co : Conversions) (s : World) : Prop where
  arrived : ∀ r ∈ s.outbox.table.rows, r.status = .completed → ∀ x,
    findingOf co r.eventType r.payload = some x → ∃ y, y.node = x.node ∧ Holds s.graph y
  announced : ∀ y, Holds s.graph y →
    ∃ r ∈ s.outbox.table.rows, findingOf co r.eventType r.payload = some y
  found : ∀ y, Holds s.graph y → ∃ x : ExtractionRun, x.Found y

theorem ProducedInv.graphOfRuns (hp : ProducedInv s) (hi : WorldInv co chunks s)
    (hco : Documented co) : GraphOfRuns co s := by
  have hcarried : ∀ c ∈ s.commits, c.write = .nothing ∨ ∃ x, Carried co c x :=
    fun c hc => (hp.carried hi hco hc).imp_left And.right
  have hreplay := holds_replay chunks hcarried
  rw [← hi.graph] at hreplay
  obtain ⟨hback, hforth⟩ := hreplay
  have hannounced : ∀ y, Holds s.graph y →
      ∃ r ∈ s.outbox.table.rows, findingOf co r.eventType r.payload = some y := by
    intro y hy
    obtain ⟨c, hc, hfinding, _⟩ := hback y hy
    obtain ⟨r, hr, hproj⟩ := hp.commits c hc
    rw [hproj.eventType, hproj.payload] at hfinding
    exact ⟨r, (s.outbox.table.get?_some_iff.mp hr).1, hfinding⟩
  refine ⟨fun r hr hcompleted x hx => ?_, hannounced, fun y hy => ?_⟩
  · obtain ⟨c, hc, hproj⟩ := hi.completed _ r (s.outbox.table.mem_rows_iff.mp hr) hcompleted
    rw [← hproj.eventType, ← hproj.payload] at hx
    rcases hp.carried hi hco hc with ⟨htype, _⟩ | ⟨z, hz⟩
    · rw [htype] at hx
      cases hx
    · obtain rfl := Option.some.inj (hz.1.symm.trans hx)
      exact hforth c hc z hz
  · obtain ⟨r, hr, hfinding⟩ := hannounced y hy
    rcases (hp.rows r hr).reads hco with htype | ⟨z, hz, hfound, _⟩
    · rw [htype] at hfinding
      cases hfinding
    · obtain rfl := Option.some.inj (hz.symm.trans hfinding)
      exact hfound

/-! ## Until it has arrived -/

theorem ProducedInv.projects (hp : ProducedInv s) (hco : Documented co) {r : Event}
    (hr : r ∈ s.outbox.table.rows) : projects co r = true := by
  rcases (hp.rows r hr).reads hco with htype | ⟨y, _, _, hreads⟩
  · simp [Worker.projects, htype, projectEvent, Except.isOk, Except.toBool, pure, Except.pure]
  · simp [Worker.projects, hreads, Except.isOk, Except.toBool]

theorem ProducedInv.unreadable (hp : ProducedInv s) (hco : Documented co) :
    unreadable co s.outbox.table = ∅ := by
  refine Finset.eq_empty_of_forall_notMem fun k hk => ?_
  obtain ⟨r, hr, _, hno⟩ := mem_unreadable.mp hk
  rw [hp.projects hco (s.outbox.table.get?_some_iff.mp hr).1] at hno
  cases hno

theorem card_remaining_le (co : Conversions) (table : OutboxTable JsonObject) :
    (remaining co table).card ≤ (table.rows.filter isOpen).length := by
  have hsub : (table.rows.filter fun r => isOpen r && projects co r).Sublist
      (table.rows.filter isOpen) := by
    refine List.monotone_filter_right _ fun r hr => ?_
    exact (Bool.and_eq_true_iff.mp hr).1
  refine (List.toFinset_card_le _).trans ?_
  rw [List.length_map]
  exact hsub.length_le

structure Delivered (co : Conversions) (s t : World) : Prop where
  completed : ∀ r ∈ s.outbox.table.rows,
    ∃ r', t.outbox.table.get? r.eventId = some r' ∧ SameEvent r r' ∧ r'.status = .completed
  arrived : ∀ r ∈ s.outbox.table.rows, ∀ x, findingOf co r.eventType r.payload = some x →
    ∃ y, y.node = x.node ∧ Holds t.graph y

theorem Drained.delivered (h : Drained co s t) (hco : Documented co) (hp : ProducedInv s)
    (ht : GraphOfRuns co t) : Delivered co s t := by
  have hcompleted : ∀ r ∈ s.outbox.table.rows, ∃ r', t.outbox.table.get? r.eventId = some r' ∧
      SameEvent r r' ∧ r'.status = .completed :=
    fun r hr => h.completed r hr (hp.projects hco hr)
  refine ⟨hcompleted, fun r hr x hx => ?_⟩
  obtain ⟨r', hr', hsame, hdone⟩ := hcompleted r hr
  rw [← hsame.eventType, ← hsame.payload] at hx
  exact ht.arrived r' (t.outbox.table.get?_some_iff.mp hr').1 hdone x hx

/-- What the runs find is delivered: enough passes of a worker over the outbox, from some time on,
and the graph has it; at any time it has nothing else, the resolvers of the runs writing no node
themselves. -/
theorem extraction_delivered {as : List Action} {w n : Nat} (hco : Documented co)
    (hproduces : ∀ a ∈ as, a.Produces)
    (hrun : (worldSystem co chunks).run (worldSystem co chunks).start as = some s)
    (hidle : (s.workers w).stage = .idle)
    (hn : (s.outbox.table.rows.filter isOpen).length ≤ n * batchSize)
    (htokens : s.outbox.leases.length + n * batchSize ≤ 2 ^ 128) :
    GraphOfRuns co s ∧ ∃ due, ∀ start, due ≤ start → (∃ t, Rounds co Set.univ w start n s t) ∧
      ∀ t, Rounds co Set.univ w start n s t → GraphOfRuns co t ∧ Delivered co s t := by
  have hs : WorldInv co chunks s ∧ ProducedInv s := run_produced hproduces hrun
  have hreach : (worldSystem co chunks).Reachable s := ⟨as, hrun⟩
  have hnone := hs.2.unreadable hco
  obtain ⟨due, hclock, hdue⟩ := exists_due hreach
  refine ⟨hs.2.graphOfRuns hs.1 hco, due, fun start hstart => ⟨?_, fun t hrounds => ?_⟩⟩
  · obtain ⟨t, hrounds, _⟩ := exists_rounds co n Set.univ_nonempty hidle
      (hclock.trans hstart) htokens
    exact ⟨t, hrounds⟩
  · have hready : Ready co Set.univ w start (unreadable co s.outbox.table).card n s := by
      refine ⟨hidle, fun r hr hopen _ => selectable_later (hdue r hr hopen) hstart, le_rfl, ?_, ?_⟩
      · intro r hr _ hno
        rw [hs.2.projects hco hr] at hno
        cases hno
      · rw [hnone]
        simp
    have hdrained := hrounds.empties hready <| by
      rw [hnone, Finset.card_empty, Nat.sub_zero]
      exact (card_remaining_le co s.outbox.table).trans hn
    have ht := hrounds.produced hs
    have hgraph := ht.2.graphOfRuns ht.1 hco
    exact ⟨hgraph, hdrained.delivered hco hs.2 hgraph⟩

end

/-! A run over two people, while a version is announced and a worker takes the events and dies. -/

def peopleRun : ExtractionRun where
  services := peopleServices
  draws := peopleDraws
  state := peopleState
  rows := peopleEvents ++ [emitFact 34 0 deploysFact]
  ended := run_people
  utc := rfl

def emitRow (row : OutboxRow JsonObject) : Action :=
  .emit ⟨row.eventId, row.aggregateType, row.aggregateId, row.eventType, row.payload, .pending, 0,
    none, row.createdAt, none, none, none⟩

def peopleActions : List Action :=
  .emit ⟨40, "document", 41, .documentParsed, [], .pending, 0, none, 0, none, none, none⟩ ::
    (peopleRun.rows.map emitRow ++
      [.poll 1 0 (fun _ => false) (fun n => BitVec.ofNat 128 (n + 100)) .ok, .crash 1])

theorem peopleActions_produce : ∀ a ∈ peopleActions, a.Produces := by
  intro a ha
  rcases List.mem_cons.mp ha with rfl | ha
  · exact .ingestion []
  · rcases List.mem_append.mp ha with ha | ha
    · obtain ⟨row, hrow, rfl⟩ := List.mem_map.mp ha
      exact .extraction peopleRun hrow
    · rcases List.mem_cons.mp ha with rfl | ha
      · trivial
      · obtain rfl := List.mem_singleton.mp ha
        trivial

theorem extraction_delivered_people :
    ∃ s, (worldSystem Nodes.isoConversions []).run (worldSystem Nodes.isoConversions []).start
        peopleActions = some s ∧
      s.outbox.table.rows.length = 6 ∧ GraphOfRuns Nodes.isoConversions s ∧
      ∃ due, ∀ start, due ≤ start →
        (∃ t, Rounds Nodes.isoConversions Set.univ 0 start 1 s t) ∧
        ∀ t, Rounds Nodes.isoConversions Set.univ 0 start 1 s t →
          GraphOfRuns Nodes.isoConversions t ∧ Delivered Nodes.isoConversions s t := by
  have hview : ((worldSystem Nodes.isoConversions []).run
      (worldSystem Nodes.isoConversions []).start peopleActions).map (fun s =>
        (s.outbox.table.rows.length, (s.outbox.table.rows.filter isOpen).length,
          s.outbox.leases.length, (s.workers 0).stage.event?.isNone)) = some (6, 6, 6, true) := by
    decide +kernel
  obtain ⟨s, hs, hfields⟩ := Option.map_eq_some_iff.mp hview
  simp only [Prod.mk.injEq, Option.isNone_iff_eq_none] at hfields
  obtain ⟨hrows, hopen, hleases, hstage⟩ := hfields
  have hidle : (s.workers 0).stage = .idle := by
    cases hidle : (s.workers 0).stage with
    | idle => rfl
    | _ => simp [hidle, Stage.event?] at hstage
  refine ⟨s, hs, hrows,
    extraction_delivered Nodes.documented_iso peopleActions_produce hs hidle ?_ ?_⟩
  · rw [hopen]
    decide
  · rw [hleases]
    decide

end GroundGraph.Worker

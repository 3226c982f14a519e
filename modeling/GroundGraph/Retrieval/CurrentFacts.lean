import GroundGraph.Retrieval.EvidencePassed
import GroundGraph.Retrieval.TraversalBounds
import GroundGraph.Retrieval.TraversalPaths

/-! Whether graph evidence is current. A plan names no time, and without a time the traversal
passes over no fact: the evidence is current just where all the facts are that its queries
bring.
-/

set_option autoImplicit false

namespace GroundGraph.Retrieval

open GroundGraph.Extraction GroundGraph.Knowledge GroundGraph.Neo4j

structure CurrentAt (now : Instant) (f : KnowledgeFact) : Prop where
  started : ∀ v, f.validFrom = some v → v ≤ now
  lasting : ∀ v, f.validTo = some v → now < v

structure PathIds (P : UUID → Prop) (s : Traversal) : Prop where
  entries : ∀ r ∈ s.results, ∀ id ∈ r.path, P id
  waiting : ∀ e ∈ s.queue, ∀ id ∈ e.2.2, P id

def OwnFacts (s : Traversal) : Prop := ∀ r ∈ s.results, r.fact.factId ∈ r.path

section Paths

variable {g : Graph} {q : Search} {fetches : Fetches} {P : UUID → Prop}

theorem PathIds.record {s : Traversal} (h : PathIds P s) (validAt : Option Instant)
    (current : UUID) (depth : Nat) {path : List UUID} (hpath : ∀ id ∈ path, P id)
    (subjectName objectName : List Char) (next : UUID) {fact : KnowledgeFact}
    (hfact : P fact.factId) :
    PathIds P (s.record validAt current depth path subjectName objectName next fact) := by
  rcases s.record_cases validAt current depth path subjectName objectName next fact with
    ⟨heq, -⟩ | ⟨-, -, heq⟩
  · rw [heq]
    exact h
  · have hnew : ∀ id ∈ path ++ [fact.factId], P id := by
      intro id hid
      rcases List.mem_append.mp hid with hid | hid
      · exact hpath id hid
      · exact List.mem_singleton.mp hid ▸ hfact
    rw [heq]
    constructor
    · intro r hr
      rcases List.mem_append.mp hr with hr | hr
      · exact h.entries r hr
      · obtain rfl := List.mem_singleton.mp hr
        exact hnew
    · intro e he
      rcases List.mem_append.mp he with he | he
      · exact h.waiting e he
      · obtain rfl := List.mem_singleton.mp he
        exact hnew

theorem PathIds.step {s s' : Traversal} (h : PathIds P s)
    (hP : ∀ current depth path rest, s.queue = (current, depth, path) :: rest →
      (depth : Int) ≤ q.maxDepth → s.results.length < graphTraversalMaxFacts →
      ∀ f ∈ s.fetched g q fetches current, P f.factId)
    (hstep : s.step g q fetches = some s') : PathIds P s' := by
  obtain ⟨current, depth, path, rest, hqueue, hlt, ⟨-, rfl⟩ | ⟨hdepth, rfl⟩⟩ :=
    Traversal.step_cases hstep
  · exact ⟨h.entries, fun e he => h.waiting e (by simp [hqueue, he])⟩
  · have hfetched := hP current depth path rest hqueue hdepth hlt
    have hpath : ∀ id ∈ path, P id := h.waiting (current, depth, path) (by simp [hqueue])
    have hrest : PathIds P { s with queue := rest, visited := (current, depth) :: s.visited } :=
      ⟨h.entries, fun e he => h.waiting e (by simp [hqueue, he])⟩
    unfold Traversal.expand
    refine List.foldlRecOn _ _ (List.foldlRecOn _ _ hrest ?_) ?_
    · intro s hs fact hfact
      exact hs.record _ _ _ hpath _ _ _ (hfetched fact (List.mem_append_left _ hfact))
    · intro s hs fact hfact
      exact hs.record _ _ _ hpath _ _ _ (hfetched fact (List.mem_append_right _ hfact))

theorem OwnFacts.record {s : Traversal} (h : OwnFacts s) (validAt : Option Instant)
    (current : UUID) (depth : Nat) (path : List UUID) (subjectName objectName : List Char)
    (next : UUID) (fact : KnowledgeFact) :
    OwnFacts (s.record validAt current depth path subjectName objectName next fact) := by
  intro r hr
  rcases s.record_cases validAt current depth path subjectName objectName next fact with
    ⟨heq, -⟩ | ⟨-, -, heq⟩
  · exact h r (heq ▸ hr)
  · rw [heq] at hr
    rcases List.mem_append.mp hr with hr | hr
    · exact h r hr
    · obtain rfl := List.mem_singleton.mp hr
      simp

theorem OwnFacts.step {s s' : Traversal} (h : OwnFacts s)
    (hstep : s.step g q fetches = some s') : OwnFacts s' := by
  obtain ⟨current, depth, path, rest, -, -, ⟨-, rfl⟩ | ⟨-, rfl⟩⟩ := Traversal.step_cases hstep
  · exact h
  · have hrest : OwnFacts { s with queue := rest, visited := (current, depth) :: s.visited } := h
    unfold Traversal.expand
    refine List.foldlRecOn _ _ (List.foldlRecOn _ _ hrest ?_) ?_
    · exact fun s hs fact _ => hs.record _ _ _ _ _ _ _ fact
    · exact fun s hs fact _ => hs.record _ _ _ _ _ _ _ fact

theorem traverse_ownFacts (g : Graph) (q : Search) (fetches : Fetches) (seedId : UUID) :
    OwnFacts (traverse g q fetches seedId) :=
  Iteration.run_preserves OwnFacts (fun _ _ h hs => h.step hs) _ _ (List.forall_mem_nil _)

structure Expands (g : Graph) (q : Search) (fetches : Fetches) (seedId : UUID) (s : Traversal)
    (current : UUID) : Prop where
  reached : Iteration.Reaches (Traversal.step g q fetches) (.start seedId) s
  next : ∃ depth path rest, s.queue = (current, depth, path) :: rest ∧
    (depth : Int) ≤ q.maxDepth
  below : s.results.length < graphTraversalMaxFacts

theorem listed_of_fetched {seedId current : UUID} {s : Traversal}
    (h : Expands g q fetches seedId s current) {f : KnowledgeFact}
    (hf : f ∈ s.fetched g q fetches current) (hvalid : isTemporalValid f q.validAt = true) :
    Listed f.factId (traverse g q fetches seedId) := by
  obtain ⟨depth, path, rest, hq, hdepth⟩ := h.next
  have hseen : SeenListed s := by
    refine h.reached.preserves SeenListed ?_ fun _ _ hk => absurd hk List.not_mem_nil
    intro t t' ht hstep
    obtain ⟨c, d, p, r, -, -, ⟨-, rfl⟩ | ⟨-, rfl⟩⟩ := Traversal.step_cases hstep
    · exact ht
    · have hrest : SeenListed { t with queue := r, visited := (c, d) :: t.visited } := ht
      rw [expand_eq]
      exact (listed_recordAll _ _ _ _ _ _ _ _ (listed_recordAll _ _ _ _ _ _ _ _ hrest).1).1
  have hstep : s.step g q fetches =
      some (Traversal.expand g q fetches current depth path { s with queue := rest }) := by
    simp only [Traversal.step, hq, Nat.not_le.mpr h.below, Int.not_lt.mpr hdepth, if_false]
  have hlisted : Listed f.factId
      (Traversal.expand g q fetches current depth path { s with queue := rest }) := by
    have hrest : SeenListed { s with queue := rest, visited := (current, depth) :: s.visited } :=
      hseen
    rw [expand_eq]
    rcases List.mem_append.mp hf with hf | hf
    · exact ((listed_recordAll _ _ _ _ _ _ _ _ hrest).2 f hf hvalid).recordAll ..
    · exact (listed_recordAll _ _ _ _ _ _ _ _
        (listed_recordAll _ _ _ _ _ _ _ _ hrest).1).2 f hf hvalid
  refine (reaches_traverse (h.reached.tail hstep)).preserves (Listed f.factId) ?_ hlisted
  intro t t' ht hstep'
  obtain ⟨c, d, p, r, -, -, ⟨-, rfl⟩ | ⟨-, rfl⟩⟩ := Traversal.step_cases hstep'
  · exact ht
  · have hrest : Listed f.factId { t with queue := r, visited := (c, d) :: t.visited } := ht
    rw [expand_eq]
    exact (hrest.recordAll ..).recordAll ..

theorem evidence_paths_iff (hvalid : q.validAt = none) {sc : Scoring} {fetches : Nat → Fetches}
    {seedEntities : List CanonicalEntity} {evidence : List Evidence}
    (hevidence : retrieveEvidence sc g q fetches seedEntities = some evidence) :
    (∀ e ∈ evidence, ∀ id ∈ e.graphPathFactIds, P id) ↔
      ∀ i seed, seedEntities[i]? = some seed →
        ∀ s current, Expands g q (fetches i) seed.entityId s current →
          ∀ f ∈ s.fetched g q (fetches i) current, P f.factId := by
  constructor
  · intro hall i seed hseed s current hexpands f hf
    obtain ⟨r, hr, hid⟩ := listed_of_fetched hexpands hf (by simp [hvalid, isTemporalValid])
    have hmem := mem_allEntries hseed hr
    obtain ⟨e, he, heid⟩ := evidence_of_entry hevidence hmem
    obtain ⟨k, first, hfirst, rfl⟩ := (mem_retrieveEvidence hevidence).mp he
    obtain ⟨j, seed', hseed', hfirst'⟩ := firstEntry_allEntries hfirst
    have hown := traverse_ownFacts g q (fetches j) seed'.entityId first (firstEntry_some hfirst').1
    exact (heid.trans hid) ▸ hall _ he _ hown
  · intro hfetched e he
    obtain ⟨k, r, hfirst, rfl⟩ := (mem_retrieveEvidence hevidence).mp he
    obtain ⟨i, seed, hseed, hfirst⟩ := firstEntry_allEntries hfirst
    have hpaths : ∀ s, Iteration.Reaches (Traversal.step g q (fetches i)) (.start seed.entityId) s →
        PathIds P s := by
      intro s hs
      induction hs with
      | refl =>
        refine ⟨List.forall_mem_nil _, fun e he => ?_⟩
        obtain rfl := List.mem_singleton.mp he
        exact List.forall_mem_nil _
      | tail hs hstep ih =>
        refine ih.step (fun current depth path rest hq hdepth hlt => ?_) hstep
        exact hfetched i seed hseed _ current ⟨hs, ⟨depth, path, rest, hq, hdepth⟩, hlt⟩
    exact (hpaths _ (Iteration.reaches_run _ _)).entries r (firstEntry_some hfirst).1

end Paths

/-- The facts on the paths of the graph evidence for the request are those of the time. -/
def ShowsCurrentOnly (cfg : HybridRetrievalConfig) (req : HybridRequest) (now : Instant) : Prop :=
  ∀ evidence, cfg.graphEvidence req (cfg.planOf req) = .ok evidence →
    ∀ e ∈ evidence, ∀ id ∈ e.graphPathFactIds,
      ∀ f, cfg.graph.facts.get? id = some f → CurrentAt now f

/-- Where the plan looks at the graph, the queries of its traversals bring current facts only,
unless the call raises. -/
def FetchesCurrentOnly (cfg : HybridRetrievalConfig) (req : HybridRequest) (now : Instant) : Prop :=
  (cfg.planOf req).strategy = .graph ∨ (cfg.planOf req).strategy = .hybrid →
    cfg.ReachedScored req →
    ∀ i seed, (cfg.resolveEntities (cfg.planOf req))[i]? = some seed →
      ∀ s current, Expands cfg.graph (HybridRetrievalConfig.graphSearch req (cfg.planOf req))
        (cfg.fetches i) seed.entityId s current →
        ∀ f ∈ s.fetched cfg.graph (HybridRetrievalConfig.graphSearch req (cfg.planOf req))
          (cfg.fetches i) current, CurrentAt now f

theorem showsCurrentOnly_iff (cfg : HybridRetrievalConfig) (req : HybridRequest) (now : Instant) :
    ShowsCurrentOnly cfg req now ↔ FetchesCurrentOnly cfg req now := by
  unfold ShowsCurrentOnly FetchesCurrentOnly HybridRetrievalConfig.graphEvidence
  have hstored : ∀ i s current, ∀ f ∈ Traversal.fetched cfg.graph
      (HybridRetrievalConfig.graphSearch req (cfg.planOf req)) (cfg.fetches i) s current,
      cfg.graph.facts.get? f.factId = some f := by
    intro i s current f hf
    rcases List.mem_append.mp hf with hf | hf
    · exact stored_of_mem_findFacts hf
    · exact stored_of_mem_findFacts hf
  have hscored : (retrieveEvidence cfg.scoring cfg.graph
      (HybridRetrievalConfig.graphSearch req (cfg.planOf req)) cfg.fetches
      (cfg.resolveEntities (cfg.planOf req))).isSome = true ↔ cfg.ReachedScored req :=
    retrieveEvidence_isSome_iff _ _ _
  by_cases hgraph : (cfg.planOf req).strategy = .graph ∨ (cfg.planOf req).strategy = .hybrid
  · by_cases hentities : (cfg.planOf req).entities = []
    · have hresolved : cfg.resolveEntities (cfg.planOf req) = [] := by
        simp [HybridRetrievalConfig.resolveEntities, hentities]
      rw [if_neg fun hboth => hboth.2 hentities, hresolved]
      simp
    · rw [if_pos ⟨hgraph, hentities⟩, ← hscored]
      simp only [hgraph, true_imp_iff]
      cases hreturned : retrieveEvidence cfg.scoring cfg.graph
          (HybridRetrievalConfig.graphSearch req (cfg.planOf req)) cfg.fetches
          (cfg.resolveEntities (cfg.planOf req)) with
      | none => simp
      | some evidence =>
        simp only [Except.ok.injEq, forall_eq', Option.isSome_some, true_imp_iff]
        rw [evidence_paths_iff rfl hreturned]
        refine forall_congr' fun i => forall_congr' fun seed => forall_congr' fun _ =>
          forall_congr' fun s => forall_congr' fun current => forall_congr' fun _ =>
          forall_congr' fun f => forall_congr' fun hf => ?_
        constructor
        · intro hcurrent
          exact hcurrent f (hstored i s current f hf)
        · intro hcurrent f' hf'
          rw [hstored i s current f hf] at hf'
          exact Option.some.inj hf' ▸ hcurrent
  · rw [if_neg fun hboth => hgraph hboth.1]
    simp [hgraph]

theorem open_start (validTo : Option Instant) : ∀ f t : Instant, (none : Option Instant) = some f →
    validTo = some t → f < t := by
  intro f t h
  cases h

def expiredGraph : Graph :=
  { sampleGraph with
    facts := ⟨[{ sampleFact 10 1 2 "t" with validTo := some 5, temporal := open_start _ }],
      by decide⟩ }

def adaService : HybridRetrievalConfig :=
  { plainService with
    graph := expiredGraph
    extractEntities := fun _ _ _ => [⟨1, "Ada", "person"⟩] }

theorem showsCurrentOnly_fails : ¬ ∀ (cfg : HybridRetrievalConfig) (req : HybridRequest)
    (now : Instant), ShowsCurrentOnly cfg req now := by
  intro h
  have hpaths : ((adaService.graphEvidence dependsQuestion
      (adaService.planOf dependsQuestion)).toOption.map fun evidence =>
        evidence.map Evidence.graphPathFactIds) = some [[10]] := by
    decide
  cases hevidence : adaService.graphEvidence dependsQuestion
      (adaService.planOf dependsQuestion) with
  | error e => simp [hevidence, Except.toOption] at hpaths
  | ok evidence =>
    simp only [hevidence, Except.toOption, Option.map_some, Option.some.injEq] at hpaths
    obtain ⟨e, he, hpath⟩ := List.exists_of_mem_map (hpaths ▸ List.mem_singleton.mpr rfl :
      [10] ∈ evidence.map Evidence.graphPathFactIds)
    exact absurd ((h adaService dependsQuestion 10 evidence hevidence e he 10
      (hpath ▸ List.mem_singleton.mpr rfl) _ rfl).lasting 5 rfl) (by decide)

end GroundGraph.Retrieval

import GroundGraph.Library.EdgeTraversal
import GroundGraph.Retrieval.GraphVisibility

/-! Graph evidence depends on nothing but what may be seen: two graphs that agree on
the visible facts and on the entities give the same evidence, whatever order their
rows come in, as long as no query is cut short and no traversal stops early. The path
to a fact is one of several equally short ones, and which one is up to the order.
-/

set_option autoImplicit false

namespace GroundGraph.Retrieval

open GroundGraph.Knowledge GroundGraph.Neo4j EdgeTraversal

structure AgreeOnVisible (tenant principal : String) (validAt : Option Instant) (g₁ g₂ : Graph) :
    Prop where
  entities : ∀ id, getEntity g₁ id = getEntity g₂ id
  facts : ∀ f, Visible tenant principal validAt f →
    (g₁.facts.get? f.factId = some f ↔ g₂.facts.get? f.factId = some f)
  subjectOf : ∀ f, Visible tenant principal validAt f → g₁.facts.get? f.factId = some f →
    ∀ s, (s, f.factId) ∈ g₁.subjectOf ↔ (s, f.factId) ∈ g₂.subjectOf
  object : ∀ f, Visible tenant principal validAt f → g₁.facts.get? f.factId = some f →
    ∀ o, (f.factId, o) ∈ g₁.object ↔ (f.factId, o) ∈ g₂.object

/-- The traversal did not stop early, and no query it sent had more rows than come back. -/
def Traversal.Uncapped (g : Graph) (q : Search) (s : Traversal) : Prop :=
  s.results.length < graphTraversalMaxFacts ∧
    ∀ e ∈ s.visited, (g.factRows.filter (q.asSubject e.1).admits).length ≤ findFactsLimit ∧
      (g.factRows.filter (q.asObject e.1).admits).length ≤ findFactsLimit

def Uncapped (g : Graph) (q : Search) : (Nat → Fetches) → List CanonicalEntity → Prop
  | _, [] => True
  | fetches, entity :: rest =>
    (traverse g q (fetches 0) entity.entityId).Uncapped g q ∧
      Uncapped g q (fun i => fetches (i + 1)) rest

def Evidence.withoutPath (e : Evidence) : Evidence := { e with graphPathFactIds := [] }

def Evidence.withoutPathAndContent (e : Evidence) : Evidence :=
  { e with graphPathFactIds := [], content := [] }

def edgesAsSubject (validAt : Option Instant) (facts : List KnowledgeFact) : List (UUID × UUID) :=
  (facts.filter fun f => isTemporalValid f validAt).map fun f => (f.factId, f.objectId)

def edgesAsObject (validAt : Option Instant) (facts : List KnowledgeFact) : List (UUID × UUID) :=
  (facts.filter fun f => isTemporalValid f validAt).map fun f => (f.factId, f.subjectId)

/-- The edges that the queries about the `t`-th visited node find. -/
def fetchedEdges (g : Graph) (q : Search) (fetches : Fetches) (t : Nat) (n : UUID) :
    List (UUID × UUID) :=
  edgesAsSubject q.validAt (findFacts g (q.asSubject n) (fetches.asSubject t)) ++
    edgesAsObject q.validAt (findFacts g (q.asObject n) (fetches.asObject t))

structure InStep (s : Traversal) (t : Frontier UUID UUID) : Prop where
  queue : t.queue = s.queue.map fun e => (e.1, e.2.1)
  seen : t.marks.map (fun m => (m.node, m.label)) = s.seenEntityFacts
  results : t.marks.map (fun m => (m.label, m.depth)) =
    s.results.map fun r => (r.fact.factId, r.depth)
  visited : t.expanded = s.visited

theorem InStep.marked_iff {s : Traversal} {t : Frontier UUID UUID} (h : InStep s t) (n k : UUID) :
    t.Marked n k ↔ (n, k) ∈ s.seenEntityFacts := by
  rw [← h.seen]
  simp [Frontier.Marked]

theorem InStep.length_eq {s : Traversal} {t : Frontier UUID UUID} (h : InStep s t) :
    t.marks.length = s.results.length := by
  simpa using congrArg List.length h.results

theorem InStep.record {s : Traversal} {t : Frontier UUID UUID} (h : InStep s t)
    (validAt : Option Instant) (current : UUID) (depth : Nat) (path : List UUID)
    (subjectName objectName : List Char) (next : UUID) (fact : KnowledgeFact) :
    InStep (s.record validAt current depth path subjectName objectName next fact)
      (if isTemporalValid fact validAt then offer current depth t (fact.factId, next) else t) := by
  rcases s.record_cases validAt current depth path subjectName objectName next fact with
    ⟨heq, hseen | hvalid⟩ | ⟨hseen, hvalid, heq⟩
  · rw [heq, offer, if_pos ((h.marked_iff _ _).mpr hseen), ite_self]
    exact h
  · rw [heq, hvalid]
    exact h
  · rw [heq, if_pos hvalid, offer, if_neg (mt (h.marked_iff _ _).mp hseen)]
    exact ⟨by simp [h.queue], by simp [h.seen], by simp [h.results], h.visited⟩

theorem InStep.foldl {s : Traversal} {t : Frontier UUID UUID} (h : InStep s t)
    (validAt : Option Instant) (current : UUID) (depth : Nat)
    (look : Traversal → KnowledgeFact → Traversal) (other : KnowledgeFact → UUID)
    (hlook : ∀ s t fact, InStep s t → InStep (look s fact)
      (if isTemporalValid fact validAt then offer current depth t (fact.factId, other fact) else t))
    (facts : List KnowledgeFact) :
    InStep (facts.foldl look s)
      (((facts.filter fun f => isTemporalValid f validAt).map fun f => (f.factId, other f)).foldl
        (offer current depth) t) := by
  induction facts generalizing s t with
  | nil => exact h
  | cons fact facts ih =>
    have hnext := ih (hlook s t fact h)
    by_cases hvalid : isTemporalValid fact validAt = true
    · simpa [hvalid] using hnext
    · simpa [hvalid] using hnext

variable {g : Graph} {q : Search} {fetches : Fetches}

theorem InStep.expand {s : Traversal} {t : Frontier UUID UUID} (h : InStep s t) (current : UUID)
    (depth : Nat) (path : List UUID) :
    InStep (s.expand g q fetches current depth path)
      (EdgeTraversal.expand (fetchedEdges g q fetches) current depth t) := by
  unfold Traversal.expand EdgeTraversal.expand fetchedEdges
  rw [h.visited, List.foldl_append]
  have hvisit : InStep { s with visited := (current, depth) :: s.visited }
      { t with expanded := (current, depth) :: s.visited } := ⟨h.queue, h.seen, h.results, rfl⟩
  have hsubject := hvisit.foldl q.validAt current depth
    (Traversal.recordAsSubject g q.validAt current depth path) (fun f => f.objectId)
    (fun _ _ fact hst => hst.record _ _ _ _ _ _ _ fact)
    (findFacts g (q.asSubject current) (fetches.asSubject s.visited.length))
  exact hsubject.foldl q.validAt current depth
    (Traversal.recordAsObject g q.validAt current depth path) (fun f => f.subjectId)
    (fun _ _ fact hst => hst.record _ _ _ _ _ _ _ fact)
    (findFacts g (q.asObject current) (fetches.asObject s.visited.length))

theorem InStep.step {s : Traversal} {t : Frontier UUID UUID} (h : InStep s t) (g : Graph)
    (q : Search) (fetches : Fetches) :
    Option.Rel InStep (s.step g q fetches)
      (EdgeTraversal.step (fetchedEdges g q fetches) q.maxDepth graphTraversalMaxFacts t) := by
  unfold Traversal.step EdgeTraversal.step
  rw [h.queue, h.length_eq]
  cases hq : s.queue with
  | nil => exact .none
  | cons e rest =>
    obtain ⟨current, depth, path⟩ := e
    have hrest : InStep { s with queue := rest }
        { t with queue := rest.map fun e => (e.1, e.2.1) } := ⟨rfl, h.seen, h.results, h.visited⟩
    simp only [List.map_cons]
    split
    · exact .none
    · split
      · exact .some hrest
      · exact .some (hrest.expand current depth path)

theorem traverse_inStep (g : Graph) (q : Search) (fetches : Fetches) (seedId : UUID) :
    InStep (traverse g q fetches seedId)
      (EdgeTraversal.loop (fetchedEdges g q fetches) q.maxDepth graphTraversalMaxFacts
        graphTraversalMaxFacts (EdgeTraversal.start seedId)) :=
  Iteration.run_related InStep (fun _ _ h => h.step g q fetches) graphTraversalMaxFacts _ _
    ⟨rfl, rfl, rfl, rfl⟩

/-- The passes that `traverse` has are enough: no further one would be taken. -/
theorem step_traverse (g : Graph) (q : Search) (fetches : Fetches) (seedId : UUID) :
    (traverse g q fetches seedId).step g q fetches = none := by
  have hstep := (traverse_inStep g q fetches seedId).step g q fetches
  have hend := step_loop_eq_none (fetchedEdges g q fetches) q.maxDepth graphTraversalMaxFacts
    graphTraversalMaxFacts (EdgeTraversal.start seedId) 0 (by omega) (by simp [EdgeTraversal.start])
  rw [hend] at hstep
  generalize (traverse g q fetches seedId).step g q fetches = x at hstep
  cases hstep
  rfl

def matching (g : Graph) (filter : FactFilter) : List KnowledgeFact :=
  (g.factRows.filter filter.admits).map FactRow.fact

theorem mem_matching {filter : FactFilter} {f : KnowledgeFact} :
    f ∈ matching g filter ↔ ∃ row ∈ g.factRows, filter.admits row = true ∧ row.fact = f := by
  simp [matching, and_assoc]

theorem findFacts_perm {filter : FactFilter} (order : RowOrder)
    (hlimit : (g.factRows.filter filter.admits).length ≤ findFactsLimit) :
    (findFacts g filter order).Perm (matching g filter) := by
  have hperm := order.perm (g.factRows.filter filter.admits)
  unfold findFacts
  rw [List.take_of_length_le (by rw [hperm.length_eq]; exact hlimit)]
  exact hperm.map FactRow.fact

/-- Where the fact `k` leads from the node `n`: first as its subject, then as its object. -/
def edge (g : Graph) (q : Search) (n k : UUID) : Option UUID :=
  firstOf (edgesAsSubject q.validAt (matching g (q.asSubject n)) ++
    edgesAsObject q.validAt (matching g (q.asObject n))) k

theorem firstOf_edges_congr {validAt : Option Instant} {other : KnowledgeFact → UUID}
    {facts facts' : List KnowledgeFact}
    (hmem : ∀ f, isTemporalValid f validAt = true → (f ∈ facts ↔ f ∈ facts'))
    (hstored : ∀ f ∈ facts, g.facts.get? f.factId = some f) (k : UUID) :
    firstOf ((facts.filter fun f => isTemporalValid f validAt).map fun f => (f.factId, other f)) k =
      firstOf ((facts'.filter fun f => isTemporalValid f validAt).map
        fun f => (f.factId, other f)) k := by
  refine firstOf_congr ?_ ?_ k
  · intro e
    simp only [List.mem_map, List.mem_filter]
    refine exists_congr fun f => and_congr_left fun _ => and_congr_left fun hvalid => hmem f hvalid
  · intro k m m' h h'
    obtain ⟨f, hf, heq⟩ := List.mem_map.mp h
    obtain ⟨f', hf', heq'⟩ := List.mem_map.mp h'
    have hget := hstored f (List.mem_filter.mp hf).1
    have hget' := hstored f' (List.mem_filter.mp hf').1
    rw [(Prod.mk.inj heq).1] at hget
    rw [(Prod.mk.inj heq').1, hget] at hget'
    rw [← (Prod.mk.inj heq).2, ← (Prod.mk.inj heq').2, Option.some.inj hget']

theorem stored_of_mem_matching {filter : FactFilter} :
    ∀ f ∈ matching g filter, g.facts.get? f.factId = some f := by
  intro f hf
  obtain ⟨row, hrow, _, rfl⟩ := mem_matching.mp hf
  exact (mem_factRows.mp hrow).2.2.1

theorem fetchedEdges_eq_edge {n : UUID}
    (hsubject : (g.factRows.filter (q.asSubject n).admits).length ≤ findFactsLimit)
    (hobject : (g.factRows.filter (q.asObject n).admits).length ≤ findFactsLimit) (t : Nat)
    (k : UUID) : firstOf (fetchedEdges g q fetches t n) k = edge g q n k := by
  have hs := findFacts_perm (fetches.asSubject t) hsubject
  have ho := findFacts_perm (fetches.asObject t) hobject
  unfold fetchedEdges edge
  rw [firstOf_append, firstOf_append]
  refine congrArg₂ Option.or ?_ ?_
  · refine firstOf_edges_congr (g := g) (fun f _ => hs.mem_iff) ?_ k
    exact fun f hf => stored_of_mem_matching f (hs.mem_iff.mp hf)
  · refine firstOf_edges_congr (g := g) (fun f _ => ho.mem_iff) ?_ k
    exact fun f hf => stored_of_mem_matching f (ho.mem_iff.mp hf)

variable {tenant principal : String} {g₁ g₂ : Graph}

theorem AgreeOnVisible.symm {validAt : Option Instant}
    (h : AgreeOnVisible tenant principal validAt g₁ g₂) :
    AgreeOnVisible tenant principal validAt g₂ g₁ :=
  ⟨fun id => (h.entities id).symm, fun f hf => (h.facts f hf).symm,
    fun f hf hget s => (h.subjectOf f hf ((h.facts f hf).mpr hget) s).symm,
    fun f hf hget o => (h.object f hf ((h.facts f hf).mpr hget) o).symm⟩

theorem AgreeOnVisible.mem_factRows {validAt : Option Instant}
    (h : AgreeOnVisible tenant principal validAt g₁ g₂) {row : FactRow} (hrow : row ∈ g₁.factRows)
    (hvisible : Visible tenant principal validAt row.fact) : row ∈ g₂.factRows := by
  obtain ⟨hsubject, hobject, hget, hs, ho⟩ := Neo4j.mem_factRows.mp hrow
  have hentity : ∀ id, g₁.hasEntity id = g₂.hasEntity id :=
    fun id => congrArg Option.isSome (h.entities id)
  exact Neo4j.mem_factRows.mpr ⟨(h.subjectOf _ hvisible hget _).mp hsubject,
    (h.object _ hvisible hget _).mp hobject, (h.facts _ hvisible).mp hget,
    hentity _ ▸ hs, hentity _ ▸ ho⟩

theorem AgreeOnVisible.mem_matching (hq : q.RunsFor tenant principal)
    (h : AgreeOnVisible tenant principal q.validAt g₁ g₂) (n : UUID) (f : KnowledgeFact)
    (hvalid : isTemporalValid f q.validAt = true) :
    (f ∈ matching g₁ (q.asSubject n) → f ∈ matching g₂ (q.asSubject n)) ∧
      (f ∈ matching g₁ (q.asObject n) → f ∈ matching g₂ (q.asObject n)) := by
  constructor
  · intro hf
    obtain ⟨row, hrow, hadmits, rfl⟩ := Retrieval.mem_matching.mp hf
    have hvisible := (hq.asSubject_iff.mp ⟨hadmits, hvalid⟩).2.2
    exact Retrieval.mem_matching.mpr ⟨row, h.mem_factRows hrow hvisible, hadmits, rfl⟩
  · intro hf
    obtain ⟨row, hrow, hadmits, rfl⟩ := Retrieval.mem_matching.mp hf
    have hvisible := (hq.asObject_iff.mp ⟨hadmits, hvalid⟩).2.2
    exact Retrieval.mem_matching.mpr ⟨row, h.mem_factRows hrow hvisible, hadmits, rfl⟩

theorem AgreeOnVisible.edge_eq (hq : q.RunsFor tenant principal)
    (h : AgreeOnVisible tenant principal q.validAt g₁ g₂) : edge g₁ q = edge g₂ q := by
  funext n k
  unfold edge
  rw [firstOf_append, firstOf_append]
  refine congrArg₂ Option.or ?_ ?_
  · refine firstOf_edges_congr (g := g₁) ?_ stored_of_mem_matching k
    exact fun f hvalid => ⟨(h.mem_matching hq n f hvalid).1, (h.symm.mem_matching hq n f hvalid).1⟩
  · refine firstOf_edges_congr (g := g₁) ?_ stored_of_mem_matching k
    exact fun f hvalid => ⟨(h.mem_matching hq n f hvalid).2, (h.symm.mem_matching hq n f hvalid).2⟩

theorem firstEntry_depth {seedId : UUID} (k : UUID) :
    ((firstEntry k (traverse g q fetches seedId).results).map FactWithNames.depth) =
      ((EdgeTraversal.loop (fetchedEdges g q fetches) q.maxDepth graphTraversalMaxFacts
        graphTraversalMaxFacts (EdgeTraversal.start seedId)).marks.find?
          fun m => decide (m.label = k)).map Mark.depth := by
  have hsim := (traverse_inStep g q fetches seedId).results
  have hfind := congrArg (fun l => (l.find? fun p => decide (p.1 = k)).map Prod.snd) hsim
  simp only [List.find?_map, Option.map_map, Function.comp_def] at hfind
  exact hfind.symm

theorem firstEntry_depth_eq_some_iff {seedId : UUID}
    (hcap : (traverse g q fetches seedId).Uncapped g q) (k : UUID) (d : Nat) :
    ((firstEntry k (traverse g q fetches seedId).results).map FactWithNames.depth = some d) ↔
      IsLeast {d | Reaches (edge g q) seedId q.maxDepth k d} d := by
  have hsim := traverse_inStep g q fetches seedId
  rw [firstEntry_depth]
  refine firstDepth_eq_some_iff (by rw [hsim.length_eq]; exact hcap.1) ?_ k d
  intro e he t k
  rw [hsim.visited] at he
  exact fetchedEdges_eq_edge (hcap.2 e he).1 (hcap.2 e he).2 t k

def SameFact (a b : Option FactWithNames) : Prop :=
  a.map (fun r => (r.fact, r.depth)) = b.map fun r => (r.fact, r.depth)

theorem sameFact_traverse (hq : q.RunsFor tenant principal)
    (h : AgreeOnVisible tenant principal q.validAt g₁ g₂) {fetches₁ fetches₂ : Fetches}
    {seedId : UUID} (hcap₁ : (traverse g₁ q fetches₁ seedId).Uncapped g₁ q)
    (hcap₂ : (traverse g₂ q fetches₂ seedId).Uncapped g₂ q) (k : UUID) :
    SameFact (firstEntry k (traverse g₁ q fetches₁ seedId).results)
      (firstEntry k (traverse g₂ q fetches₂ seedId).results) := by
  have hdepth : (firstEntry k (traverse g₁ q fetches₁ seedId).results).map FactWithNames.depth =
      (firstEntry k (traverse g₂ q fetches₂ seedId).results).map FactWithNames.depth := by
    ext d
    rw [firstEntry_depth_eq_some_iff hcap₁, firstEntry_depth_eq_some_iff hcap₂, h.edge_eq hq]
  have hsound₁ := (traverse_sound g₁ fetches₁ hq seedId).entries
  have hsound₂ := (traverse_sound g₂ fetches₂ hq seedId).entries
  unfold SameFact
  cases h₁ : firstEntry k (traverse g₁ q fetches₁ seedId).results with
  | none =>
    cases h₂ : firstEntry k (traverse g₂ q fetches₂ seedId).results with
    | none => rfl
    | some r₂ => simp [h₁, h₂] at hdepth
  | some r₁ =>
    cases h₂ : firstEntry k (traverse g₂ q fetches₂ seedId).results with
    | none => simp [h₁, h₂] at hdepth
    | some r₂ =>
      obtain ⟨hmem₁, hid₁⟩ := firstEntry_some h₁
      obtain ⟨hmem₂, hid₂⟩ := firstEntry_some h₂
      have hget₁ := (h.facts _ (hsound₁ r₁ hmem₁).visible).mp (hsound₁ r₁ hmem₁).stored
      have hget₂ := (hsound₂ r₂ hmem₂).stored
      rw [hid₁] at hget₁
      rw [hid₂, hget₁] at hget₂
      rw [h₁, h₂] at hdepth
      simp only [Option.map_some, Option.some.injEq] at hdepth hget₂ ⊢
      rw [hget₂, hdepth]

theorem sameFact_allEntries (hq : q.RunsFor tenant principal)
    (h : AgreeOnVisible tenant principal q.validAt g₁ g₂) {seedEntities : List CanonicalEntity}
    {fetches₁ fetches₂ : Nat → Fetches} (hcap₁ : Uncapped g₁ q fetches₁ seedEntities)
    (hcap₂ : Uncapped g₂ q fetches₂ seedEntities) (k : UUID) :
    SameFact (firstEntry k (allEntries g₁ q fetches₁ seedEntities))
      (firstEntry k (allEntries g₂ q fetches₂ seedEntities)) := by
  induction seedEntities generalizing fetches₁ fetches₂ with
  | nil => rfl
  | cons entity rest ih =>
    have hhead := sameFact_traverse hq h hcap₁.1 hcap₂.1 k
    have htail := ih hcap₁.2 hcap₂.2
    unfold SameFact at hhead htail ⊢
    simp only [firstEntry, allEntries, List.find?_append, Option.map_or] at hhead htail ⊢
    rw [hhead, htail]

theorem SameFact.exists_right {a b : Option FactWithNames} (h : SameFact a b) {r : FactWithNames}
    (hr : a = some r) : ∃ r', b = some r' ∧ r.fact = r'.fact ∧ r.depth = r'.depth := by
  rw [SameFact, hr, Option.map_some, eq_comm] at h
  obtain ⟨r', hr', heq⟩ := Option.map_eq_some_iff.mp h
  exact ⟨r', hr', (Prod.mk.inj heq).1.symm, (Prod.mk.inj heq).2.symm⟩

theorem AllScored.agree (hq : q.RunsFor tenant principal)
    (h : AgreeOnVisible tenant principal q.validAt g₁ g₂) {sc : Scoring}
    {seedEntities : List CanonicalEntity} {fetches₁ fetches₂ : Nat → Fetches}
    (hcap₁ : Uncapped g₁ q fetches₁ seedEntities) (hcap₂ : Uncapped g₂ q fetches₂ seedEntities)
    (hscored : AllScored sc g₁ q fetches₁ seedEntities) :
    AllScored sc g₂ q fetches₂ seedEntities := by
  intro r₂ hr₂
  obtain ⟨first, hfirst, hfact⟩ := exists_firstEntry hr₂
  obtain ⟨r₁, h₁, hsame, -⟩ :=
    (sameFact_allEntries hq h.symm hcap₂ hcap₁ r₂.fact.factId).exists_right hfirst
  rw [← hfact, hsame]
  exact hscored r₁ (firstEntry_some h₁).1

theorem mem_retrieveEvidence_agree (hq : q.RunsFor tenant principal)
    (h : AgreeOnVisible tenant principal q.validAt g₁ g₂) {sc : Scoring}
    {seedEntities : List CanonicalEntity} {fetches₁ fetches₂ : Nat → Fetches}
    (hcap₁ : Uncapped g₁ q fetches₁ seedEntities) (hcap₂ : Uncapped g₂ q fetches₂ seedEntities)
    {evidence₁ evidence₂ : List Evidence}
    (hev₁ : retrieveEvidence sc g₁ q fetches₁ seedEntities = some evidence₁)
    (hev₂ : retrieveEvidence sc g₂ q fetches₂ seedEntities = some evidence₂) {e₁ : Evidence}
    (he₁ : e₁ ∈ evidence₁) :
    ∃ e₂ ∈ evidence₂, e₁.withoutPathAndContent = e₂.withoutPathAndContent ∧
      (EdgesFollowFacts g₁ → EdgesFollowFacts g₂ → e₁.withoutPath = e₂.withoutPath) := by
  obtain ⟨k, r₁, h₁, rfl⟩ := (mem_retrieveEvidence hev₁).mp he₁
  obtain ⟨r₂, h₂, hfact, hdepth⟩ := (sameFact_allEntries hq h hcap₁ hcap₂ k).exists_right h₁
  refine ⟨_, (mem_retrieveEvidence hev₂).mpr ⟨k, r₂, h₂, rfl⟩, ?_, ?_⟩
  · simp only [Evidence.withoutPathAndContent, toEvidence, hfact]
  · intro hfollow₁ hfollow₂
    have hname : entityName g₁ = entityName g₂ := by
      funext id
      simp only [entityName, h.entities]
    have hsound₁ := allEntries_sound hq fetches₁ seedEntities r₁ (firstEntry_some h₁).1
    have hsound₂ := allEntries_sound hq fetches₂ seedEntities r₂ (firstEntry_some h₂).1
    simp only [Evidence.withoutPath, toEvidence, hsound₁.subjectName hfollow₁,
      hsound₁.objectName hfollow₁, hsound₂.subjectName hfollow₂, hsound₂.objectName hfollow₂,
      hfact, hdepth, hname]

/-- A part of the items that a call returns, as a set; `none` where the call raises. -/
def partsOf {α : Type} (part : Evidence → α) (returned : Option (List Evidence)) : Option (Set α) :=
  returned.map fun evidence => {x | x ∈ evidence.map part}

theorem retrieveEvidence_agree (hq : q.RunsFor tenant principal)
    (h : AgreeOnVisible tenant principal q.validAt g₁ g₂) {sc : Scoring}
    {seedEntities : List CanonicalEntity} {fetches₁ fetches₂ : Nat → Fetches}
    (hcap₁ : Uncapped g₁ q fetches₁ seedEntities) (hcap₂ : Uncapped g₂ q fetches₂ seedEntities)
    {α : Type} (part : Evidence → α)
    (hpart : ∀ e₁ e₂ : Evidence, e₁.withoutPathAndContent = e₂.withoutPathAndContent →
      (EdgesFollowFacts g₁ → EdgesFollowFacts g₂ → e₁.withoutPath = e₂.withoutPath) →
      part e₁ = part e₂) :
    partsOf part (retrieveEvidence sc g₁ q fetches₁ seedEntities) =
      partsOf part (retrieveEvidence sc g₂ q fetches₂ seedEntities) := by
  have hsome : (retrieveEvidence sc g₁ q fetches₁ seedEntities).isSome =
      (retrieveEvidence sc g₂ q fetches₂ seedEntities).isSome := by
    rw [Bool.eq_iff_iff, retrieveEvidence_isSome_iff, retrieveEvidence_isSome_iff]
    exact ⟨AllScored.agree hq h hcap₁ hcap₂, AllScored.agree hq h.symm hcap₂ hcap₁⟩
  cases hev₁ : retrieveEvidence sc g₁ q fetches₁ seedEntities with
  | none =>
    rw [hev₁, Option.isSome_none, eq_comm, Option.isSome_eq_false_iff, Option.isNone_iff_eq_none]
      at hsome
    rw [hsome]
  | some evidence₁ =>
    rw [hev₁, Option.isSome_some, eq_comm] at hsome
    obtain ⟨evidence₂, hev₂⟩ := Option.isSome_iff_exists.mp hsome
    rw [hev₂]
    refine congrArg some (Set.ext fun x => ⟨fun hx => ?_, fun hx => ?_⟩)
    · obtain ⟨e₁, he₁, rfl⟩ := List.mem_map.mp hx
      obtain ⟨e₂, he₂, hdata, hpath⟩ := mem_retrieveEvidence_agree hq h hcap₁ hcap₂ hev₁ hev₂ he₁
      exact List.mem_map.mpr ⟨e₂, he₂, (hpart e₁ e₂ hdata hpath).symm⟩
    · obtain ⟨e₂, he₂, rfl⟩ := List.mem_map.mp hx
      obtain ⟨e₁, he₁, hdata, hpath⟩ :=
        mem_retrieveEvidence_agree hq h.symm hcap₂ hcap₁ hev₂ hev₁ he₂
      exact List.mem_map.mpr
        ⟨e₁, he₁, hpart e₁ e₂ hdata.symm fun h₁ h₂ => (hpath h₂ h₁).symm⟩

/-- Graph evidence shows visible facts only, and it is a function of them: on graphs that agree
on these, a call raises on both, or returns on both the same. -/
theorem graphEvidence_visible (sc : Scoring) (q : Search) (tenant principal : String)
    (hq : q.RunsFor tenant principal) :
    (∀ g fetches seedEntities evidence,
      retrieveEvidence sc g q fetches seedEntities = some evidence →
      ∀ e ∈ evidence, ∀ id ∈ e.graphPathFactIds, Shown g tenant principal q.validAt id) ∧
    ∀ g₁ g₂ fetches₁ fetches₂ seedEntities, AgreeOnVisible tenant principal q.validAt g₁ g₂ →
      Uncapped g₁ q fetches₁ seedEntities → Uncapped g₂ q fetches₂ seedEntities →
      partsOf Evidence.withoutPathAndContent (retrieveEvidence sc g₁ q fetches₁ seedEntities) =
        partsOf Evidence.withoutPathAndContent (retrieveEvidence sc g₂ q fetches₂ seedEntities) ∧
      (EdgesFollowFacts g₁ → EdgesFollowFacts g₂ →
        partsOf Evidence.withoutPath (retrieveEvidence sc g₁ q fetches₁ seedEntities) =
          partsOf Evidence.withoutPath (retrieveEvidence sc g₂ q fetches₂ seedEntities)) := by
  constructor
  · intro g fetches seedEntities evidence hevidence e he
    exact path_shown hq hevidence he
  · intro g₁ g₂ fetches₁ fetches₂ seedEntities hagree hcap₁ hcap₂
    constructor
    · exact retrieveEvidence_agree hq hagree hcap₁ hcap₂ _ fun _ _ hdata _ => hdata
    · intro hfollow₁ hfollow₂
      exact retrieveEvidence_agree hq hagree hcap₁ hcap₂ _
        fun _ _ _ hpath => hpath hfollow₁ hfollow₂

def sampleEntity (id : Nat) (name : String) : CanonicalEntity :=
  { entityId := BitVec.ofNat 128 id, entityType := "person", canonicalName := name }

def sampleFact (id subject object : Nat) (tenantId : String) : KnowledgeFact where
  factId := BitVec.ofNat 128 id
  subjectId := BitVec.ofNat 128 subject
  predicate := "knows"
  objectId := BitVec.ofNat 128 object
  status := .verified
  confidence := half
  evidenceIds := [9]
  extractionMethod := .human
  ontologyVersion := "1"
  tenantId := tenantId
  allowedPrincipals := ["p"]
  confidence_unit := half_unit
  temporal := absent_bounds
  verified_evidence := verified_by_one
  observedAt := 0

def sampleGraph : Graph where
  entities := ⟨[sampleEntity 1 "Ada", sampleEntity 2 "Bob", sampleEntity 3 "Eve"], by decide⟩
  facts := ⟨[sampleFact 10 1 2 "t"], by decide⟩
  mentions := .empty
  chunks := []
  subjectOf := [(1, 10)]
  object := [(10, 2)]
  supersededBy := []
  mentionedIn := []

def sampleGraphWithHidden : Graph :=
  { sampleGraph with
    facts := ⟨[sampleFact 10 1 2 "t", sampleFact 11 2 3 "u"], by decide⟩
    subjectOf := [(1, 10), (2, 11)]
    object := [(10, 2), (11, 3)] }

def sampleSearch : Search := { tenantId := some "t", principal := some "p" }

def sampleScoring : Scoring := ⟨fun _ => 0, fun _ _ _ => ['1']⟩

def storedOrder : Fetches :=
  ⟨fun _ => ⟨id, fun _ => .refl _⟩, fun _ => ⟨List.reverse, fun rows => rows.reverse_perm⟩⟩

theorem sample_agree :
    AgreeOnVisible "t" "p" none sampleGraphWithHidden sampleGraph := by
  have hrows : ∀ f, Visible "t" "p" none f → (f ∈ sampleGraphWithHidden.facts.rows ↔
      f ∈ sampleGraph.facts.rows) := by
    intro f hf
    simp only [sampleGraphWithHidden, sampleGraph, List.mem_cons, List.not_mem_nil, or_false]
    refine ⟨fun h => h.elim id ?_, Or.inl⟩
    rintro rfl
    exact absurd hf.tenant (by decide)
  have hid : ∀ f, Visible "t" "p" none f →
      sampleGraphWithHidden.facts.get? f.factId = some f → f.factId = 10 := by
    intro f hf hget
    have hmem := (hrows f hf).mp (KeyedTable.mem_rows_iff _ |>.mpr hget)
    obtain rfl := List.mem_singleton.mp hmem
    rfl
  refine ⟨fun _ => rfl, ?_, ?_, ?_⟩
  · intro f hf
    rw [← KeyedTable.mem_rows_iff, ← KeyedTable.mem_rows_iff]
    exact hrows f hf
  · intro f hf hget s
    simp [hid f hf hget, sampleGraphWithHidden, sampleGraph]
  · intro f hf hget o
    simp [hid f hf hget, sampleGraphWithHidden, sampleGraph]

/-- From Ada on, the hidden fact changes nothing. -/
theorem graphEvidence_visible_sample :
    (retrieveEvidence sampleScoring sampleGraphWithHidden sampleSearch (fun _ => storedOrder)
      [sampleEntity 1 "Ada"]).map (List.map Evidence.graphPathFactIds) = some [[10]] ∧
    partsOf Evidence.withoutPathAndContent (retrieveEvidence sampleScoring sampleGraphWithHidden
        sampleSearch (fun _ => storedOrder) [sampleEntity 1 "Ada"]) =
      partsOf Evidence.withoutPathAndContent (retrieveEvidence sampleScoring sampleGraph
        sampleSearch (fun _ => storedOrder) [sampleEntity 1 "Ada"]) := by
  have hcap₁ : Uncapped sampleGraphWithHidden sampleSearch (fun _ => storedOrder)
      [sampleEntity 1 "Ada"] := ⟨⟨by decide, by decide⟩, trivial⟩
  have hcap₂ : Uncapped sampleGraph sampleSearch (fun _ => storedOrder)
      [sampleEntity 1 "Ada"] := ⟨⟨by decide, by decide⟩, trivial⟩
  exact ⟨by decide, ((graphEvidence_visible sampleScoring sampleSearch "t" "p"
    ⟨rfl, rfl, by decide⟩).2 _ _ _ _ _ sample_agree hcap₁ hcap₂).1⟩

end GroundGraph.Retrieval

import GroundGraph.Library.Slices
import GroundGraph.Neo4j.Projection
import GroundGraph.Retrieval.GraphVisibility

/-! One graph for all tenants, and the part of it that one reader may read. What the events and
the updates of this part make of the whole graph, they make of the part alone; the others leave
the part as it is.
-/

set_option autoImplicit false

namespace GroundGraph.Retrieval

open GroundGraph.Knowledge GroundGraph.Neo4j

structure Reader where
  tenantId : String
  principal : String
  named : principal ≠ ""

def Reader.readsFact (rd : Reader) (f : KnowledgeFact) : Bool :=
  decide (f.tenantId = rd.tenantId) &&
    (f.allowedPrincipals.isEmpty || decide (rd.principal ∈ f.allowedPrincipals))

/-- The entities are common; of the facts there are those of some ids. -/
def graphPart (own : UUID → Bool) (g : Graph) : Graph :=
  { g with
    facts := g.facts.restrict own
    subjectOf := g.subjectOf.filter fun e => own e.2
    object := g.object.filter fun e => own e.1
    supersededBy := g.supersededBy.filter fun e => own e.1 }

def ReadableFacts (rd : Reader) (own : UUID → Bool) (g : Graph) : Prop :=
  ∀ f ∈ g.facts.rows, own f.factId = rd.readsFact f

/-- A fact keeps its readers, and what takes the place of a readable fact is readable. -/
def keepsReaders (co : Conversions) (rd : Reader) (own : UUID → Bool) : GraphAction → Bool
  | .project .factCandidate payload now =>
    match factOfPayload co payload now with
    | .ok f => decide (own f.factId = rd.readsFact f)
    | .error _ => true
  | .project _ _ _ => true
  | .updateFactStatus factId _ supersededBy => !own factId || supersededBy.all own

/-- The action is about a fact with one of the ids, or about no fact. -/
def concerns (co : Conversions) (own : UUID → Bool) : GraphAction → Bool
  | .project .factCandidate payload now =>
    match factOfPayload co payload now with
    | .ok f => own f.factId
    | .error _ => true
  | .project _ _ _ => true
  | .updateFactStatus factId _ _ => own factId

section
variable {co : Conversions} {rd : Reader} {own : UUID → Bool} {g g' : Graph}

theorem filter_mergeEdge_of_pos {p : UUID × UUID → Bool} {edges : Edges} {edge : UUID × UUID}
    (h : p edge = true) : (mergeEdge edges edge).filter p = mergeEdge (edges.filter p) edge := by
  unfold mergeEdge
  by_cases hin : edge ∈ edges
  · rw [if_pos hin, if_pos (List.mem_filter.mpr ⟨hin, h⟩)]
  · rw [if_neg hin, if_neg (fun hmem => hin (List.mem_filter.mp hmem).1)]
    simp [h]

theorem filter_mergeEdge_of_neg {p : UUID × UUID → Bool} {edges : Edges} {edge : UUID × UUID}
    (h : p edge = false) : (mergeEdge edges edge).filter p = edges.filter p := by
  unfold mergeEdge
  split
  · rfl
  · simp [h]

@[simp] theorem graphPart_hasEntity (id : UUID) :
    (graphPart own g).hasEntity id = g.hasEntity id := rfl

theorem graphPart_get? {id : UUID} (h : own id = true) :
    (graphPart own g).facts.get? id = g.facts.get? id :=
  g.facts.get?_restrict h

theorem graphPart_createFact_own {f : KnowledgeFact} (h : own f.factId = true) :
    graphPart own ((createFact g f).apply g) =
      (createFact (graphPart own g) f).apply (graphPart own g) := by
  simp only [createFact, GraphWrite.apply, graphPart, Graph.hasEntity, Neo4j.Graph.mk.injEq,
    true_and, and_true]
  refine ⟨KeyedTable.restrict_upsert_of_pos g.facts h, ?_, ?_⟩
  · split
    · exact filter_mergeEdge_of_pos h
    · rfl
  · split
    · exact filter_mergeEdge_of_pos h
    · rfl

theorem graphPart_createFact_other {f : KnowledgeFact} (h : own f.factId = false) :
    graphPart own ((createFact g f).apply g) = graphPart own g := by
  simp only [createFact, GraphWrite.apply, graphPart, Neo4j.Graph.mk.injEq, true_and, and_true]
  refine ⟨KeyedTable.restrict_upsert_of_neg g.facts h, ?_, ?_⟩
  · split
    · exact filter_mergeEdge_of_neg h
    · rfl
  · split
    · exact filter_mergeEdge_of_neg h
    · rfl

theorem updateFactStatus_missing {factId : UUID} (hfact : g.facts.get? factId = none)
    (status : String) (supersededBy : Option UUID) :
    updateFactStatus g factId status supersededBy = none := by
  simp [updateFactStatus, hfact]

theorem graphPart_update_own {factId : UUID} {status : String} {supersededBy : Option UUID}
    (h : own factId = true) (hnew : ∀ new, supersededBy = some new → own new = true) :
    updateFactStatus (graphPart own g) factId status supersededBy =
      (updateFactStatus g factId status supersededBy).map (graphPart own) := by
  cases hfact : g.facts.get? factId with
  | none =>
    rw [updateFactStatus_missing hfact,
      updateFactStatus_missing ((graphPart_get? h).trans hfact)]
    rfl
  | some fact =>
    rw [updateFactStatus_eq hfact, updateFactStatus_eq ((graphPart_get? h).trans hfact)]
    cases hupdated : (FactStatus.ofText? status).bind fact.withStatus? with
    | none => rfl
    | some updated =>
      have hkey : own updated.factId = true := by
        obtain ⟨a, _, ha⟩ := Option.bind_eq_some_iff.mp hupdated
        rw [(KnowledgeFact.withStatus?_some ha).1, (g.facts.get?_some_iff.mp hfact).2]
        exact h
      have hfacts := KeyedTable.restrict_upsert_of_pos g.facts hkey
      cases supersededBy with
      | none => simp [graphPart, hfacts]
      | some new =>
        have hedges : (mergeEdge g.supersededBy (factId, new)).filter (fun e => own e.1) =
            mergeEdge (g.supersededBy.filter fun e => own e.1) (factId, new) :=
          filter_mergeEdge_of_pos h
        have hget : (graphPart own g).facts.get? new = g.facts.get? new :=
          graphPart_get? (hnew new rfl)
        simp only [Option.bind_some, Option.all_some, hget]
        split
        · simp [graphPart, hfacts, hedges]
        · rfl

theorem graphPart_update_other {factId : UUID} {status : String} {supersededBy : Option UUID}
    (h : own factId = false) (hupdate : updateFactStatus g factId status supersededBy = some g') :
    graphPart own g' = graphPart own g := by
  cases hfact : g.facts.get? factId with
  | none =>
    rw [updateFactStatus_missing hfact] at hupdate
    cases hupdate
  | some fact =>
    rw [updateFactStatus_eq hfact] at hupdate
    obtain ⟨updated, hupdated, hset⟩ := Option.bind_eq_some_iff.mp hupdate
    have hkey : own updated.factId = false := by
      obtain ⟨a, _, ha⟩ := Option.bind_eq_some_iff.mp hupdated
      rw [(KnowledgeFact.withStatus?_some ha).1, (g.facts.get?_some_iff.mp hfact).2]
      exact h
    have hfacts := KeyedTable.restrict_upsert_of_neg g.facts hkey
    simp only [Option.ite_none_right_eq_some, Option.some.injEq] at hset
    obtain ⟨_, rfl⟩ := hset
    cases supersededBy with
    | none => simp [graphPart, hfacts]
    | some new =>
      have hedges : (mergeEdge g.supersededBy (factId, new)).filter (fun e => own e.1) =
          g.supersededBy.filter fun e => own e.1 :=
        filter_mergeEdge_of_neg h
      simp [graphPart, hfacts, hedges]

theorem concerns_project_fact {payload : JsonObject} {now : Instant} {f : KnowledgeFact}
    (h : factOfPayload co payload now = .ok f) :
    concerns co own (.project .factCandidate payload now) = own f.factId := by
  simp [concerns, h]

theorem ReadableFacts.upsert (h : ReadableFacts rd own g) {f : KnowledgeFact}
    (hf : own f.factId = rd.readsFact f) (hfacts : g'.facts = g.facts.upsert f) :
    ReadableFacts rd own g' := by
  intro x hx
  rw [hfacts] at hx
  rcases KeyedTable.mem_upsert hx with hx | rfl
  · exact h x hx
  · exact hf

theorem readsFact_withStatus {f f' : KnowledgeFact} {status : FactStatus}
    (h : f.withStatus? status = some f') : rd.readsFact f' = rd.readsFact f := by
  unfold KnowledgeFact.withStatus? at h
  split at h
  · obtain rfl := Option.some.inj h
    rfl
  · cases h

theorem graphStep_readableFacts {a : GraphAction} (h : ReadableFacts rd own g)
    (ha : keepsReaders co rd own a = true) (hstep : graphStep co g a = some g') :
    ReadableFacts rd own g' := by
  cases a with
  | project eventType payload now =>
    obtain ⟨_, _, rfl⟩ | ⟨write, hwrite, rfl⟩ := graphStep_project_cases hstep
    · exact h
    · obtain ⟨rfl, _⟩ | ⟨m, rfl, _⟩ | ⟨e, rfl, _⟩ | ⟨f, rfl, rfl, hf⟩ := projectEvent_ok hwrite
      · exact h
      · exact h
      · exact h
      · exact h.upsert (by simpa [keepsReaders, hf] using ha) rfl
  | updateFactStatus factId status supersededBy =>
    obtain ⟨_, rfl⟩ | hupdate := graphStep_update_cases hstep
    · exact h
    · obtain ⟨fact, a, updated, hfact, _, hupdated, hfacts, _⟩ := updateFactStatus_some hupdate
      obtain ⟨hmem, hid⟩ := g.facts.get?_some_iff.mp hfact
      refine h.upsert ?_ hfacts
      rw [readsFact_withStatus hupdated, (KnowledgeFact.withStatus?_some hupdated).1]
      exact h fact hmem

theorem graphPart_step_other {a : GraphAction} (ha : concerns co own a = false)
    (hstep : graphStep co g a = some g') : graphPart own g' = graphPart own g := by
  cases a with
  | project eventType payload now =>
    obtain ⟨_, _, rfl⟩ | ⟨write, hwrite, rfl⟩ := graphStep_project_cases hstep
    · rfl
    · obtain ⟨rfl, _⟩ | ⟨m, rfl, rfl⟩ | ⟨e, rfl, rfl, _⟩ | ⟨f, rfl, rfl, hf⟩ :=
        projectEvent_ok hwrite
      · rfl
      · cases ha
      · cases ha
      · rw [concerns_project_fact hf] at ha
        exact graphPart_createFact_other ha
  | updateFactStatus factId status supersededBy =>
    obtain ⟨_, rfl⟩ | hupdate := graphStep_update_cases hstep
    · rfl
    · exact graphPart_update_other ha hupdate

theorem projectEvent_graphPart (co : Conversions) (own : UUID → Bool) (g : Graph) (now : Instant)
    (eventType : Outbox.OutboxEventType) (payload : JsonObject) :
    projectEvent co (graphPart own g) now eventType payload =
      projectEvent co g now eventType payload := by
  cases eventType <;> rfl

theorem graphPart_step_own {a : GraphAction} (hkeeps : keepsReaders co rd own a = true)
    (ha : concerns co own a = true) (hstep : graphStep co g a = some g') :
    graphStep co (graphPart own g) a = some (graphPart own g') := by
  cases a with
  | project eventType payload now =>
    obtain ⟨e, herror, rfl⟩ | ⟨write, hwrite, rfl⟩ := graphStep_project_cases hstep
    · simp only [graphStep, projectEvent_graphPart, herror]
    · simp only [graphStep, projectEvent_graphPart, hwrite, Option.some.injEq]
      obtain ⟨rfl, _⟩ | ⟨m, rfl, rfl⟩ | ⟨e, rfl, rfl, _⟩ | ⟨f, rfl, rfl, hf⟩ :=
        projectEvent_ok hwrite
      · rfl
      · rfl
      · rfl
      · rw [concerns_project_fact hf] at ha
        exact (graphPart_createFact_own ha).symm
  | updateFactStatus factId status supersededBy =>
    obtain rfl := Option.some.inj hstep
    have hown : own factId = true := ha
    have hnew : ∀ new, supersededBy = some new → own new = true := by
      rintro new rfl
      simpa [keepsReaders, hown] using hkeeps
    simp only [graphStep, graphPart_update_own hown hnew]
    cases updateFactStatus g factId status supersededBy <;> rfl

theorem graph_slice (co : Conversions) (rd : Reader) (own : UUID → Bool) (chunks : List UUID) :
    (graphSystem co chunks).Slice (ReadableFacts rd own) (fun a => keepsReaders co rd own a = true)
      (graphPart own) (concerns co own) id where
  keeps _ _ _ h ha hstep := graphStep_readableFacts h ha hstep
  hidden _ _ _ _ _ ha hstep := graphPart_step_other ha hstep
  visible _ _ _ _ hkeeps ha hstep := graphPart_step_own hkeeps ha hstep

/-- The rows of one `SUBJECT_OF` edge. -/
def rowsOfEdge (g : Graph) (s : UUID × UUID) : List FactRow :=
  g.object.filterMap fun o =>
    if o.1 = s.2 ∧ g.hasEntity s.1 = true ∧ g.hasEntity o.2 = true then
      (g.facts.get? s.2).map fun f => ⟨s.1, f, o.2⟩
    else none

theorem factRows_eq (g : Graph) : g.factRows = g.subjectOf.flatMap (rowsOfEdge g) := rfl

theorem rowsOfEdge_factId {s : UUID × UUID} {row : FactRow} (h : row ∈ rowsOfEdge g s) :
    row.fact.factId = s.2 := by
  obtain ⟨o, _, ho⟩ := List.mem_filterMap.mp h
  simp only [Option.ite_none_right_eq_some, Option.map_eq_some_iff] at ho
  obtain ⟨_, f, hf, rfl⟩ := ho
  exact (g.facts.get?_some_iff.mp hf).2

theorem rowsOfEdge_graphPart {s : UUID × UUID} (hs : own s.2 = true) :
    rowsOfEdge (graphPart own g) s = rowsOfEdge g s := by
  simp only [rowsOfEdge, graphPart_get? hs, graphPart_hasEntity]
  rw [graphPart]
  induction g.object with
  | nil => rfl
  | cons o edges ih =>
    rw [List.filter_cons]
    split
    · rw [List.filterMap_cons, List.filterMap_cons, ih]
    · rename_i ho
      have hne : ¬ (o.1 = s.2 ∧ g.hasEntity s.1 = true ∧ g.hasEntity o.2 = true) := by
        rintro ⟨heq, _⟩
        exact ho (heq ▸ hs)
      rw [ih, List.filterMap_cons, if_neg hne]

/-- The rows of the part are the rows of the whole that are about its facts. -/
theorem factRows_graphPart :
    (graphPart own g).factRows = g.factRows.filter fun row => own row.fact.factId := by
  have hrows : ∀ edges : Edges,
      (edges.filter fun e => own e.2).flatMap (rowsOfEdge (graphPart own g)) =
        (edges.flatMap (rowsOfEdge g)).filter fun row => own row.fact.factId := by
    intro edges
    induction edges with
    | nil => rfl
    | cons s edges ih =>
      rw [List.flatMap_cons, List.filter_append, List.filter_cons]
      split
      · rename_i hs
        have hall : (rowsOfEdge g s).filter (fun row => own row.fact.factId) = rowsOfEdge g s :=
          List.filter_eq_self.mpr fun row hrow => by rw [rowsOfEdge_factId hrow]; exact hs
        rw [List.flatMap_cons, ih, hall, rowsOfEdge_graphPart hs]
      · rename_i hs
        have hnone : (rowsOfEdge g s).filter (fun row => own row.fact.factId) = [] :=
          List.filter_eq_nil_iff.mpr fun row hrow => by rw [rowsOfEdge_factId hrow]; exact hs
        rw [ih, hnone, List.nil_append]
  rw [factRows_eq, factRows_eq, ← hrows]
  rfl

variable {q : Search}

theorem Search.RunsFor.admits_own (hq : q.RunsFor rd.tenantId rd.principal)
    (h : ReadableFacts rd own g) {row : FactRow} (hrow : row ∈ g.factRows) {filter : FactFilter}
    (htenant : filter.tenantId = q.tenantId)
    (hacl : filter.allowedPrincipals = q.allowedPrincipals) (hadmits : filter.admits row = true) :
    own row.fact.factId = true := by
  have hstored := (mem_factRows.mp hrow).2.2.1
  rw [h row.fact (g.facts.get?_some_iff.mp hstored).1]
  simp only [FactFilter.admits, Bool.and_eq_true, htenant, hacl, hq.tenant_iff,
    hq.acl_iff] at hadmits
  obtain ⟨⟨_, hsame⟩, hopen⟩ := hadmits
  rcases hopen with hopen | hopen
  · simp [Reader.readsFact, hsame, hopen]
  · simp [Reader.readsFact, hsame, hopen]

theorem findFacts_graphPart (hq : q.RunsFor rd.tenantId rd.principal) (h : ReadableFacts rd own g)
    {filter : FactFilter} (htenant : filter.tenantId = q.tenantId)
    (hacl : filter.allowedPrincipals = q.allowedPrincipals) (order : RowOrder) :
    findFacts (graphPart own g) filter order = findFacts g filter order := by
  have hsame : (g.factRows.filter fun row => own row.fact.factId).filter filter.admits =
      g.factRows.filter filter.admits := by
    rw [List.filter_filter]
    refine List.filter_congr fun row hrow => ?_
    cases hadmits : filter.admits row with
    | false => rfl
    | true => simp [hq.admits_own h hrow htenant hacl hadmits]
  rw [findFacts, factRows_graphPart, hsame, findFacts]

theorem expand_graphPart (hq : q.RunsFor rd.tenantId rd.principal) (h : ReadableFacts rd own g)
    (fetches : Fetches) (current : UUID) (depth : Nat) (path : List UUID) (s : Traversal) :
    s.expand (graphPart own g) q fetches current depth path =
      s.expand g q fetches current depth path := by
  have hsubject : findFacts (graphPart own g) (q.asSubject current)
      (fetches.asSubject s.visited.length) = _ := findFacts_graphPart hq h rfl rfl _
  have hobject : findFacts (graphPart own g) (q.asObject current)
      (fetches.asObject s.visited.length) = _ := findFacts_graphPart hq h rfl rfl _
  simp only [Traversal.expand, hsubject, hobject]
  rfl

theorem traverse_graphPart (hq : q.RunsFor rd.tenantId rd.principal) (h : ReadableFacts rd own g)
    (fetches : Fetches) (seedId : UUID) :
    traverse (graphPart own g) q fetches seedId = traverse g q fetches seedId := by
  have hstep : Traversal.step (graphPart own g) q fetches = Traversal.step g q fetches := by
    funext s
    simp only [Traversal.step, expand_graphPart hq h]
  rw [traverse, hstep, traverse]

theorem collect_graphPart (hq : q.RunsFor rd.tenantId rd.principal) (h : ReadableFacts rd own g)
    (sc : Scoring) (entities : List CanonicalEntity) (fetches : Nat → Fetches) (acc : Collected) :
    collect sc (graphPart own g) q fetches entities acc = collect sc g q fetches entities acc := by
  induction entities generalizing fetches acc with
  | nil => rfl
  | cons entity rest ih =>
    rw [collect, collect, traverse_graphPart hq h]
    exact bind_congr fun acc => ih _ acc

/-- The graph shows the reader what the part alone would show. -/
theorem retrieveEvidence_graphPart (hq : q.RunsFor rd.tenantId rd.principal)
    (h : ReadableFacts rd own g) (sc : Scoring) (fetches : Nat → Fetches)
    (seedEntities : List CanonicalEntity) :
    retrieveEvidence sc (graphPart own g) q fetches seedEntities =
      retrieveEvidence sc g q fetches seedEntities := by
  rw [retrieveEvidence, retrieveEvidence, collect_graphPart hq h]

end

end GroundGraph.Retrieval

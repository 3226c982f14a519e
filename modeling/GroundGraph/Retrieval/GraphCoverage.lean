import GroundGraph.Retrieval.GraphVisibility

/-! The other side of visibility: of every node that a traversal visits, the facts that its
queries admit are among the results, and so in the evidence.
-/

set_option autoImplicit false

namespace GroundGraph.Retrieval

open GroundGraph.Knowledge GroundGraph.Neo4j

variable {g : Graph} {q : Search} {fetches : Fetches}

def Listed (factId : UUID) (s : Traversal) : Prop := ∃ r ∈ s.results, r.fact.factId = factId

def SeenListed (s : Traversal) : Prop := ∀ n k, (n, k) ∈ s.seenEntityFacts → Listed k s

theorem Listed.record {factId : UUID} {s : Traversal} (h : Listed factId s)
    (validAt : Option Instant) (current : UUID) (depth : Nat) (path : List UUID)
    (subjectName objectName : List Char) (next : UUID) (fact : KnowledgeFact) :
    Listed factId (s.record validAt current depth path subjectName objectName next fact) := by
  obtain ⟨r, hr, hid⟩ := h
  rcases s.record_cases validAt current depth path subjectName objectName next fact with
    ⟨heq, _⟩ | ⟨_, _, heq⟩
  · exact ⟨r, by rw [heq]; exact hr, hid⟩
  · exact ⟨r, by rw [heq]; exact List.mem_append_left _ hr, hid⟩

theorem listed_record {s : Traversal} (h : SeenListed s) (validAt : Option Instant) (current : UUID)
    (depth : Nat) (path : List UUID) (subjectName objectName : List Char) (next : UUID)
    (fact : KnowledgeFact) :
    SeenListed (s.record validAt current depth path subjectName objectName next fact) ∧
      (isTemporalValid fact validAt = true → Listed fact.factId
        (s.record validAt current depth path subjectName objectName next fact)) := by
  rcases s.record_cases validAt current depth path subjectName objectName next fact with
    ⟨heq, hskip⟩ | ⟨_, _, heq⟩
  · rw [heq]
    refine ⟨h, fun hvalid => ?_⟩
    rcases hskip with hseen | hinvalid
    · exact h current fact.factId hseen
    · rw [hinvalid] at hvalid
      cases hvalid
  · rw [heq]
    have hnew : Listed fact.factId
        ⟨s.results ++ [⟨fact, depth, subjectName, objectName, path ++ [fact.factId]⟩],
          s.seenEntityFacts ++ [(current, fact.factId)],
          s.queue ++ [(next, depth + 1, path ++ [fact.factId])], s.visited⟩ :=
      ⟨_, List.mem_append_right _ List.mem_cons_self, rfl⟩
    refine ⟨fun n k hseen => ?_, fun _ => hnew⟩
    rcases List.mem_append.mp hseen with hseen | hseen
    · obtain ⟨r, hr, hid⟩ := h n k hseen
      exact ⟨r, List.mem_append_left _ hr, hid⟩
    · obtain ⟨-, rfl⟩ := Prod.mk.inj (List.mem_singleton.mp hseen)
      exact hnew

def recordAll (validAt : Option Instant) (current : UUID) (depth : Nat) (path : List UUID)
    (subjectName objectName : KnowledgeFact → List Char) (next : KnowledgeFact → UUID)
    (facts : List KnowledgeFact) (s : Traversal) : Traversal :=
  facts.foldl (fun s fact => s.record validAt current depth path (subjectName fact)
    (objectName fact) (next fact) fact) s

section Loop

variable (validAt : Option Instant) (current : UUID) (depth : Nat) (path : List UUID)
  (subjectName objectName : KnowledgeFact → List Char) (next : KnowledgeFact → UUID)

theorem Listed.recordAll {factId : UUID} (facts : List KnowledgeFact) {s : Traversal}
    (h : Listed factId s) :
    Listed factId (recordAll validAt current depth path subjectName objectName next facts s) := by
  induction facts generalizing s with
  | nil => exact h
  | cons fact facts ih => exact ih (h.record validAt current depth path _ _ _ fact)

theorem listed_recordAll (facts : List KnowledgeFact) {s : Traversal} (h : SeenListed s) :
    SeenListed (recordAll validAt current depth path subjectName objectName next facts s) ∧
      ∀ fact ∈ facts, isTemporalValid fact validAt = true → Listed fact.factId
        (recordAll validAt current depth path subjectName objectName next facts s) := by
  induction facts generalizing s with
  | nil => exact ⟨h, fun _ hmem => by cases hmem⟩
  | cons first facts ih =>
    obtain ⟨hseen, hfirst⟩ := listed_record h validAt current depth path (subjectName first)
      (objectName first) (next first) first
    obtain ⟨hafter, hrest⟩ := ih hseen
    refine ⟨hafter, fun fact hmem hvalid => ?_⟩
    rcases List.mem_cons.mp hmem with rfl | hmem
    · exact (hfirst hvalid).recordAll validAt current depth path subjectName objectName next facts
    · exact hrest fact hmem hvalid

theorem visited_recordAll (facts : List KnowledgeFact) (s : Traversal) :
    (recordAll validAt current depth path subjectName objectName next facts s).visited =
      s.visited := by
  induction facts generalizing s with
  | nil => rfl
  | cons fact facts ih =>
    have hrecord : (s.record validAt current depth path (subjectName fact) (objectName fact)
        (next fact) fact).visited = s.visited := by
      rcases s.record_cases validAt current depth path (subjectName fact) (objectName fact)
        (next fact) fact with ⟨heq, _⟩ | ⟨_, _, heq⟩ <;> rw [heq]
    exact (ih _).trans hrecord

end Loop

theorem expand_eq (current : UUID) (depth : Nat) (path : List UUID) (s : Traversal) :
    Traversal.expand g q fetches current depth path s =
      recordAll q.validAt current depth path (fun fact => entityName g fact.subjectId)
        (fun _ => entityName g current) (fun fact => fact.subjectId)
        (findFacts g (q.asObject current) (fetches.asObject s.visited.length))
        (recordAll q.validAt current depth path (fun _ => entityName g current)
          (fun fact => entityName g fact.objectId) (fun fact => fact.objectId)
          (findFacts g (q.asSubject current) (fetches.asSubject s.visited.length))
          { s with visited := (current, depth) :: s.visited }) := rfl

/-- A row that one of the two queries about a node admits, with all its rows coming back. -/
def Fetched (g : Graph) (q : Search) (n : UUID) (row : FactRow) : Prop :=
  ((q.asSubject n).admits row = true ∧
      (g.factRows.filter (q.asSubject n).admits).length ≤ findFactsLimit) ∨
    ((q.asObject n).admits row = true ∧
      (g.factRows.filter (q.asObject n).admits).length ≤ findFactsLimit)

structure Covers (g : Graph) (q : Search) (s : Traversal) : Prop where
  seen : SeenListed s
  visited : ∀ e ∈ s.visited, ∀ row ∈ g.factRows, isTemporalValid row.fact q.validAt = true →
    Fetched g q e.1 row → Listed row.fact.factId s

theorem Covers.expand {s : Traversal} (h : Covers g q s) (current : UUID) (depth : Nat)
    (path : List UUID) : Covers g q (Traversal.expand g q fetches current depth path s) := by
  rw [expand_eq]
  have hstart : SeenListed { s with visited := (current, depth) :: s.visited } := h.seen
  obtain ⟨hseen, hsubject⟩ := listed_recordAll q.validAt current depth path
    (fun _ => entityName g current) (fun fact => entityName g fact.objectId) (fun fact => fact.objectId)
    (findFacts g (q.asSubject current) (fetches.asSubject s.visited.length)) hstart
  obtain ⟨hafter, hobject⟩ := listed_recordAll q.validAt current depth path
    (fun fact => entityName g fact.subjectId) (fun _ => entityName g current)
    (fun fact => fact.subjectId)
    (findFacts g (q.asObject current) (fetches.asObject s.visited.length)) hseen
  refine ⟨hafter, ?_⟩
  intro e he row hrow hvalid hfetched
  rw [visited_recordAll, visited_recordAll] at he
  rcases List.mem_cons.mp he with rfl | he
  · rcases hfetched with ⟨hadmits, hlimit⟩ | ⟨hadmits, hlimit⟩
    · exact (hsubject row.fact (mem_findFacts_of_row hrow hadmits hlimit) hvalid).recordAll ..
    · exact hobject row.fact (mem_findFacts_of_row hrow hadmits hlimit) hvalid
  · have hold : Listed row.fact.factId { s with visited := (current, depth) :: s.visited } :=
      h.visited e he row hrow hvalid hfetched
    exact (hold.recordAll ..).recordAll ..

theorem Covers.step {s s' : Traversal} (h : Covers g q s) (hstep : s.step g q fetches = some s') :
    Covers g q s' := by
  obtain ⟨current, depth, path, rest, _, _, ⟨_, rfl⟩ | ⟨_, rfl⟩⟩ := Traversal.step_cases hstep
  · exact ⟨h.seen, h.visited⟩
  · have hrest : Covers g q { s with queue := rest } := ⟨h.seen, h.visited⟩
    exact hrest.expand current depth path

theorem traverse_covers (g : Graph) (q : Search) (fetches : Fetches) (seedId : UUID) :
    Covers g q (traverse g q fetches seedId) :=
  Iteration.run_preserves (Covers g q) (fun _ _ h => h.step) _ _
    { seen := fun _ _ h => (by cases h), visited := fun _ h => (by cases h) }

theorem traverse_first (g : Graph) (fetches : Fetches) (seedId : UUID) (hdepth : 1 ≤ q.maxDepth) :
    traverse g q fetches seedId = Iteration.run (Traversal.step g q fetches) 49
      (Traversal.expand g q fetches seedId 1 [] ⟨[], [], [], []⟩) := by
  have hfirst : (Traversal.start seedId).step g q fetches = some
      (Traversal.expand g q fetches seedId 1 [] ⟨[], [], [], []⟩) := by
    have hshallow : ¬ q.maxDepth < (1 : Nat) := by omega
    simp only [Traversal.step, Traversal.start, List.length_nil, hshallow, if_false]
    rfl
  show Iteration.run (Traversal.step g q fetches) (49 + 1) (.start seedId) = _
  rw [Iteration.run, hfirst]

theorem seed_visited (g : Graph) (fetches : Fetches) (seedId : UUID) (hdepth : 1 ≤ q.maxDepth) :
    (seedId, 1) ∈ (traverse g q fetches seedId).visited := by
  rw [traverse_first g fetches seedId hdepth]
  refine Iteration.run_preserves (fun s : Traversal => (seedId, 1) ∈ s.visited) ?_ _ _ ?_
  · intro s s' hs hstep
    obtain ⟨current, depth, path, rest, _, _, ⟨_, rfl⟩ | ⟨_, rfl⟩⟩ := Traversal.step_cases hstep
    · exact hs
    · rw [expand_eq, visited_recordAll, visited_recordAll]
      exact List.mem_cons_of_mem _ hs
  · rw [expand_eq, visited_recordAll, visited_recordAll]
    exact List.mem_cons_self

theorem listed_of_seed {seedId : UUID} (hdepth : 1 ≤ q.maxDepth) {fact : KnowledgeFact}
    (hfact : fact ∈ findFacts g (q.asSubject seedId) (fetches.asSubject 0))
    (hvalid : isTemporalValid fact q.validAt = true) :
    Listed fact.factId (traverse g q fetches seedId) := by
  rw [traverse_first g fetches seedId hdepth]
  refine Iteration.run_preserves (Listed fact.factId) ?_ _ _ ?_
  · intro s s' hs hstep
    obtain ⟨current, depth, path, rest, _, _, ⟨_, rfl⟩ | ⟨_, rfl⟩⟩ := Traversal.step_cases hstep
    · exact hs
    · have hrest : Listed fact.factId
          { s with queue := rest, visited := (current, depth) :: s.visited } := hs
      rw [expand_eq]
      exact (hrest.recordAll ..).recordAll ..
  · rw [expand_eq]
    have hnone : SeenListed ⟨[], [], [], [(seedId, 1)]⟩ := fun _ _ hk => absurd hk List.not_mem_nil
    exact ((listed_recordAll q.validAt seedId 1 [] _ _ _ _ hnone).2 fact hfact hvalid).recordAll ..

/-- The traversal from one of the seeds asked for the facts of the node. -/
def Visits (g : Graph) (q : Search) : (Nat → Fetches) → List CanonicalEntity → UUID → Prop
  | _, [], _ => False
  | fetches, entity :: rest, n =>
    (∃ depth, (n, depth) ∈ (traverse g q (fetches 0) entity.entityId).visited) ∨
      Visits g q (fun i => fetches (i + 1)) rest n

theorem mem_allEntries_of_visits {row : FactRow} (hrow : row ∈ g.factRows)
    (hvalid : isTemporalValid row.fact q.validAt = true) {n : UUID} (hfetched : Fetched g q n row)
    {fetches : Nat → Fetches} {seedEntities : List CanonicalEntity}
    (h : Visits g q fetches seedEntities n) :
    ∃ r ∈ allEntries g q fetches seedEntities, r.fact.factId = row.fact.factId := by
  induction seedEntities generalizing fetches with
  | nil => exact h.elim
  | cons entity rest ih =>
    rcases h with ⟨depth, hvisited⟩ | h
    · obtain ⟨r, hr, hid⟩ := (traverse_covers g q (fetches 0) entity.entityId).visited _ hvisited
        row hrow hvalid hfetched
      exact ⟨r, List.mem_append_left _ hr, hid⟩
    · obtain ⟨r, hr, hid⟩ := ih h
      exact ⟨r, List.mem_append_right _ hr, hid⟩

theorem evidence_of_entry {sc : Scoring} {fetches : Nat → Fetches}
    {seedEntities : List CanonicalEntity} {evidence : List Evidence}
    (hevidence : retrieveEvidence sc g q fetches seedEntities = some evidence)
    {r : FactWithNames} (hr : r ∈ allEntries g q fetches seedEntities) :
    ∃ e ∈ evidence, e.evidenceId = r.fact.factId := by
  obtain ⟨first, hfirst, -⟩ := exists_firstEntry hr
  exact ⟨_, (mem_retrieveEvidence hevidence).mpr ⟨_, first, hfirst, rfl⟩, (firstEntry_some hfirst).2⟩

theorem exists_evidence_of_entry {sc : Scoring} {fetches : Nat → Fetches}
    {seedEntities : List CanonicalEntity} (hscored : AllScored sc g q fetches seedEntities)
    {r : FactWithNames} (hr : r ∈ allEntries g q fetches seedEntities) :
    ∃ evidence, retrieveEvidence sc g q fetches seedEntities = some evidence ∧
      ∃ e ∈ evidence, e.evidenceId = r.fact.factId := by
  obtain ⟨evidence, hevidence⟩ := Option.isSome_iff_exists.mp
    ((retrieveEvidence_isSome_iff sc fetches seedEntities).mpr hscored)
  exact ⟨evidence, hevidence, evidence_of_entry hevidence hr⟩

end GroundGraph.Retrieval

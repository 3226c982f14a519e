import GroundGraph.Library.Iteration
import GroundGraph.Neo4j.Repository
import GroundGraph.Retrieval.Domain

/-! Traversal of the knowledge graph: `application/retrieval/graph_fusion.py`. The
order in which a query returns its rows is a parameter, one for every query that
is sent, and so are the clock and the text of the confidence, a float computed from
the depth and the age of a fact.
-/

set_option autoImplicit false

namespace GroundGraph.Retrieval

open GroundGraph.Knowledge GroundGraph.Neo4j

def graphTraversalMaxFacts : Nat := 50

/-- The arguments of `retrieve_evidence` but for the seed entities. -/
structure Search where
  predicates : Option (List String) := none
  validAt : Option Instant := none
  maxDepth : Int := 2
  tenantId : Option String := none
  principal : Option String := none

/-- `[principal] if principal else None`. -/
def Search.allowedPrincipals (q : Search) : Option (List String) :=
  match q.principal with
  | none => none
  | some p => if p = "" then none else some [p]

/-- `predicates[0] if predicates else None`. -/
def Search.predicate (q : Search) : Option String :=
  match q.predicates with
  | some (p :: _) => some p
  | _ => none

def Search.asSubject (q : Search) (current : UUID) : FactFilter :=
  { subjectId := some current, predicate := q.predicate, status := some "verified",
    allowedPrincipals := q.allowedPrincipals, tenantId := q.tenantId }

def Search.asObject (q : Search) (current : UUID) : FactFilter :=
  { objectId := some current, predicate := q.predicate, status := some "verified",
    allowedPrincipals := q.allowedPrincipals, tenantId := q.tenantId }

def startsAfter (validFrom : Option Instant) (t : Instant) : Bool :=
  match validFrom with
  | none => false
  | some f => decide (t < f)

def endsBy (validTo : Option Instant) (t : Instant) : Bool :=
  match validTo with
  | none => false
  | some e => decide (e ≤ t)

def isTemporalValid (fact : KnowledgeFact) (validAt : Option Instant) : Bool :=
  match validAt with
  | none => true
  | some t => !startsAfter fact.validFrom t && !endsBy fact.validTo t

structure FactWithNames where
  fact : KnowledgeFact
  depth : Nat
  subjectName : List Char
  objectName : List Char
  path : List UUID

structure Traversal where
  results : List FactWithNames
  seenEntityFacts : List (UUID × UUID)
  queue : List (UUID × Nat × List UUID)
  /-- The nodes whose facts were asked for, the last one first. -/
  visited : List (UUID × Nat)

/-- The order of the rows of the two queries about the `n`-th visited node. -/
structure Fetches where
  asSubject : Nat → RowOrder
  asObject : Nat → RowOrder

def entityName (g : Graph) (id : UUID) : List Char :=
  match getEntity g id with
  | some e => e.canonicalName.toList
  | none => strUuid id

/-- The body of both inner loops; `next` is the other end of the fact. -/
def Traversal.record (validAt : Option Instant) (current : UUID) (depth : Nat) (path : List UUID)
    (subjectName objectName : List Char) (next : UUID) (s : Traversal) (fact : KnowledgeFact) :
    Traversal :=
  if (current, fact.factId) ∈ s.seenEntityFacts then s
  else if isTemporalValid fact validAt = false then s
  else
    { s with
      seenEntityFacts := s.seenEntityFacts ++ [(current, fact.factId)]
      results := s.results ++ [⟨fact, depth, subjectName, objectName, path ++ [fact.factId]⟩]
      queue := s.queue ++ [(next, depth + 1, path ++ [fact.factId])] }

/-- `for fact in facts`. -/
def Traversal.recordAsSubject (g : Graph) (validAt : Option Instant) (current : UUID) (depth : Nat)
    (path : List UUID) (s : Traversal) (fact : KnowledgeFact) : Traversal :=
  s.record validAt current depth path (entityName g current) (entityName g fact.objectId)
    fact.objectId fact

/-- `for fact in facts_as_obj`. -/
def Traversal.recordAsObject (g : Graph) (validAt : Option Instant) (current : UUID) (depth : Nat)
    (path : List UUID) (s : Traversal) (fact : KnowledgeFact) : Traversal :=
  s.record validAt current depth path (entityName g fact.subjectId) (entityName g current)
    fact.subjectId fact

def Traversal.expand (g : Graph) (q : Search) (fetches : Fetches) (current : UUID) (depth : Nat)
    (path : List UUID) (s : Traversal) : Traversal :=
  let n := s.visited.length
  let facts := findFacts g (q.asSubject current) (fetches.asSubject n)
  let factsAsObj := findFacts g (q.asObject current) (fetches.asObject n)
  let s := { s with visited := (current, depth) :: s.visited }
  let s := facts.foldl (Traversal.recordAsSubject g q.validAt current depth path) s
  factsAsObj.foldl (Traversal.recordAsObject g q.validAt current depth path) s

/-- One pass of `while queue and len(results) < GRAPH_TRAVERSAL_MAX_FACTS`. -/
def Traversal.step (g : Graph) (q : Search) (fetches : Fetches) (s : Traversal) :
    Option Traversal :=
  match s.queue with
  | [] => none
  | (current, depth, path) :: rest =>
    if graphTraversalMaxFacts ≤ s.results.length then none
    else if q.maxDepth < depth then some { s with queue := rest }
    else some (Traversal.expand g q fetches current depth path { s with queue := rest })

def Traversal.start (seedId : UUID) : Traversal := ⟨[], [], [(seedId, 1, [])], []⟩

/-- `_traverse`. As many passes as there may be facts are enough: see
`step_traverse`. -/
def traverse (g : Graph) (q : Search) (fetches : Fetches) (seedId : UUID) : Traversal :=
  Iteration.run (Traversal.step g q fetches) graphTraversalMaxFacts (.start seedId)

/-- What a call scores its facts with. It scores a fact once, so the clock is asked per fact. -/
structure Scoring where
  /-- `datetime.now(UTC)`. -/
  now : UUID → Instant
  /-- `f"{final_score:.2f}"`, for the depth, the time and `observed_at`. -/
  text : Nat → Instant → Instant → List Char

/-- From 1024 half-lives of 30 days on, `0.5 ** (age_days / 30)` is greater than every double. -/
def stalenessOverflow : Int := 1024 * 30 * 86400 * 1000000

/-- `_staleness_score` raises its `OverflowError`: the fact is observed too far ahead. -/
def Scoring.overflows (sc : Scoring) (fact : KnowledgeFact) : Bool :=
  decide (stalenessOverflow ≤ fact.observedAt - sc.now fact.factId)

def toEvidence (sc : Scoring) (entry : FactWithNames) : Evidence where
  evidenceId := entry.fact.factId
  sourceId := entry.fact.evidenceIds.headD entry.fact.factId
  chunkId := entry.fact.evidenceIds.head?
  content := entry.subjectName ++ ' ' :: (entry.fact.predicate.toList ++
    ' ' :: (entry.objectName ++ " (confidence: ".toList ++
      sc.text entry.depth (sc.now entry.fact.factId) entry.fact.observedAt ++ ")".toList))
  retrievalMethod := .graph
  graphPathFactIds := entry.path
  validFrom := entry.fact.validFrom
  validTo := entry.fact.validTo
  allowedPrincipals := entry.fact.allowedPrincipals
  temporalBounds := entry.fact.temporal

structure Collected where
  results : List Evidence
  seenIds : List UUID

def Collected.add (sc : Scoring) (acc : Collected) (entry : FactWithNames) : Option Collected :=
  if entry.fact.factId ∈ acc.seenIds then some acc
  else if sc.overflows entry.fact then none
  else some ⟨acc.results ++ [toEvidence sc entry], acc.seenIds ++ [entry.fact.factId]⟩

/-- `for entity in seed_entities`; `fetches` of the seeds that are left. -/
def collect (sc : Scoring) (g : Graph) (q : Search) :
    (Nat → Fetches) → List CanonicalEntity → Collected → Option Collected
  | _, [], acc => some acc
  | fetches, entity :: rest, acc => do
    let acc ← (traverse g q (fetches 0) entity.entityId).results.foldlM (Collected.add sc) acc
    collect sc g q (fun i => fetches (i + 1)) rest acc

/-- `none` where the call raises. -/
def retrieveEvidence (sc : Scoring) (g : Graph) (q : Search) (fetches : Nat → Fetches)
    (seedEntities : List CanonicalEntity) : Option (List Evidence) :=
  if seedEntities = [] then some []
  else (collect sc g q fetches seedEntities ⟨[], []⟩).map Collected.results

theorem Traversal.record_cases (validAt : Option Instant) (current : UUID) (depth : Nat)
    (path : List UUID) (subjectName objectName : List Char) (next : UUID) (s : Traversal)
    (fact : KnowledgeFact) :
    (s.record validAt current depth path subjectName objectName next fact = s ∧
        ((current, fact.factId) ∈ s.seenEntityFacts ∨ isTemporalValid fact validAt = false)) ∨
    ((current, fact.factId) ∉ s.seenEntityFacts ∧ isTemporalValid fact validAt = true ∧
      s.record validAt current depth path subjectName objectName next fact =
        ⟨s.results ++ [⟨fact, depth, subjectName, objectName, path ++ [fact.factId]⟩],
          s.seenEntityFacts ++ [(current, fact.factId)],
          s.queue ++ [(next, depth + 1, path ++ [fact.factId])], s.visited⟩) := by
  unfold record
  by_cases hseen : (current, fact.factId) ∈ s.seenEntityFacts
  · exact Or.inl ⟨if_pos hseen, Or.inl hseen⟩
  · rw [if_neg hseen]
    by_cases hvalid : isTemporalValid fact validAt = false
    · exact Or.inl ⟨if_pos hvalid, Or.inr hvalid⟩
    · rw [if_neg hvalid]
      exact Or.inr ⟨hseen, by simpa using hvalid, rfl⟩

theorem Traversal.step_cases {g : Graph} {q : Search} {fetches : Fetches} {s s' : Traversal}
    (h : s.step g q fetches = some s') :
    ∃ current depth path rest, s.queue = (current, depth, path) :: rest ∧
      s.results.length < graphTraversalMaxFacts ∧
      ((q.maxDepth < depth ∧ s' = { s with queue := rest }) ∨
        ((depth : Int) ≤ q.maxDepth ∧
          s' = Traversal.expand g q fetches current depth path { s with queue := rest })) := by
  unfold step at h
  split at h
  · cases h
  · rename_i current depth path rest hq
    split at h
    · cases h
    · rename_i hcap
      refine ⟨current, depth, path, rest, hq, Nat.lt_of_not_le hcap, ?_⟩
      split at h
      · rename_i hdeep
        exact Or.inl ⟨hdeep, (Option.some.inj h).symm⟩
      · rename_i hdeep
        exact Or.inr ⟨Int.not_lt.mp hdeep, (Option.some.inj h).symm⟩

end GroundGraph.Retrieval

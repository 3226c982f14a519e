import GroundGraph.Knowledge.Domain
import GroundGraph.Library.KeyedTable

/-! The knowledge graph: `infrastructure/neo4j/repository.py`. The uniqueness
constraints of `schema.py` make entities and facts tables with a key.

A write query runs inside a transaction that commits later: what its `MATCH`
clauses find is fixed when it runs, what it changes becomes visible on commit.
-/

set_option autoImplicit false

namespace GroundGraph.Neo4j

open GroundGraph.Knowledge

abbrev Edges := List (UUID × UUID)

def mergeEdge (edges : Edges) (edge : UUID × UUID) : Edges :=
  if edge ∈ edges then edges else edges ++ [edge]

@[simp] theorem mem_mergeEdge {edges : Edges} {edge e : UUID × UUID} :
    e ∈ mergeEdge edges edge ↔ e ∈ edges ∨ e = edge := by
  unfold mergeEdge
  split
  · rename_i h
    constructor
    · exact Or.inl
    · rintro (he | rfl)
      · exact he
      · exact h
  · simp

theorem mergeEdge_eq_self_iff {edges : Edges} {edge : UUID × UUID} :
    mergeEdge edges edge = edges ↔ edge ∈ edges := by
  constructor
  · intro h
    rw [← h]
    exact mem_mergeEdge.mpr (Or.inr rfl)
  · intro h
    exact if_pos h

structure Graph where
  entities : KeyedTable CanonicalEntity.entityId
  facts : KeyedTable (fun f : KnowledgeFact => f.factId)
  mentions : KeyedTable EntityMention.mentionId
  /-- Ids of the chunk nodes. -/
  chunks : List UUID
  /-- `(entity)-[:SUBJECT_OF]->(fact)`. -/
  subjectOf : Edges
  /-- `(fact)-[:OBJECT]->(entity)`. -/
  object : Edges
  /-- `(fact)-[:SUPERSEDED_BY]->(fact)`. -/
  supersededBy : Edges
  /-- `(mention)-[:MENTIONED_IN]->(chunk)`. -/
  mentionedIn : Edges

def Graph.empty (chunks : List UUID) : Graph :=
  ⟨.empty, .empty, .empty, chunks, [], [], [], []⟩

def Graph.hasEntity (g : Graph) (id : UUID) : Bool := (g.entities.get? id).isSome

/-- A write query that has run, with what its `MATCH` clauses found. -/
inductive GraphWrite where
  | nothing
  | mention (m : EntityMention) (chunkFound : Bool)
  | entity (e : CanonicalEntity)
  | fact (f : KnowledgeFact) (subjectFound objectFound : Bool)

def createMention (g : Graph) (m : EntityMention) : GraphWrite :=
  .mention m (decide (m.chunkId ∈ g.chunks))

def createEntity (e : CanonicalEntity) : GraphWrite := .entity e

/-- `create_fact`. The node is merged first; a missing subject ends the query, so
that its object is not looked for either. -/
def createFact (g : Graph) (f : KnowledgeFact) : GraphWrite :=
  .fact f (g.hasEntity f.subjectId) (g.hasEntity f.subjectId && g.hasEntity f.objectId)

def GraphWrite.apply (g : Graph) : GraphWrite → Graph
  | .nothing => g
  | .mention m chunkFound =>
    { g with
      mentions := g.mentions.upsert m
      mentionedIn := if chunkFound then mergeEdge g.mentionedIn (m.mentionId, m.chunkId)
        else g.mentionedIn }
  | .entity e => { g with entities := g.entities.upsert e }
  | .fact f subjectFound objectFound =>
    { g with
      facts := g.facts.upsert f
      subjectOf := if subjectFound then mergeEdge g.subjectOf (f.subjectId, f.factId)
        else g.subjectOf
      object := if objectFound then mergeEdge g.object (f.factId, f.objectId) else g.object }

/-- `update_fact_status`, the whole transaction. `none` is an exception, after
which nothing is committed: there is no such fact, the status is none of a fact,
the model refuses the node it reads back, or the superseding fact is missing. -/
def updateFactStatus (g : Graph) (factId : UUID) (status : String) (supersededBy : Option UUID) :
    Option Graph := do
  let fact ← g.facts.get? factId
  let status ← FactStatus.ofText? status
  let updated ← fact.withStatus? status
  let g := { g with facts := g.facts.upsert updated }
  match supersededBy with
  | none => some g
  | some new =>
    if (g.facts.get? new).isSome then
      some { g with supersededBy := mergeEdge g.supersededBy (factId, new) }
    else none

def getEntity (g : Graph) (id : UUID) : Option CanonicalEntity := g.entities.get? id

/-- One match of `(s:Entity)-[:SUBJECT_OF]->(f:Fact)-[:OBJECT]->(o:Entity)`. -/
structure FactRow where
  subject : UUID
  fact : KnowledgeFact
  object : UUID

structure FactFilter where
  subjectId : Option UUID := none
  predicate : Option String := none
  objectId : Option UUID := none
  status : Option String := none
  allowedPrincipals : Option (List String) := none
  tenantId : Option String := none

/-- A condition that is added only for a non-empty string. -/
def textCondition (wanted : Option String) (actual : String) : Bool :=
  match wanted with
  | none => true
  | some text => decide (text = "") || decide (actual = text)

def idCondition (wanted : Option UUID) (actual : UUID) : Bool :=
  match wanted with
  | none => true
  | some id => decide (actual = id)

/-- `any(p IN $allowed_principals WHERE p IN f.allowed_principals OR …)`. -/
def aclCondition (wanted : Option (List String)) (acl : List String) : Bool :=
  match wanted with
  | none => true
  | some principals => principals.any fun p => decide (p ∈ acl) || acl.isEmpty

def tenantCondition (wanted : Option String) (actual : String) : Bool :=
  match wanted with
  | none => true
  | some tenant => decide (actual = tenant)

/-- The `WHERE` clause that `find_facts` puts together. -/
def FactFilter.admits (q : FactFilter) (row : FactRow) : Bool :=
  idCondition q.subjectId row.subject && textCondition q.predicate row.fact.predicate &&
    idCondition q.objectId row.object && textCondition q.status row.fact.status.text &&
    tenantCondition q.tenantId row.fact.tenantId &&
    aclCondition q.allowedPrincipals row.fact.allowedPrincipals

def Graph.factRows (g : Graph) : List FactRow :=
  g.subjectOf.flatMap fun s => g.object.filterMap fun o =>
    if o.1 = s.2 ∧ g.hasEntity s.1 = true ∧ g.hasEntity o.2 = true then
      (g.facts.get? s.2).map fun f => ⟨s.1, f, o.2⟩
    else none

/-- Without `ORDER BY` the database returns the rows in any order it likes. -/
structure RowOrder where
  arrange : List FactRow → List FactRow
  perm : ∀ rows, (arrange rows).Perm rows

def findFactsLimit : Nat := 100

def findFacts (g : Graph) (q : FactFilter) (order : RowOrder) : List KnowledgeFact :=
  ((order.arrange (g.factRows.filter q.admits)).take findFactsLimit).map FactRow.fact

theorem mem_factRows {g : Graph} {row : FactRow} :
    row ∈ g.factRows ↔ (row.subject, row.fact.factId) ∈ g.subjectOf ∧
      (row.fact.factId, row.object) ∈ g.object ∧ g.facts.get? row.fact.factId = some row.fact ∧
      g.hasEntity row.subject = true ∧ g.hasEntity row.object = true := by
  simp only [Graph.factRows, List.mem_flatMap, List.mem_filterMap]
  constructor
  · rintro ⟨⟨s, fid⟩, hs, ⟨fid', o⟩, ho, hrow⟩
    simp only [Option.ite_none_right_eq_some, Option.map_eq_some_iff] at hrow
    obtain ⟨⟨rfl, hhs, hho⟩, f, hf, rfl⟩ := hrow
    obtain rfl := (g.facts.get?_some_iff.mp hf).2
    exact ⟨hs, ho, hf, hhs, hho⟩
  · obtain ⟨s, f, o⟩ := row
    rintro ⟨hs, ho, hf, hhs, hho⟩
    exact ⟨_, hs, _, ho, by simp [hf, hhs, hho]⟩

theorem mem_findFacts_of_row {g : Graph} {q : FactFilter} {order : RowOrder} {row : FactRow}
    (hrow : row ∈ g.factRows) (hq : q.admits row = true)
    (hlimit : (g.factRows.filter q.admits).length ≤ findFactsLimit) :
    row.fact ∈ findFacts g q order := by
  have hperm := order.perm (g.factRows.filter q.admits)
  unfold findFacts
  rw [List.take_of_length_le (by rw [hperm.length_eq]; exact hlimit)]
  exact List.mem_map_of_mem (hperm.mem_iff.mpr (List.mem_filter.mpr ⟨hrow, hq⟩))

theorem exists_row_of_mem_findFacts {g : Graph} {q : FactFilter} {order : RowOrder}
    {f : KnowledgeFact} (h : f ∈ findFacts g q order) :
    ∃ row ∈ g.factRows, row.fact = f ∧ q.admits row = true := by
  obtain ⟨row, hrow, rfl⟩ := List.mem_map.mp h
  have hmem := (order.perm _).mem_iff.mp (List.mem_of_mem_take hrow)
  exact ⟨row, (List.mem_filter.mp hmem).1, rfl, (List.mem_filter.mp hmem).2⟩

end GroundGraph.Neo4j

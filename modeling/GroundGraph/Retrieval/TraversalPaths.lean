import GroundGraph.Retrieval.GraphAgreement
import GroundGraph.Retrieval.GraphCoverage

/-! Traversal is breadth-first search: over a set of facts that the queries return as they
are, the path of every evidence is a shortest chain of facts from its seed. All facts near a seed
are returned unless one that is collected makes the call raise.
-/

set_option autoImplicit false

namespace GroundGraph.Retrieval

open GroundGraph.Knowledge GroundGraph.Neo4j EdgeTraversal LabelledPath

structure Search.Matches (q : Search) (f : KnowledgeFact) : Prop where
  predicate : textCondition q.predicate f.predicate = true
  verified : f.status = .verified
  tenant : tenantCondition q.tenantId f.tenantId = true
  acl : aclCondition q.allowedPrincipals f.allowedPrincipals = true

/-- `find_facts` returns exactly the matching facts of `F`. -/
structure FindsExactly (g : Graph) (q : Search) (fetches : Fetches) (F : List KnowledgeFact) :
    Prop where
  asSubject : ∀ t n f, f ∈ findFacts g (q.asSubject n) (fetches.asSubject t) ↔
    f ∈ F ∧ q.Matches f ∧ f.subjectId = n
  asObject : ∀ t n f, f ∈ findFacts g (q.asObject n) (fetches.asObject t) ↔
    f ∈ F ∧ q.Matches f ∧ f.objectId = n

structure Eligible (F : List KnowledgeFact) (q : Search) (f : KnowledgeFact) : Prop where
  mem : f ∈ F
  filters : q.Matches f
  valid : isTemporalValid f q.validAt = true

/-- An eligible fact with this id joins the two entities, in either direction. -/
def Joins (F : List KnowledgeFact) (q : Search) (n k m : UUID) : Prop :=
  ∃ f, Eligible F q f ∧ f.factId = k ∧
    ((f.subjectId = n ∧ f.objectId = m) ∨ (f.objectId = n ∧ f.subjectId = m))

section Facts

variable {g : Graph} {q : Search} {fetches : Fetches} {F : List KnowledgeFact}

theorem stored_of_mem_findFacts {filter : FactFilter} {order : RowOrder} {f : KnowledgeFact}
    (h : f ∈ findFacts g filter order) : g.facts.get? f.factId = some f := by
  obtain ⟨row, hrow, rfl, -⟩ := exists_row_of_mem_findFacts h
  exact (mem_factRows.mp hrow).2.2.1

theorem FindsExactly.eq_of_id (h : FindsExactly g q fetches F) {f f' : KnowledgeFact}
    (hf : Eligible F q f) (hf' : Eligible F q f') (hid : f.factId = f'.factId) : f = f' := by
  have hget := stored_of_mem_findFacts ((h.asSubject 0 _ f).mpr ⟨hf.mem, hf.filters, rfl⟩)
  have hget' := stored_of_mem_findFacts ((h.asSubject 0 _ f').mpr ⟨hf'.mem, hf'.filters, rfl⟩)
  rw [hid, hget'] at hget
  exact (Option.some.inj hget).symm

theorem FindsExactly.undirected (h : FindsExactly g q fetches F) :
    Undirected (Joins F q) := by
  rintro a b c d k ⟨f, hf, rfl, hends⟩ ⟨f', hf', hid, hends'⟩
  obtain rfl := h.eq_of_id hf' hf hid
  rcases hends with ⟨rfl, rfl⟩ | ⟨rfl, rfl⟩ <;> rcases hends' with ⟨rfl, rfl⟩ | ⟨rfl, rfl⟩
  · exact Or.inl ⟨rfl, rfl⟩
  · exact Or.inr ⟨rfl, rfl⟩
  · exact Or.inr ⟨rfl, rfl⟩
  · exact Or.inl ⟨rfl, rfl⟩

theorem FindsExactly.joins_unique (h : FindsExactly g q fetches F) {n k m m' : UUID}
    (hm : Joins F q n k m) (hm' : Joins F q n k m') : m = m' := by
  rcases h.undirected _ _ _ _ _ hm hm' with ⟨-, rfl⟩ | ⟨rfl, rfl⟩
  · rfl
  · rfl

theorem FindsExactly.mem_fetchedEdges (h : FindsExactly g q fetches F) (t : Nat) {n k m : UUID} :
    (k, m) ∈ fetchedEdges g q fetches t n ↔ Joins F q n k m := by
  simp only [fetchedEdges, edgesAsSubject, edgesAsObject, List.mem_append, List.mem_map,
    List.mem_filter, h.asSubject, h.asObject, Prod.mk.injEq]
  constructor
  · rintro (⟨f, ⟨⟨hmem, hmatch, rfl⟩, hvalid⟩, rfl, rfl⟩ | ⟨f, ⟨⟨hmem, hmatch, rfl⟩, hvalid⟩, rfl, rfl⟩)
    · exact ⟨f, ⟨hmem, hmatch, hvalid⟩, rfl, Or.inl ⟨rfl, rfl⟩⟩
    · exact ⟨f, ⟨hmem, hmatch, hvalid⟩, rfl, Or.inr ⟨rfl, rfl⟩⟩
  · rintro ⟨f, ⟨hmem, hmatch, hvalid⟩, rfl, ⟨rfl, rfl⟩ | ⟨rfl, rfl⟩⟩
    · exact Or.inl ⟨f, ⟨⟨hmem, hmatch, rfl⟩, hvalid⟩, rfl, rfl⟩
    · exact Or.inr ⟨f, ⟨⟨hmem, hmatch, rfl⟩, hvalid⟩, rfl, rfl⟩

def factEdge (g : Graph) (q : Search) (fetches : Fetches) (n k : UUID) : Option UUID :=
  firstOf (fetchedEdges g q fetches 0 n) k

theorem FindsExactly.firstOf_eq (h : FindsExactly g q fetches F) (t : Nat) (n k : UUID) :
    firstOf (fetchedEdges g q fetches t n) k = factEdge g q fetches n k := by
  refine firstOf_congr ?_ ?_ k
  · rintro ⟨k, m⟩
    rw [h.mem_fetchedEdges, h.mem_fetchedEdges]
  · intro k m m' hm hm'
    exact h.joins_unique ((h.mem_fetchedEdges t).mp hm) ((h.mem_fetchedEdges t).mp hm')

theorem FindsExactly.factEdge_iff (h : FindsExactly g q fetches F) (n k m : UUID) :
    factEdge g q fetches n k = some m ↔ Joins F q n k m := by
  constructor
  · intro hfirst
    exact (h.mem_fetchedEdges 0).mp (mem_of_firstOf hfirst)
  · intro hjoins
    obtain ⟨m', hm'⟩ := Option.isSome_iff_exists.mp
      (firstOf_isSome_of_mem ((h.mem_fetchedEdges 0).mpr hjoins))
    have hjoins' := (h.mem_fetchedEdges 0).mp (mem_of_firstOf hm')
    rw [factEdge, hm', h.joins_unique hjoins' hjoins]

end Facts

/-- The path ends with the fact of the entry and has the length of its depth. -/
structure PathEntry (link : UUID → UUID → UUID → Prop) (seedId : UUID) (r : FactWithNames) :
    Prop where
  path : ∃ before b, r.path = before ++ [r.fact.factId] ∧ Leads link seedId r.path b
  depth : r.depth = r.path.length

structure Paths (link : UUID → UUID → UUID → Prop) (seedId : UUID) (s : Traversal) : Prop where
  entries : ∀ r ∈ s.results, PathEntry link seedId r
  waiting : ∀ e ∈ s.queue, Leads link seedId e.2.2 e.1 ∧ e.2.1 = e.2.2.length + 1

section Loop

variable {g : Graph} {q : Search} {fetches : Fetches} {F : List KnowledgeFact}
  {link : UUID → UUID → UUID → Prop} {seedId : UUID}

theorem Paths.record {s : Traversal} (h : Paths link seedId s) {validAt : Option Instant}
    {current : UUID} {depth : Nat} {path : List UUID} (hpath : Leads link seedId path current)
    (hdepth : depth = path.length + 1) {subjectName objectName : List Char} {next : UUID}
    {fact : KnowledgeFact}
    (hlink : isTemporalValid fact validAt = true → link current fact.factId next) :
    Paths link seedId (s.record validAt current depth path subjectName objectName next fact) := by
  rcases s.record_cases validAt current depth path subjectName objectName next fact with
    ⟨heq, -⟩ | ⟨-, hvalid, heq⟩
  · rw [heq]
    exact h
  · have hnew : Leads link seedId (path ++ [fact.factId]) next :=
      leads_snoc.mpr ⟨current, hpath, hlink hvalid⟩
    rw [heq]
    constructor
    · intro r hr
      rcases List.mem_append.mp hr with hr | hr
      · exact h.entries r hr
      · obtain rfl := List.mem_singleton.mp hr
        exact ⟨⟨path, next, rfl, hnew⟩, by simp [hdepth]⟩
    · intro e he
      rcases List.mem_append.mp he with he | he
      · exact h.waiting e he
      · obtain rfl := List.mem_singleton.mp he
        exact ⟨hnew, by simp [hdepth]⟩

theorem Paths.step (hfind : FindsExactly g q fetches F) {s s' : Traversal}
    (h : Paths (Joins F q) seedId s) (hstep : s.step g q fetches = some s') :
    Paths (Joins F q) seedId s' := by
  obtain ⟨current, depth, path, rest, hqueue, -, ⟨-, rfl⟩ | ⟨-, rfl⟩⟩ := Traversal.step_cases hstep
  · exact ⟨h.entries, fun e he => h.waiting e (by simp [hqueue, he])⟩
  · obtain ⟨hpath, hdepth⟩ := h.waiting (current, depth, path) (by simp [hqueue])
    have hrest : Paths (Joins F q) seedId
        { s with queue := rest, visited := (current, depth) :: s.visited } :=
      ⟨h.entries, fun e he => h.waiting e (by simp [hqueue, he])⟩
    unfold Traversal.expand
    refine List.foldlRecOn _ _ (List.foldlRecOn _ _ hrest ?_) ?_
    · intro s hs fact hfact
      obtain ⟨hmem, hmatch, hend⟩ := (hfind.asSubject _ _ _).mp hfact
      exact hs.record hpath hdepth fun hvalid =>
        ⟨fact, ⟨hmem, hmatch, hvalid⟩, rfl, Or.inl ⟨hend, rfl⟩⟩
    · intro s hs fact hfact
      obtain ⟨hmem, hmatch, hend⟩ := (hfind.asObject _ _ _).mp hfact
      exact hs.record hpath hdepth fun hvalid =>
        ⟨fact, ⟨hmem, hmatch, hvalid⟩, rfl, Or.inr ⟨hend, rfl⟩⟩

theorem traverse_paths (hfind : FindsExactly g q fetches F) (seedId : UUID) :
    Paths (Joins F q) seedId (traverse g q fetches seedId) := by
  refine Iteration.run_preserves (Paths (Joins F q) seedId) (fun _ _ h => h.step hfind) _ _ ?_
  refine ⟨List.forall_mem_nil _, fun e he => ?_⟩
  obtain rfl := List.mem_singleton.mp he
  exact ⟨rfl, rfl⟩

theorem traverse_inv (hfind : FindsExactly g q fetches F) (seedId : UUID) :
    Inv (factEdge g q fetches) seedId q.maxDepth
      (EdgeTraversal.loop (fetchedEdges g q fetches) q.maxDepth graphTraversalMaxFacts
        graphTraversalMaxFacts (EdgeTraversal.start seedId)) :=
  loop_inv graphTraversalMaxFacts (EdgeTraversal.start seedId) start_inv
    fun e _ t k => hfind.firstOf_eq t e.1 k

/-- The path of the first entry with a fact is a shortest one, and has no fact twice. -/
theorem firstEntry_shortest (hfind : FindsExactly g q fetches F) {k : UUID} {r : FactWithNames}
    (hfirst : firstEntry k (traverse g q fetches seedId).results = some r) :
    r.path.Nodup ∧ IsLeast (lengthsTo (Joins F q) seedId k) r.path.length ∧
      (r.path.length : Int) ≤ q.maxDepth := by
  obtain ⟨hmem, rfl⟩ := firstEntry_some hfirst
  obtain ⟨⟨before, b, hpath, hleads⟩, hdepth⟩ := (traverse_paths hfind seedId).entries r hmem
  have hdepth' := @firstEntry_depth g q fetches seedId r.fact.factId
  rw [hfirst, Option.map_some, eq_comm, Option.map_eq_some_iff] at hdepth'
  obtain ⟨m, hm, hmdepth⟩ := hdepth'
  have hleast := (traverse_inv hfind seedId).firstMark_isLeast hm
  rw [hmdepth, hdepth] at hleast
  have hreach : ∀ d, d ∈ {d | Reaches (factEdge g q fetches) seedId q.maxDepth r.fact.factId d} ↔
      (d : Int) ≤ q.maxDepth ∧ d ∈ lengthsTo (Joins F q) seedId r.fact.factId :=
    fun d => reaches_iff hfind.factEdge_iff
  obtain ⟨hbound, hlength⟩ := (hreach _).mp hleast.1
  have hshort : IsLeast (lengthsTo (Joins F q) seedId r.fact.factId) r.path.length := by
    refine ⟨hlength, fun d hd => ?_⟩
    by_cases hle : (d : Int) ≤ q.maxDepth
    · exact hleast.2 ((hreach d).mpr ⟨hle, hd⟩)
    · omega
  refine ⟨?_, hshort, hbound⟩
  rw [hpath] at hleads hshort ⊢
  rw [List.length_append, List.length_singleton] at hshort
  exact nodup_of_isLeast hfind.undirected hleads hshort

/-- A traversal that ends below its bound on the results has every fact within the depth. -/
theorem listed_of_eligible (hfind : FindsExactly g q fetches F)
    (hbelow : (traverse g q fetches seedId).results.length < graphTraversalMaxFacts) {k : UUID}
    {d : Nat} (hd : (d : Int) ≤ q.maxDepth) (hk : d ∈ lengthsTo (Joins F q) seedId k) :
    ∃ r ∈ (traverse g q fetches seedId).results, r.fact.factId = k := by
  have hsim := traverse_inStep g q fetches seedId
  have hq := loop_queue_eq_nil (hsim.length_eq.trans_lt hbelow)
  obtain ⟨m, hm, hlabel, -⟩ := (traverse_inv hfind seedId).mark_of_reaches
    ((reaches_iff hfind.factEdge_iff).mpr ⟨hd, hk⟩) (hq ▸ List.forall_mem_nil _)
  have hpair : (m.label, m.depth) ∈ (traverse g q fetches seedId).results.map
      fun r => (r.fact.factId, r.depth) := by
    rw [← hsim.results]
    exact List.mem_map_of_mem hm
  obtain ⟨r, hr, heq⟩ := List.mem_map.mp hpair
  exact ⟨r, hr, (Prod.mk.inj heq).1.trans hlabel⟩

end Loop

/-! A store in which every fact has its two edges and no other, and few enough facts, returns
exactly the matching ones. -/

def FactsLinked (g : Graph) : Prop :=
  ∀ f ∈ g.facts.rows, (f.subjectId, f.factId) ∈ g.subjectOf ∧ (f.factId, f.objectId) ∈ g.object ∧
    g.hasEntity f.subjectId = true ∧ g.hasEntity f.objectId = true

theorem mem_findFacts_iff {g : Graph} {filter : FactFilter} (order : RowOrder)
    (hlimit : g.factRows.length ≤ findFactsLimit) {f : KnowledgeFact} :
    f ∈ findFacts g filter order ↔ ∃ row ∈ g.factRows, filter.admits row = true ∧ row.fact = f := by
  rw [← mem_matching]
  exact (findFacts_perm order ((List.length_filter_le _ _).trans hlimit)).mem_iff

theorem Search.matches_iff {q : Search} {f : KnowledgeFact} :
    q.Matches f ↔ textCondition q.predicate f.predicate = true ∧
      textCondition (some "verified") f.status.text = true ∧
      tenantCondition q.tenantId f.tenantId = true ∧
      aclCondition q.allowedPrincipals f.allowedPrincipals = true := by
  rw [verified_iff]
  constructor
  · rintro ⟨hpred, hstatus, htenant, hacl⟩
    exact ⟨hpred, hstatus, htenant, hacl⟩
  · rintro ⟨hpred, hstatus, htenant, hacl⟩
    exact ⟨hpred, hstatus, htenant, hacl⟩

theorem Search.admits_asSubject {q : Search} {n : UUID} {row : FactRow} :
    (q.asSubject n).admits row = true ↔ row.subject = n ∧ q.Matches row.fact := by
  rw [q.matches_iff]
  simp [FactFilter.admits, Search.asSubject, idCondition, and_assoc]

theorem Search.admits_asObject {q : Search} {n : UUID} {row : FactRow} :
    (q.asObject n).admits row = true ↔ row.object = n ∧ q.Matches row.fact := by
  rw [q.matches_iff]
  simp [FactFilter.admits, Search.asObject, idCondition, and_assoc, and_left_comm]

theorem findsExactly_of_linked {g : Graph} (hlinked : FactsLinked g) (hfollow : EdgesFollowFacts g)
    (hlimit : g.factRows.length ≤ findFactsLimit) (q : Search) (fetches : Fetches) :
    FindsExactly g q fetches g.facts.rows := by
  have hrow : ∀ f ∈ g.facts.rows, ⟨f.subjectId, f, f.objectId⟩ ∈ g.factRows := by
    intro f hf
    obtain ⟨hsubject, hobject, hs, ho⟩ := hlinked f hf
    exact mem_factRows.mpr ⟨hsubject, hobject, (KeyedTable.mem_rows_iff _).mp hf, hs, ho⟩
  have hends : ∀ row ∈ g.factRows, row.fact ∈ g.facts.rows ∧ row.subject = row.fact.subjectId ∧
      row.object = row.fact.objectId := by
    intro row hrow
    obtain ⟨hsubject, hobject, hget, -, -⟩ := mem_factRows.mp hrow
    exact ⟨(KeyedTable.mem_rows_iff _).mpr hget, (hfollow row.fact hget).1 _ hsubject,
      (hfollow row.fact hget).2 _ hobject⟩
  constructor
  · intro t n f
    rw [mem_findFacts_iff _ hlimit]
    constructor
    · rintro ⟨row, hmem, hadmits, rfl⟩
      obtain ⟨hsubject, hmatch⟩ := Search.admits_asSubject.mp hadmits
      exact ⟨(hends row hmem).1, hmatch, (hends row hmem).2.1 ▸ hsubject⟩
    · rintro ⟨hmem, hmatch, rfl⟩
      exact ⟨_, hrow f hmem, Search.admits_asSubject.mpr ⟨rfl, hmatch⟩, rfl⟩
  · intro t n f
    rw [mem_findFacts_iff _ hlimit]
    constructor
    · rintro ⟨row, hmem, hadmits, rfl⟩
      obtain ⟨hobject, hmatch⟩ := Search.admits_asObject.mp hadmits
      exact ⟨(hends row hmem).1, hmatch, (hends row hmem).2.2 ▸ hobject⟩
    · rintro ⟨hmem, hmatch, rfl⟩
      exact ⟨_, hrow f hmem, Search.admits_asObject.mpr ⟨rfl, hmatch⟩, rfl⟩

section Seeds

variable {g : Graph} {q : Search}

theorem firstEntry_allEntries {k : UUID} {r : FactWithNames} {fetches : Nat → Fetches}
    {seedEntities : List CanonicalEntity}
    (h : firstEntry k (allEntries g q fetches seedEntities) = some r) :
    ∃ i seed, seedEntities[i]? = some seed ∧
      firstEntry k (traverse g q (fetches i) seed.entityId).results = some r := by
  induction seedEntities generalizing fetches with
  | nil => cases h
  | cons entity rest ih =>
    rw [firstEntry, allEntries, List.find?_append, Option.or_eq_some_iff] at h
    rcases h with h | ⟨-, h⟩
    · exact ⟨0, entity, rfl, h⟩
    · obtain ⟨i, seed, hseed, hfirst⟩ := ih h
      exact ⟨i + 1, seed, hseed, hfirst⟩

theorem mem_allEntries {fetches : Nat → Fetches} {seedEntities : List CanonicalEntity} {i : Nat}
    {seed : CanonicalEntity} (hseed : seedEntities[i]? = some seed) {r : FactWithNames}
    (hr : r ∈ (traverse g q (fetches i) seed.entityId).results) :
    r ∈ allEntries g q fetches seedEntities := by
  induction seedEntities generalizing fetches i with
  | nil => cases hseed
  | cons entity rest ih =>
    cases i with
    | zero =>
      obtain rfl : entity = seed := Option.some.inj hseed
      exact List.mem_append_left _ hr
    | succ i => exact List.mem_append_right _ (ih hseed hr)

end Seeds

/-- The ids are those of pairwise different eligible facts that lead away from the seed, end
with this one, and are as few as possible. -/
structure ShortestChain (F : List KnowledgeFact) (q : Search) (seedId factId : UUID)
    (path : List UUID) : Prop where
  chain : ∃ b, Leads (Joins F q) seedId path b
  distinct : path.Nodup
  last : path.getLast? = some factId
  shortest : IsLeast (lengthsTo (Joins F q) seedId factId) path.length
  bounded : (path.length : Int) ≤ q.maxDepth

/-- An eligible fact that is not too many steps away. -/
def WithinDepth (F : List KnowledgeFact) (q : Search) (seedId : UUID) (f : KnowledgeFact) : Prop :=
  Eligible F q f ∧ ∃ d ∈ lengthsTo (Joins F q) seedId f.factId, (d : Int) ≤ q.maxDepth

/-- The traversal from the seed ends before it has all the results that it may have. -/
def EndsBelow (g : Graph) (q : Search) (fetches : Fetches) (seed : CanonicalEntity) : Prop :=
  (traverse g q fetches seed.entityId).results.length < graphTraversalMaxFacts

section Search

variable (sc : Scoring) (g : Graph) (q : Search) (fetches : Nat → Fetches)
  (seedEntities : List CanonicalEntity) (F : List KnowledgeFact)

structure BreadthFirst : Prop where
  /-- Evidence comes from the traversal of a seed, with a shortest chain from there. -/
  chains : ∀ evidence, retrieveEvidence sc g q fetches seedEntities = some evidence →
    ∀ e ∈ evidence, ∃ (i : Nat) (seed : CanonicalEntity) (r : FactWithNames),
      seedEntities[i]? = some seed ∧ r ∈ (traverse g q (fetches i) seed.entityId).results ∧
        e = toEvidence sc r ∧ Eligible F q r.fact ∧
        ShortestChain F q seed.entityId e.evidenceId e.graphPathFactIds
  complete : ∀ i seed, seedEntities[i]? = some seed → EndsBelow g q (fetches i) seed →
    ∀ f, WithinDepth F q seed.entityId f →
      ∃ evidence, retrieveEvidence sc g q fetches seedEntities = some evidence ∧
        ∃ e ∈ evidence, e.evidenceId = f.factId

variable {sc g q fetches seedEntities F}

theorem eligible_of_collected (hfind : ∀ i, FindsExactly g q (fetches i) F) {i : Nat}
    {seed : CanonicalEntity} (hseed : seedEntities[i]? = some seed) {r : FactWithNames}
    (hr : r ∈ (traverse g q (fetches i) seed.entityId).results) : Eligible F q r.fact := by
  obtain ⟨before, b, hpath, hleads⟩ := ((traverse_paths (hfind i) seed.entityId).entries r hr).path
  obtain ⟨n, -, hlast⟩ := leads_snoc.mp (hpath ▸ hleads)
  obtain ⟨f, helig, hid, -⟩ := hlast
  have hstored := allEntries_stored (g := g) (q := q) fetches seedEntities r
    (mem_allEntries hseed hr)
  have hget := stored_of_mem_findFacts
    (((hfind i).asSubject 0 _ f).mpr ⟨helig.mem, helig.filters, rfl⟩)
  rw [hid, hstored] at hget
  exact Option.some.inj hget ▸ helig

theorem evidence_chains (hfind : ∀ i, FindsExactly g q (fetches i) F) {evidence : List Evidence}
    (hevidence : retrieveEvidence sc g q fetches seedEntities = some evidence) {e : Evidence}
    (he : e ∈ evidence) : ∃ (i : Nat) (seed : CanonicalEntity) (r : FactWithNames),
      seedEntities[i]? = some seed ∧ r ∈ (traverse g q (fetches i) seed.entityId).results ∧
        e = toEvidence sc r ∧ Eligible F q r.fact ∧
        ShortestChain F q seed.entityId e.evidenceId e.graphPathFactIds := by
  obtain ⟨k, r, hfirst, rfl⟩ := (mem_retrieveEvidence hevidence).mp he
  obtain ⟨i, seed, hseed, hfirst⟩ := firstEntry_allEntries hfirst
  obtain ⟨hmem, rfl⟩ := firstEntry_some hfirst
  obtain ⟨hnodup, hleast, hbound⟩ := firstEntry_shortest (hfind i) hfirst
  obtain ⟨before, b, hpath, hleads⟩ := ((traverse_paths (hfind i) seed.entityId).entries r hmem).path
  refine ⟨i, seed, r, hseed, hmem, rfl, eligible_of_collected hfind hseed hmem, ⟨b, hleads⟩, hnodup,
    ?_, hleast, hbound⟩
  show r.path.getLast? = _
  rw [hpath]
  exact List.getLast?_concat

/-- Where no traversal ends for the number of its results, what is collected is what is near. -/
theorem allScored_iff (hfind : ∀ i, FindsExactly g q (fetches i) F)
    (hbelow : ∀ i seed, seedEntities[i]? = some seed → EndsBelow g q (fetches i) seed) :
    AllScored sc g q fetches seedEntities ↔
      ∀ seed ∈ seedEntities, ∀ f, WithinDepth F q seed.entityId f → sc.overflows f = false := by
  constructor
  · rintro hscored seed hmem f ⟨helig, d, hd, hle⟩
    obtain ⟨i, hseed⟩ := List.mem_iff_getElem?.mp hmem
    obtain ⟨r, hr, hid⟩ := listed_of_eligible (hfind i) (hbelow i seed hseed) hle hd
    have hsame := (hfind i).eq_of_id helig (eligible_of_collected hfind hseed hr) hid.symm
    exact hsame ▸ hscored r (mem_allEntries hseed hr)
  · intro hnear r hr
    obtain ⟨first, hfirst, hfact⟩ := exists_firstEntry hr
    obtain ⟨i, seed, hseed, hfirst⟩ := firstEntry_allEntries hfirst
    obtain ⟨-, hleast, hbound⟩ := firstEntry_shortest (hfind i) hfirst
    have helig := eligible_of_collected hfind hseed (firstEntry_some hfirst).1
    exact hnear seed (List.mem_of_getElem? hseed) r.fact
      ⟨hfact ▸ helig, _, hleast.1, hbound⟩

end Search

/-- The traversal is a breadth-first search if and only if every fact that is collected can be
scored, or there is nothing near the seeds that it would have to return. -/
theorem evidence_breadth_first_iff (sc : Scoring) (g : Graph) (q : Search) (fetches : Nat → Fetches)
    (seedEntities : List CanonicalEntity) (F : List KnowledgeFact)
    (hfind : ∀ i, FindsExactly g q (fetches i) F) :
    (BreadthFirst sc g q fetches seedEntities F ↔
      ∀ i seed f, seedEntities[i]? = some seed → EndsBelow g q (fetches i) seed →
        WithinDepth F q seed.entityId f → AllScored sc g q fetches seedEntities) ∧
    ((∀ i seed, seedEntities[i]? = some seed → EndsBelow g q (fetches i) seed) →
      (BreadthFirst sc g q fetches seedEntities F ↔
        ∀ seed ∈ seedEntities, ∀ f, WithinDepth F q seed.entityId f → sc.overflows f = false)) := by
  have hiff : BreadthFirst sc g q fetches seedEntities F ↔
      ∀ i seed f, seedEntities[i]? = some seed → EndsBelow g q (fetches i) seed →
        WithinDepth F q seed.entityId f → AllScored sc g q fetches seedEntities := by
    constructor
    · intro h i seed f hseed hbelow hnear
      obtain ⟨evidence, hevidence, -⟩ := h.complete i seed hseed hbelow f hnear
      exact (retrieveEvidence_isSome_iff sc fetches seedEntities).mp (by rw [hevidence]; rfl)
    · intro hscored
      refine ⟨fun evidence hevidence e he => evidence_chains hfind hevidence he, ?_⟩
      intro i seed hseed hbelow f hnear
      obtain ⟨d, hd, hle⟩ := hnear.2
      obtain ⟨r, hr, hid⟩ := listed_of_eligible (hfind i) hbelow hle hd
      rw [← hid]
      exact exists_evidence_of_entry (hscored i seed f hseed hbelow hnear) (mem_allEntries hseed hr)
  refine ⟨hiff, fun hbelow => ?_⟩
  rw [hiff, ← allScored_iff hfind hbelow]
  constructor
  · intro hscored
    -- with no fact near a seed there is none that is collected
    refine (allScored_iff hfind hbelow).mpr fun seed hmem f hnear => ?_
    obtain ⟨i, hseed⟩ := List.mem_iff_getElem?.mp hmem
    exact (allScored_iff hfind hbelow).mp (hscored i seed f hseed (hbelow i seed hseed) hnear)
      seed hmem f hnear
  · exact fun hscored _ _ _ _ _ _ => hscored

def graphObserved (observedAt : Instant) : Graph :=
  { sampleGraph with
    facts := ⟨[{ sampleFact 10 1 2 "t" with observedAt := observedAt }], List.nodup_singleton _⟩ }

theorem graphObserved_findsExactly (observedAt : Instant) :
    FindsExactly (graphObserved observedAt) sampleSearch storedOrder
      (graphObserved observedAt).facts.rows := by
  have hlinked : FactsLinked (graphObserved observedAt) := by
    intro f hf
    obtain rfl := List.mem_singleton.mp hf
    exact ⟨List.mem_singleton.mpr rfl, List.mem_singleton.mpr rfl, rfl, rfl⟩
  have hfollow : EdgesFollowFacts (graphObserved observedAt) := by
    intro f hf
    obtain rfl := List.mem_singleton.mp ((graphObserved observedAt).facts.get?_some_iff.mp hf).1
    exact ⟨fun s hs => (Prod.mk.inj (List.mem_singleton.mp hs)).1,
      fun o ho => (Prod.mk.inj (List.mem_singleton.mp ho)).2⟩
  exact findsExactly_of_linked hlinked hfollow (show 1 ≤ findFactsLimit by decide) _ _

/-- Observed now, it is evidence. -/
theorem evidence_breadth_first_iff_now :
    BreadthFirst sampleScoring (graphObserved 0) sampleSearch (fun _ => storedOrder)
      [sampleEntity 1 "Ada"] (graphObserved 0).facts.rows ∧
    (retrieveEvidence sampleScoring (graphObserved 0) sampleSearch (fun _ => storedOrder)
      [sampleEntity 1 "Ada"]).map List.length = some 1 := by
  have hscored : AllScored sampleScoring (graphObserved 0) sampleSearch (fun _ => storedOrder)
      [sampleEntity 1 "Ada"] := by
    unfold AllScored
    decide
  exact ⟨(evidence_breadth_first_iff sampleScoring (graphObserved 0) sampleSearch
    (fun _ => storedOrder) [sampleEntity 1 "Ada"] (graphObserved 0).facts.rows
    fun _ => graphObserved_findsExactly 0).1.mpr fun _ _ _ _ _ _ => hscored, by decide⟩

/-- Observed 84 years ahead, it makes the call raise. -/
theorem not_evidence_breadth_first : ¬ ∀ (sc : Scoring) (g : Graph) (q : Search)
    (fetches : Nat → Fetches) (seedEntities : List CanonicalEntity) (F : List KnowledgeFact),
    (∀ i, FindsExactly g q (fetches i) F) → BreadthFirst sc g q fetches seedEntities F := by
  intro h
  have hfirst := h sampleScoring (graphObserved stalenessOverflow) sampleSearch
    (fun _ => storedOrder) [sampleEntity 1 "Ada"] _ fun _ => graphObserved_findsExactly _
  have helig : Eligible (graphObserved stalenessOverflow).facts.rows sampleSearch
      { sampleFact 10 1 2 "t" with observedAt := stalenessOverflow } :=
    ⟨List.mem_singleton.mpr rfl, ⟨rfl, rfl, rfl, by decide⟩, rfl⟩
  have hlength : 1 ∈ lengthsTo (Joins (graphObserved stalenessOverflow).facts.rows sampleSearch)
      1 10 := ⟨[], 2, leads_snoc.mpr ⟨1, rfl, _, helig, rfl, Or.inl ⟨rfl, rfl⟩⟩, rfl⟩
  obtain ⟨evidence, hevidence, -⟩ := hfirst.complete 0 _ rfl
    (show List.length _ < graphTraversalMaxFacts by decide) _ ⟨helig, 1, hlength, by decide⟩
  have hraised : retrieveEvidence sampleScoring (graphObserved stalenessOverflow) sampleSearch
      (fun _ => storedOrder) [sampleEntity 1 "Ada"] = none := by
    decide
  rw [hraised] at hevidence
  cases hevidence

end GroundGraph.Retrieval

import GroundGraph.Retrieval.GraphAgreement
import GroundGraph.Retrieval.GraphCoverage
import Mathlib.Data.List.Dedup
import Mathlib.Data.List.Perm.Subperm

/-! How much a traversal does. Every result stands for an entity and a fact at one of its
ends that were not seen together before, and every result puts one entry on the queue. So
the loop ends without its bound on the results, too. That bound is looked at between two
nodes only: a node with many facts goes beyond it.
-/

set_option autoImplicit false

namespace GroundGraph.Retrieval

open GroundGraph.Knowledge GroundGraph.Neo4j

/-- One pass of the loop with some bound on the results, or with none. -/
def Traversal.stepWithin (bound : Option Nat) (g : Graph) (q : Search) (fetches : Fetches)
    (s : Traversal) : Option Traversal :=
  match s.queue with
  | [] => none
  | (current, depth, path) :: rest =>
    if bound.any (fun n => decide (n ≤ s.results.length)) = true then none
    else if q.maxDepth < depth then some { s with queue := rest }
    else some (Traversal.expand g q fetches current depth path { s with queue := rest })

theorem Traversal.stepWithin_max (g : Graph) (q : Search) (fetches : Fetches) :
    Traversal.stepWithin (some graphTraversalMaxFacts) g q fetches =
      Traversal.step g q fetches := by
  funext s
  cases hq : s.queue with
  | nil => simp only [stepWithin, step, hq]
  | cons e rest => simp only [stepWithin, step, hq, Option.any_some, decide_eq_true_eq]

theorem Traversal.stepWithin_cases {bound : Option Nat} {g : Graph} {q : Search}
    {fetches : Fetches} {s s' : Traversal} (h : s.stepWithin bound g q fetches = some s') :
    ∃ current depth path rest, s.queue = (current, depth, path) :: rest ∧
      (s' = { s with queue := rest } ∨
        s' = Traversal.expand g q fetches current depth path { s with queue := rest }) := by
  unfold stepWithin at h
  split at h
  · cases h
  · rename_i current depth path rest hq
    refine ⟨current, depth, path, rest, hq, ?_⟩
    split at h
    · cases h
    · split at h
      · exact Or.inl (Option.some.inj h).symm
      · exact Or.inr (Option.some.inj h).symm

structure Grows (current : UUID) (new : List UUID) (s s' : Traversal) : Prop where
  seen : s'.seenEntityFacts = s.seenEntityFacts ++ new.map fun k => (current, k)
  results : s'.results.length = s.results.length + new.length
  queue : s'.queue.length = s.queue.length + new.length
  nodup : new.Nodup
  unseen : ∀ k ∈ new, (current, k) ∉ s.seenEntityFacts

theorem Grows.mem_seen {current : UUID} {new : List UUID} {s s' : Traversal}
    (h : Grows current new s s') (k : UUID) :
    (current, k) ∈ s'.seenEntityFacts ↔ (current, k) ∈ s.seenEntityFacts ∨ k ∈ new := by
  simp [h.seen]

theorem Grows.refl (current : UUID) (s : Traversal) : Grows current [] s s :=
  ⟨by simp, rfl, rfl, List.nodup_nil, List.forall_mem_nil _⟩

theorem Grows.trans {current : UUID} {new new' : List UUID} {s s' s'' : Traversal}
    (h : Grows current new s s') (h' : Grows current new' s' s'') :
    Grows current (new ++ new') s s'' := by
  refine ⟨by simp [h'.seen, h.seen], ?_, ?_, ?_, ?_⟩
  · rw [h'.results, h.results, List.length_append, Nat.add_assoc]
  · rw [h'.queue, h.queue, List.length_append, Nat.add_assoc]
  · refine List.nodup_append.mpr ⟨h.nodup, h'.nodup, ?_⟩
    rintro k hk _ hk' rfl
    exact h'.unseen k hk' ((h.mem_seen k).mpr (Or.inr hk))
  · intro k hk hseen
    rcases List.mem_append.mp hk with hk | hk
    · exact h.unseen k hk hseen
    · exact h'.unseen k hk ((h.mem_seen k).mpr (Or.inl hseen))

theorem record_grows (validAt : Option Instant) (current : UUID) (depth : Nat) (path : List UUID)
    (subjectName objectName : List Char) (next : UUID) (s : Traversal) (fact : KnowledgeFact) :
    ∃ new, Grows current new s
        (s.record validAt current depth path subjectName objectName next fact) ∧
      ∀ k, k ∈ new ↔ (current, k) ∉ s.seenEntityFacts ∧
        fact.factId = k ∧ isTemporalValid fact validAt = true := by
  rcases s.record_cases validAt current depth path subjectName objectName next fact with
    ⟨heq, hskip⟩ | ⟨hseen, hvalid, heq⟩
  · refine ⟨[], by rw [heq]; exact .refl current s, fun k => ?_⟩
    simp only [List.not_mem_nil, false_iff, not_and]
    rintro hfresh rfl hvalid
    rcases hskip with hseen | hinvalid
    · exact hfresh hseen
    · rw [hinvalid] at hvalid
      cases hvalid
  · refine ⟨[fact.factId], ?_, fun k => ?_⟩
    · rw [heq]
      exact ⟨rfl, by simp, by simp, List.nodup_singleton _, by simpa using hseen⟩
    · constructor
      · intro hk
        obtain rfl := List.mem_singleton.mp hk
        exact ⟨hseen, rfl, hvalid⟩
      · rintro ⟨-, rfl, -⟩
        exact List.mem_singleton.mpr rfl

theorem unseen_or_iff (seen first second : Prop) :
    (¬ seen ∧ first ∨ ¬ (seen ∨ ¬ seen ∧ first) ∧ second) ↔ ¬ seen ∧ (first ∨ second) := by
  tauto

theorem recordAll_grows (validAt : Option Instant) (current : UUID) (depth : Nat)
    (path : List UUID) (subjectName objectName : KnowledgeFact → List Char)
    (next : KnowledgeFact → UUID) (facts : List KnowledgeFact) (s : Traversal) :
    ∃ new, Grows current new s
        (recordAll validAt current depth path subjectName objectName next facts s) ∧
      ∀ k, k ∈ new ↔ (current, k) ∉ s.seenEntityFacts ∧
        ∃ f ∈ facts, f.factId = k ∧ isTemporalValid f validAt = true := by
  induction facts generalizing s with
  | nil => exact ⟨[], .refl current s, by simp⟩
  | cons fact facts ih =>
    obtain ⟨first, hfirst, hmem⟩ := record_grows validAt current depth path (subjectName fact)
      (objectName fact) (next fact) s fact
    obtain ⟨new, hnew, hmem'⟩ := ih (s.record validAt current depth path (subjectName fact)
      (objectName fact) (next fact) fact)
    refine ⟨first ++ new, hfirst.trans hnew, fun k => ?_⟩
    rw [List.mem_append, hmem, hmem', hfirst.mem_seen, hmem]
    simp only [List.mem_cons, exists_eq_or_imp]
    exact unseen_or_iff _ _ _

/-- The facts of both queries about the node that is expanded next. -/
def Traversal.fetched (g : Graph) (q : Search) (fetches : Fetches) (s : Traversal)
    (current : UUID) : List KnowledgeFact :=
  findFacts g (q.asSubject current) (fetches.asSubject s.visited.length) ++
    findFacts g (q.asObject current) (fetches.asObject s.visited.length)

/-- Those of them that are valid and were not met from this node before. -/
def Traversal.fresh (g : Graph) (q : Search) (fetches : Fetches) (s : Traversal)
    (current : UUID) : List UUID :=
  (((s.fetched g q fetches current).filter fun f => isTemporalValid f q.validAt &&
    decide ((current, f.factId) ∉ s.seenEntityFacts)).map fun f => f.factId).dedup

section Work

variable {g : Graph} {q : Search} {fetches : Fetches}

theorem mem_fresh {s : Traversal} {current k : UUID} :
    k ∈ s.fresh g q fetches current ↔ (current, k) ∉ s.seenEntityFacts ∧
      ∃ f ∈ s.fetched g q fetches current, f.factId = k ∧ isTemporalValid f q.validAt = true := by
  simp only [Traversal.fresh, List.mem_dedup, List.mem_map, List.mem_filter, Bool.and_eq_true,
    decide_eq_true_eq]
  constructor
  · rintro ⟨f, ⟨hf, hvalid, hseen⟩, rfl⟩
    exact ⟨hseen, f, hf, rfl, hvalid⟩
  · rintro ⟨hseen, f, hf, rfl, hvalid⟩
    exact ⟨f, ⟨hf, hvalid, hseen⟩, rfl⟩

variable (g q fetches) in
theorem expand_grows (current : UUID) (depth : Nat) (path : List UUID) (s : Traversal) :
    ∃ new, Grows current new s (Traversal.expand g q fetches current depth path s) ∧
      ∀ k, k ∈ new ↔ k ∈ s.fresh g q fetches current := by
  rw [expand_eq]
  obtain ⟨new, hnew, hmem⟩ := recordAll_grows q.validAt current depth path
    (fun _ => entityName g current) (fun fact => entityName g fact.objectId)
    (fun fact => fact.objectId)
    (findFacts g (q.asSubject current) (fetches.asSubject s.visited.length))
    { s with visited := (current, depth) :: s.visited }
  obtain ⟨new', hnew', hmem'⟩ := recordAll_grows q.validAt current depth path
    (fun fact => entityName g fact.subjectId) (fun _ => entityName g current)
    (fun fact => fact.subjectId)
    (findFacts g (q.asObject current) (fetches.asObject s.visited.length))
    (recordAll q.validAt current depth path (fun _ => entityName g current)
      (fun fact => entityName g fact.objectId) (fun fact => fact.objectId)
      (findFacts g (q.asSubject current) (fetches.asSubject s.visited.length))
      { s with visited := (current, depth) :: s.visited })
  have hall := hnew.trans hnew'
  refine ⟨new ++ new', ⟨hall.seen, hall.results, hall.queue, hall.nodup, hall.unseen⟩, fun k => ?_⟩
  rw [List.mem_append, hmem, hmem', hnew.mem_seen, hmem, mem_fresh]
  simp only [Traversal.fetched, List.mem_append, or_and_right, exists_or]
  exact unseen_or_iff _ _ _

/-- An expansion adds one result and one entry of the queue for each fresh fact. -/
theorem length_expand (current : UUID) (depth : Nat) (path : List UUID) (s : Traversal) :
    (Traversal.expand g q fetches current depth path s).results.length =
      s.results.length + (s.fresh g q fetches current).length := by
  obtain ⟨new, hnew, hmem⟩ := expand_grows g q fetches current depth path s
  have hperm : new.Perm (s.fresh g q fetches current) :=
    (List.perm_ext_iff_of_nodup hnew.nodup (List.nodup_dedup _)).mpr hmem
  rw [hnew.results, hperm.length_eq]

def incidences (rows : List FactRow) : List (UUID × UUID) :=
  rows.flatMap fun row => [(row.subject, row.fact.factId), (row.object, row.fact.factId)]

theorem length_incidences (rows : List FactRow) : (incidences rows).length = 2 * rows.length := by
  induction rows with
  | nil => rfl
  | cons row rows ih =>
    simp only [incidences, List.flatMap_cons, List.length_append, List.length_cons,
      List.length_nil] at ih ⊢
    omega

def namedIncidences (facts : List KnowledgeFact) : List (UUID × UUID) :=
  facts.flatMap fun f => [(f.subjectId, f.factId), (f.objectId, f.factId)]

theorem length_namedIncidences (facts : List KnowledgeFact) :
    (namedIncidences facts).length = 2 * facts.length := by
  induction facts with
  | nil => rfl
  | cons f facts ih =>
    simp only [namedIncidences, List.flatMap_cons, List.length_append, List.length_cons,
      List.length_nil] at ih ⊢
    omega

theorem incidences_subset_named (hfollow : EdgesFollowFacts g) :
    incidences g.factRows ⊆ namedIncidences g.facts.rows := by
  intro p hp
  obtain ⟨row, hrow, hp⟩ := List.mem_flatMap.mp hp
  obtain ⟨hsubject, hobject, hget, -, -⟩ := mem_factRows.mp hrow
  obtain ⟨hs, ho⟩ := hfollow row.fact hget
  refine List.mem_flatMap.mpr ⟨row.fact, (KeyedTable.mem_rows_iff _).mpr hget, ?_⟩
  rw [← hs _ hsubject, ← ho _ hobject]
  exact hp

/-- After `n` passes: what was seen are distinct ends of facts, and each of them is one
result and one entry that was put on the queue. -/
structure Counted (g : Graph) (n : Nat) (s : Traversal) : Prop where
  nodup : s.seenEntityFacts.Nodup
  incident : s.seenEntityFacts ⊆ incidences g.factRows
  results : s.results.length = s.seenEntityFacts.length
  queue : n + s.queue.length = 1 + s.seenEntityFacts.length

theorem start_counted (seedId : UUID) : Counted g 0 (.start seedId) :=
  ⟨List.nodup_nil, List.nil_subset _, rfl, rfl⟩

theorem fresh_incident {s : Traversal} {current k : UUID} (h : k ∈ s.fresh g q fetches current) :
    (current, k) ∈ incidences g.factRows := by
  obtain ⟨-, f, hf, rfl, -⟩ := mem_fresh.mp h
  rcases List.mem_append.mp hf with hf | hf
  · obtain ⟨row, hrow, rfl, hadmits⟩ := exists_row_of_mem_findFacts hf
    have hsubject : row.subject = current := by
      simp only [FactFilter.admits, Search.asSubject, idCondition, Bool.and_eq_true,
        decide_eq_true_eq] at hadmits
      exact hadmits.1.1.1.1.1
    exact List.mem_flatMap.mpr ⟨row, hrow, by simp [hsubject]⟩
  · obtain ⟨row, hrow, rfl, hadmits⟩ := exists_row_of_mem_findFacts hf
    have hobject : row.object = current := by
      simp only [FactFilter.admits, Search.asObject, idCondition, Bool.and_eq_true,
        decide_eq_true_eq] at hadmits
      exact hadmits.1.1.1.2
    exact List.mem_flatMap.mpr ⟨row, hrow, by simp [hobject]⟩

theorem Counted.step {bound : Option Nat} {n : Nat} {s s' : Traversal} (h : Counted g n s)
    (hstep : s.stepWithin bound g q fetches = some s') : Counted g (n + 1) s' := by
  obtain ⟨current, depth, path, rest, hq, rfl | rfl⟩ := Traversal.stepWithin_cases hstep
  · have hqueue := h.queue
    rw [hq, List.length_cons] at hqueue
    exact ⟨h.nodup, h.incident, h.results, by simp only; omega⟩
  · obtain ⟨new, hnew, hmem⟩ := expand_grows g q fetches current depth path
      { s with queue := rest }
    have hqueue := h.queue
    rw [hq, List.length_cons] at hqueue
    refine ⟨?_, ?_, ?_, ?_⟩
    · rw [hnew.seen]
      refine List.nodup_append.mpr ⟨h.nodup, hnew.nodup.map fun a b hab => (Prod.mk.inj hab).2, ?_⟩
      rintro p hp _ hp' rfl
      obtain ⟨k, hk, rfl⟩ := List.mem_map.mp hp'
      exact hnew.unseen k hk hp
    · rw [hnew.seen]
      refine List.append_subset.mpr ⟨h.incident, fun p hp => ?_⟩
      obtain ⟨k, hk, rfl⟩ := List.mem_map.mp hp
      exact fresh_incident ((hmem k).mp hk)
    · have hresults := h.results
      rw [hnew.results, hnew.seen, List.length_append, List.length_map]
      simp only at hresults ⊢
      omega
    · rw [hnew.queue, hnew.seen, List.length_append, List.length_map]
      simp only
      omega

theorem Counted.seen_le {n : Nat} {s : Traversal} (h : Counted g n s) :
    s.seenEntityFacts.length ≤ 2 * g.factRows.length := by
  rw [← length_incidences]
  exact (List.Nodup.subperm h.nodup h.incident).length_le

theorem Counted.seen_le_named {n : Nat} {s : Traversal} (h : Counted g n s)
    (hfollow : EdgesFollowFacts g) : s.seenEntityFacts.length ≤ 2 * g.facts.rows.length := by
  rw [← length_namedIncidences]
  exact (List.Nodup.subperm h.nodup
    fun _ hp => incidences_subset_named hfollow (h.incident hp)).length_le

theorem passes_counted {bound : Option Nat} {seedId : UUID} {n : Nat} {s : Traversal}
    (h : Iteration.Passes (Traversal.stepWithin bound g q fetches) (.start seedId) n s) :
    Counted g n s :=
  h.preserves (Counted g) (fun _ _ _ hs hstep => hs.step hstep) (start_counted seedId)

def Traversal.rank (g : Graph) (s : Traversal) : Nat :=
  2 * g.factRows.length - s.seenEntityFacts.length + s.queue.length

theorem rank_lt {bound : Option Nat} {n : Nat} {s s' : Traversal} (h : Counted g n s)
    (hstep : s.stepWithin bound g q fetches = some s') : s'.rank g < s.rank g := by
  have hafter := h.step hstep
  have hle := hafter.seen_le
  have hqueue := h.queue
  have hqueue' := hafter.queue
  have hmono : s.seenEntityFacts.length ≤ s'.seenEntityFacts.length := by
    obtain ⟨current, depth, path, rest, -, rfl | rfl⟩ := Traversal.stepWithin_cases hstep
    · exact le_rfl
    · obtain ⟨new, hnew, -⟩ := expand_grows g q fetches current depth path
        { s with queue := rest }
      rw [hnew.seen, List.length_append]
      exact Nat.le_add_right _ _
  unfold Traversal.rank
  omega

end Work

/-- Whatever bound the loop has on its results, and with none, it ends, with at most two
results for each fact: one for each of its ends. As many entries and the seed's are put
on the queue, that is, are waiting after `n` passes or have been taken in one of them. -/
theorem traversal_work (g : Graph) (q : Search) (fetches : Fetches) (seedId : UUID)
    (bound : Option Nat) :
    Traversal.stepWithin bound g q fetches
      (Iteration.run (Traversal.stepWithin bound g q fetches) (1 + 2 * g.factRows.length)
        (.start seedId)) = none ∧
    ∀ n s, Iteration.Passes (Traversal.stepWithin bound g q fetches) (.start seedId) n s →
      (s.results.length ≤ 2 * g.factRows.length ∧
        n + s.queue.length ≤ 1 + 2 * g.factRows.length) ∧
      (EdgesFollowFacts g → s.results.length ≤ 2 * g.facts.rows.length ∧
        n + s.queue.length ≤ 1 + 2 * g.facts.rows.length) := by
  constructor
  · refine Iteration.step_run_eq_none_of (fun s => ∃ n, Counted g n s) ?_ (Traversal.rank g) ?_ _ _
      ⟨0, start_counted seedId⟩ ?_
    · rintro s s' ⟨n, hs⟩ hstep
      exact ⟨n + 1, hs.step hstep⟩
    · rintro s s' ⟨n, hs⟩ hstep
      exact rank_lt hs hstep
    · simp only [Traversal.rank, Traversal.start, List.length_nil, List.length_cons]
      omega
  · intro n s hpasses
    have hcounted := passes_counted hpasses
    have hresults := hcounted.results
    have hqueue := hcounted.queue
    constructor
    · have hle := hcounted.seen_le
      omega
    · intro hfollow
      have hle := hcounted.seen_le_named hfollow
      omega

section Budget

variable {g : Graph} {q : Search} {fetches : Fetches}

theorem length_mono {s t : Traversal} (h : Iteration.Reaches (Traversal.step g q fetches) s t) :
    s.results.length ≤ t.results.length := by
  refine h.preserves (fun t => s.results.length ≤ t.results.length) ?_ le_rfl
  intro t t' hle hstep
  obtain ⟨current, depth, path, rest, -, -, ⟨-, rfl⟩ | ⟨-, rfl⟩⟩ := Traversal.step_cases hstep
  · exact hle
  · rw [length_expand]
    exact hle.trans (Nat.le_add_right _ _)

theorem reaches_traverse {seedId : UUID} {s : Traversal}
    (h : Iteration.Reaches (Traversal.step g q fetches) (.start seedId) s) :
    Iteration.Reaches (Traversal.step g q fetches) s (traverse g q fetches seedId) :=
  h.reaches_end (Iteration.reaches_run _ _) (step_traverse g q fetches seedId)

end Budget

/-- Whenever the loop expands a node, its fresh facts fit in what is left of the bound. -/
def ExpansionsFit (g : Graph) (q : Search) (fetches : Fetches) (seedId : UUID) : Prop :=
  ∀ s, Iteration.Reaches (Traversal.step g q fetches) (.start seedId) s →
    ∀ current depth path rest, s.queue = (current, depth, path) :: rest →
      (depth : Int) ≤ q.maxDepth → s.results.length < graphTraversalMaxFacts →
      s.results.length + (s.fresh g q fetches current).length ≤ graphTraversalMaxFacts

theorem traverse_within_bound_iff (g : Graph) (q : Search) (fetches : Fetches) (seedId : UUID) :
    (traverse g q fetches seedId).results.length ≤ graphTraversalMaxFacts ↔
      ExpansionsFit g q fetches seedId := by
  constructor
  · intro hle s hs current depth path rest hq hdepth hlt
    have hstep : s.step g q fetches =
        some (Traversal.expand g q fetches current depth path { s with queue := rest }) := by
      simp only [Traversal.step, hq, Nat.not_le.mpr hlt, Int.not_lt.mpr hdepth, if_false]
    have hmono := length_mono (reaches_traverse (hs.tail hstep))
    rw [length_expand] at hmono
    exact hmono.trans hle
  · intro hfit
    have hinv : ∀ s, Iteration.Reaches (Traversal.step g q fetches) (.start seedId) s →
        s.results.length ≤ graphTraversalMaxFacts := by
      intro s hs
      induction hs with
      | refl => exact Nat.zero_le _
      | tail hs hstep ih =>
        obtain ⟨current, depth, path, rest, hq, hlt, ⟨-, rfl⟩ | ⟨hdepth, rfl⟩⟩ :=
          Traversal.step_cases hstep
        · exact ih
        · rw [length_expand]
          exact hfit _ hs current depth path rest hq hdepth hlt
    exact hinv _ (Iteration.reaches_run _ _)

def crowdedGraph : Graph where
  entities := ⟨[sampleEntity 1 "Ada", sampleEntity 2 "Bob"], by decide⟩
  facts := ⟨(List.range 51).map fun i => sampleFact (10 + i) 1 2 "t", by decide +kernel⟩
  mentions := .empty
  chunks := []
  subjectOf := (List.range 51).map fun i => (1, BitVec.ofNat 128 (10 + i))
  object := (List.range 51).map fun i => (BitVec.ofNat 128 (10 + i), 2)
  supersededBy := []
  mentionedIn := []

theorem traverse_beyond_bound :
    ¬ ∀ (g : Graph) (q : Search) (fetches : Fetches) (seedId : UUID),
      (traverse g q fetches seedId).results.length ≤ graphTraversalMaxFacts := by
  intro h
  exact absurd (h crowdedGraph sampleSearch storedOrder 1) (by decide +kernel)

end GroundGraph.Retrieval

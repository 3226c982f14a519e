import GroundGraph.Retrieval.GraphAgreement
import GroundGraph.Retrieval.GraphCoverage

/-! The predicates of a search. The queries ask for the first of them only, so the traversal
follows the whole list just where the first one admits the same facts.
-/

set_option autoImplicit false

namespace GroundGraph.Retrieval

open GroundGraph.Knowledge GroundGraph.Neo4j EdgeTraversal

/-- The predicate is a member of the list, or there is no list to be a member of. -/
def Search.lists (q : Search) (predicate : String) : Bool :=
  match q.predicates with
  | none | some [] => true
  | some ps => decide (predicate ∈ ps)

def Search.anyPredicate (q : Search) : Search := { q with predicates := none }

def admitsFact (g : Graph) (admits : String → Bool) (k : UUID) : Bool :=
  (g.facts.get? k).any fun f => admits f.predicate

def edgeThrough (g : Graph) (q : Search) (admits : String → Bool) (n k : UUID) : Option UUID :=
  if admitsFact g admits k then edge g q.anyPredicate n k else none

section Edges

variable {g : Graph} {q : Search}

theorem matching_asSubject (n : UUID) :
    matching g (q.asSubject n) = (matching g (q.anyPredicate.asSubject n)).filter
      fun f => textCondition q.predicate f.predicate := by
  unfold matching
  rw [List.filter_map, List.filter_filter]
  refine congrArg (List.map FactRow.fact) (List.filter_congr fun row _ => ?_)
  rw [Bool.eq_iff_iff]
  simp only [FactFilter.admits, Search.asSubject, Search.anyPredicate, Search.allowedPrincipals,
    Search.predicate, Bool.and_eq_true, Function.comp_apply, textCondition, and_true]
  tauto

theorem matching_asObject (n : UUID) :
    matching g (q.asObject n) = (matching g (q.anyPredicate.asObject n)).filter
      fun f => textCondition q.predicate f.predicate := by
  unfold matching
  rw [List.filter_map, List.filter_filter]
  refine congrArg (List.map FactRow.fact) (List.filter_congr fun row _ => ?_)
  rw [Bool.eq_iff_iff]
  simp only [FactFilter.admits, Search.asObject, Search.anyPredicate, Search.allowedPrincipals,
    Search.predicate, Bool.and_eq_true, Function.comp_apply, textCondition, and_true]
  tauto

/-- A condition on the predicates lets all edges of a fact pass, or none. -/
theorem firstOf_filter (admits : String → Bool) (validAt : Option Instant)
    (other : KnowledgeFact → UUID) (k : UUID) {facts : List KnowledgeFact}
    (hstored : ∀ f ∈ facts, g.facts.get? f.factId = some f) :
    firstOf (((facts.filter fun f => admits f.predicate).filter
        fun f => isTemporalValid f validAt).map fun f => (f.factId, other f)) k =
      if admitsFact g admits k then firstOf ((facts.filter fun f => isTemporalValid f validAt).map
        fun f => (f.factId, other f)) k else none := by
  induction facts with
  | nil => simp [firstOf]
  | cons f facts ih =>
    have hrest := ih fun f' hf' => hstored f' (List.mem_cons_of_mem _ hf')
    by_cases hk : f.factId = k
    · have hget : admitsFact g admits k = admits f.predicate := by
        simp [admitsFact, ← hk, hstored f List.mem_cons_self]
      rw [hget] at hrest ⊢
      cases hadmits : admits f.predicate <;> cases hvalid : isTemporalValid f validAt <;>
        simp_all [firstOf]
    · cases hadmits : admits f.predicate <;> cases hvalid : isTemporalValid f validAt <;>
        simp_all [firstOf]

theorem edge_eq_edgeThrough : edge g q = edgeThrough g q (textCondition q.predicate) := by
  funext n k
  unfold edge edgeThrough edgesAsSubject edgesAsObject
  rw [firstOf_append, matching_asSubject, matching_asObject,
    firstOf_filter _ _ _ _ stored_of_mem_matching, firstOf_filter _ _ _ _ stored_of_mem_matching]
  unfold edge edgesAsSubject edgesAsObject
  rw [firstOf_append]
  split <;> rfl

theorem edgeThrough_eq_some_iff {admits : String → Bool} {n k m : UUID} :
    edgeThrough g q admits n k = some m ↔
      admitsFact g admits k = true ∧ edge g q.anyPredicate n k = some m := by
  unfold edgeThrough
  split
  · rename_i h
    simp [h]
  · rename_i h
    simp [h]

theorem walk_mono {edge edge' : UUID → UUID → Option UUID} {seedId : UUID} {bound : Int}
    (h : ∀ j n, Walk edge seedId j n → (j : Int) + 1 ≤ bound → ∀ k m, edge n k = some m →
      edge' n k = some m) {j : Nat} {n : UUID} (hwalk : Walk edge seedId j n) (hj : (j : Int) ≤ bound) :
    Walk edge' seedId j n := by
  induction hwalk with
  | nil => exact .nil
  | @cons j n m k hprev he ih =>
    have hj' : (j : Int) + 1 ≤ bound := by push_cast at hj; exact hj
    exact .cons (ih (by omega)) (h j n hprev hj' k m he)

theorem reaches_mono {edge edge' : UUID → UUID → Option UUID} {seedId : UUID} {bound : Int}
    (h : ∀ j n, Walk edge seedId j n → (j : Int) + 1 ≤ bound → ∀ k m, edge n k = some m →
      edge' n k = some m) {k : UUID} {d : Nat} (hreach : Reaches edge seedId bound k d) :
    Reaches edge' seedId bound k d := by
  obtain ⟨j, n, rfl, hbound, hwalk, hsome⟩ := hreach
  obtain ⟨m, hm⟩ := Option.isSome_iff_exists.mp hsome
  have hj : (j : Int) + 1 ≤ bound := by push_cast at hbound; exact hbound
  exact ⟨j, n, rfl, hbound, walk_mono h hwalk (by omega), by simp [h j n hwalk hj k m hm]⟩

end Edges

/-- The evidence from the seed is for exactly the facts that the listed predicates lead to. -/
def FollowsList (sc : Scoring) (g : Graph) (q : Search) (fetches : Nat → Fetches)
    (seed : CanonicalEntity) : Prop :=
  ∃ evidence, retrieveEvidence sc g q fetches [seed] = some evidence ∧
    ∀ k, (∃ e ∈ evidence, e.evidenceId = k) ↔
      ∃ d, Reaches (edgeThrough g q q.lists) seed.entityId q.maxDepth k d

/-- Of the facts at an entity that the first predicate leads to, it admits those listed. -/
def FirstPredicateSuffices (g : Graph) (q : Search) (seedId : UUID) : Prop :=
  ∀ j n, Walk (edge g q) seedId j n → (j : Int) + 1 ≤ q.maxDepth →
    ∀ k m, edge g q.anyPredicate n k = some m →
      (admitsFact g (textCondition q.predicate) k = true ↔ admitsFact g q.lists k = true)

/-- No fact that the first predicate leads to is observed too far ahead to be scored. -/
def NoneTooFarAhead (sc : Scoring) (g : Graph) (q : Search) (seedId : UUID) : Prop :=
  ∀ k d, Reaches (edge g q) seedId q.maxDepth k d →
    ∀ f, g.facts.get? k = some f → sc.overflows f = false

section Filter

variable {g : Graph} {q : Search}

theorem collected_iff_reaches {fetches : Nat → Fetches} {seed : CanonicalEntity}
    (hcap : Uncapped g q fetches [seed]) (k : UUID) :
    (∃ r ∈ allEntries g q fetches [seed], r.fact.factId = k) ↔
      ∃ d, Reaches (edge g q) seed.entityId q.maxDepth k d := by
  have hentries : allEntries g q fetches [seed] =
      (traverse g q (fetches 0) seed.entityId).results := List.append_nil _
  constructor
  · rintro ⟨r, hr, rfl⟩
    obtain ⟨first, hfirst, -⟩ := exists_firstEntry hr
    rw [hentries] at hfirst
    exact ⟨first.depth, ((firstEntry_depth_eq_some_iff hcap.1 _ _).mp
      (congrArg (Option.map FactWithNames.depth) hfirst)).1⟩
  · intro hreach
    classical
    have hdepth := (firstEntry_depth_eq_some_iff hcap.1 k _).mpr (Nat.isLeast_find hreach)
    obtain ⟨r, hfirst, -⟩ := Option.map_eq_some_iff.mp hdepth
    obtain ⟨hmem, rfl⟩ := firstEntry_some hfirst
    exact ⟨r, hentries ▸ hmem, rfl⟩

theorem listed_iff_reaches {sc : Scoring} {fetches : Nat → Fetches} {seed : CanonicalEntity}
    (hcap : Uncapped g q fetches [seed]) {evidence : List Evidence}
    (hevidence : retrieveEvidence sc g q fetches [seed] = some evidence) (k : UUID) :
    (∃ e ∈ evidence, e.evidenceId = k) ↔
      ∃ d, Reaches (edge g q) seed.entityId q.maxDepth k d := by
  rw [← collected_iff_reaches hcap]
  constructor
  · rintro ⟨e, he, rfl⟩
    obtain ⟨k, r, hfirst, rfl⟩ := (mem_retrieveEvidence hevidence).mp he
    exact ⟨r, (firstEntry_some hfirst).1, rfl⟩
  · rintro ⟨r, hr, rfl⟩
    exact evidence_of_entry hevidence hr

theorem returns_iff_noneTooFarAhead {sc : Scoring} {fetches : Nat → Fetches}
    {seed : CanonicalEntity} (hcap : Uncapped g q fetches [seed]) :
    (retrieveEvidence sc g q fetches [seed]).isSome = true ↔
      NoneTooFarAhead sc g q seed.entityId := by
  rw [retrieveEvidence_isSome_iff]
  constructor
  · intro hscored k d hreach f hf
    obtain ⟨r, hr, rfl⟩ := (collected_iff_reaches hcap k).mpr ⟨d, hreach⟩
    rw [allEntries_stored _ _ r hr] at hf
    exact Option.some.inj hf ▸ hscored r hr
  · intro hnone r hr
    obtain ⟨d, hreach⟩ := (collected_iff_reaches hcap _).mp ⟨r, hr, rfl⟩
    exact hnone _ d hreach r.fact (allEntries_stored _ _ r hr)

theorem lists_of_first {predicate : String} (hfirst : q.predicate ≠ some "")
    (h : textCondition q.predicate predicate = true) : q.lists predicate = true := by
  unfold Search.predicate at hfirst h
  unfold Search.lists
  cases hp : q.predicates with
  | none => rfl
  | some ps =>
    cases ps with
    | nil => rfl
    | cons p ps =>
      simp only [hp, ne_eq, Option.some.injEq] at hfirst h
      simp only [textCondition, Bool.or_eq_true, decide_eq_true_eq] at h
      rcases h with h | h
      · exact absurd h hfirst
      · simp [h]

/-- A fact that passes one condition at one node it is found from passes it at each. -/
theorem admitsFact_of_reaches {admits : String → Bool} {seedId : UUID} {bound : Int} {k : UUID}
    {d : Nat} (h : Reaches (edgeThrough g q admits) seedId bound k d) :
    admitsFact g admits k = true := by
  obtain ⟨j, n, -, -, -, hsome⟩ := h
  obtain ⟨m, hm⟩ := Option.isSome_iff_exists.mp hsome
  exact (edgeThrough_eq_some_iff.mp hm).1

theorem admitsFact_mono {admits admits' : String → Bool}
    (h : ∀ p, admits p = true → admits' p = true) {k : UUID} (hk : admitsFact g admits k = true) :
    admitsFact g admits' k = true := by
  obtain ⟨f, hf, hp⟩ := Option.any_eq_true .. |>.mp hk
  exact Option.any_eq_true .. |>.mpr ⟨f, hf, h _ hp⟩

theorem walk_lists (hempty : q.predicate ≠ some "") {seedId : UUID} {j : Nat} {n : UUID}
    (hwalk : Walk (edge g q) seedId j n) : Walk (edgeThrough g q q.lists) seedId j n := by
  refine walk_mono (fun i a _ _ k m hm => ?_) hwalk (le_refl (j : Int))
  rw [edge_eq_edgeThrough] at hm
  obtain ⟨hfirst, hany⟩ := edgeThrough_eq_some_iff.mp hm
  exact edgeThrough_eq_some_iff.mpr ⟨admitsFact_mono (fun _ => lists_of_first hempty) hfirst, hany⟩

theorem FirstPredicateSuffices.edge_iff {seedId : UUID}
    (hsuffices : FirstPredicateSuffices g q seedId) {j : Nat} {n : UUID}
    (hwalk : Walk (edge g q) seedId j n) (hj : (j : Int) + 1 ≤ q.maxDepth) (k m : UUID) :
    edge g q n k = some m ↔ edgeThrough g q q.lists n k = some m := by
  rw [edge_eq_edgeThrough, edgeThrough_eq_some_iff, edgeThrough_eq_some_iff]
  exact and_congr_left fun hany => hsuffices j n hwalk hj k m hany

theorem walk_of_lists {seedId : UUID} (hsuffices : FirstPredicateSuffices g q seedId) {j : Nat}
    {n : UUID} (hwalk : Walk (edgeThrough g q q.lists) seedId j n) (hj : (j : Int) ≤ q.maxDepth) :
    Walk (edge g q) seedId j n := by
  induction hwalk with
  | nil => exact .nil
  | @cons j n m k _ he ih =>
    have hj' : (j : Int) + 1 ≤ q.maxDepth := by push_cast at hj; exact hj
    have hprev := ih (by omega)
    exact .cons hprev ((hsuffices.edge_iff hprev hj' k m).mpr he)

theorem reaches_lists_iff {seedId : UUID} (hsuffices : FirstPredicateSuffices g q seedId)
    (k : UUID) : (∃ d, Reaches (edge g q) seedId q.maxDepth k d) ↔
      ∃ d, Reaches (edgeThrough g q q.lists) seedId q.maxDepth k d := by
  constructor
  · rintro ⟨d, hd⟩
    exact ⟨d, reaches_mono (fun j n hwalk hj k m => (hsuffices.edge_iff hwalk hj k m).mp) hd⟩
  · rintro ⟨d, hd⟩
    refine ⟨d, reaches_mono (fun j n hwalk hj k m => ?_) hd⟩
    exact (hsuffices.edge_iff (walk_of_lists hsuffices hwalk (by omega)) hj k m).mpr

end Filter

/-- The list and its first predicate lead to the same facts if and only if the first predicate
admits what the list does wherever it leads. -/
theorem sameReach_iff (g : Graph) (q : Search) (seedId : UUID) :
    (∀ k, (∃ d, Reaches (edge g q) seedId q.maxDepth k d) ↔
        ∃ d, Reaches (edgeThrough g q q.lists) seedId q.maxDepth k d) ↔
      FirstPredicateSuffices g q seedId := by
  constructor
  · intro hsame j n hwalk hj k m hany
    constructor
    · intro hfirst
      have hm : edge g q n k = some m := by
        rw [edge_eq_edgeThrough]
        exact edgeThrough_eq_some_iff.mpr ⟨hfirst, hany⟩
      obtain ⟨d, hd⟩ := (hsame k).mp ⟨j + 1, j, n, rfl, by push_cast; exact hj, hwalk, by simp [hm]⟩
      exact admitsFact_of_reaches hd
    · intro hlisted
      by_cases hempty : q.predicate = some ""
      · -- the empty first predicate admits everything
        exact admitsFact_mono (fun _ _ => by simp [hempty, textCondition]) hlisted
      · have hm : edgeThrough g q q.lists n k = some m :=
          edgeThrough_eq_some_iff.mpr ⟨hlisted, hany⟩
        obtain ⟨d, hd⟩ :=
          (hsame k).mpr ⟨j + 1, j, n, rfl, by push_cast; exact hj, walk_lists hempty hwalk, by simp [hm]⟩
        rw [edge_eq_edgeThrough] at hd
        exact admitsFact_of_reaches hd
  · exact reaches_lists_iff

/-- Where no result is cut off, the evidence follows the whole list of predicates if and only
if its first predicate admits what the list does wherever the first one leads, and it leads to
no fact that cannot be scored. -/
theorem followsList_iff (sc : Scoring) (g : Graph) (q : Search) (fetches : Nat → Fetches)
    (seed : CanonicalEntity) (hcap : Uncapped g q fetches [seed]) :
    FollowsList sc g q fetches seed ↔
      FirstPredicateSuffices g q seed.entityId ∧ NoneTooFarAhead sc g q seed.entityId := by
  rw [← sameReach_iff, ← returns_iff_noneTooFarAhead hcap, Option.isSome_iff_exists]
  constructor
  · rintro ⟨evidence, hevidence, hlist⟩
    exact ⟨fun k => (listed_iff_reaches hcap hevidence k).symm.trans (hlist k), evidence, hevidence⟩
  · rintro ⟨hsame, evidence, hevidence⟩
    exact ⟨evidence, hevidence, fun k => (listed_iff_reaches hcap hevidence k).trans (hsame k)⟩

theorem firstPredicateSuffices_of_single {g : Graph} {q : Search} {predicates : List String}
    (hq : q.predicates = some predicates) (hlength : predicates.length ≤ 1)
    (hempty : "" ∉ predicates) (seedId : UUID) : FirstPredicateSuffices g q seedId := by
  intro j n _ _ k m _
  have heq : textCondition q.predicate = q.lists := by
    funext p
    unfold Search.predicate Search.lists
    rw [hq]
    rcases predicates with _ | ⟨p', _ | ⟨_, _⟩⟩
    · rfl
    · have hne : p' ≠ "" := fun h => hempty (by simp [h])
      simp [textCondition, hne]
    · simp at hlength
  rw [heq]

/-- Ada knows Bob, and the search is for what she likes or knows. -/
theorem followsList_fails :
    ¬ ∀ (sc : Scoring) (g : Graph) (q : Search) (fetches : Nat → Fetches) (seed : CanonicalEntity),
      Uncapped g q fetches [seed] → FollowsList sc g q fetches seed := by
  intro h
  obtain ⟨evidence, hevidence, hlist⟩ := h sampleScoring sampleGraph
    { sampleSearch with predicates := some ["likes", "knows"] } (fun _ => storedOrder)
    (sampleEntity 1 "Ada") ⟨⟨by decide, by decide⟩, trivial⟩
  obtain rfl : [] = evidence := Option.some.inj hevidence
  obtain ⟨e, he, -⟩ := (hlist 10).mpr ⟨1, 0, 1, rfl, by decide, .nil, by decide⟩
  cases he

theorem followsList_sample :
    FollowsList sampleScoring sampleGraph { sampleSearch with predicates := some ["knows"] }
      (fun _ => storedOrder) (sampleEntity 1 "Ada") := by
  refine (followsList_iff sampleScoring sampleGraph
    { sampleSearch with predicates := some ["knows"] } (fun _ => storedOrder)
    (sampleEntity 1 "Ada") ⟨⟨by decide, by decide⟩, trivial⟩).mpr
      ⟨firstPredicateSuffices_of_single rfl (by decide) (by decide) _, ?_⟩
  intro k _ _ f hf
  obtain rfl := List.mem_singleton.mp (sampleGraph.facts.get?_some_iff.mp hf).1
  decide

end GroundGraph.Retrieval

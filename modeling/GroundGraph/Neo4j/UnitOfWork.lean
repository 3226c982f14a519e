import GroundGraph.Library.LabelledSystem
import GroundGraph.Neo4j.Nodes

/-! `Neo4jUnitOfWork` around calls of the repository. `update_fact_status` writes before it
validates, so what keeps the stored facts loadable is that its exception reaches the unit of
work, which rolls the write back.
-/

set_option autoImplicit false

namespace GroundGraph.Neo4j.Nodes

open GroundGraph.Knowledge Transaction

/-- Every stored fact passes the validators of `KnowledgeFact`. -/
def Loads (co : Conversions) (s : NodeStore) : Prop :=
  ∀ n ∈ s.facts.rows, (dictToFact co n).isSome = true

/-- A started unit of work: what is committed, and what its transaction shows. -/
structure Uow where
  committed : NodeStore
  pending : NodeStore
  finished : Bool := false

inductive UowCall where
  | createFact (f : KnowledgeFact)
  | updateFactStatus (factId : UUID) (status : String) (supersededBy : Option UUID)
  | commit
  | rollback

/-- A call of the repository; after a commit or rollback the transaction is not active. -/
def onPending {α : Type} (x : GraphTransaction α) : Transaction GraphQuery GraphError Uow Unit :=
  fun faults u =>
    if u.finished then .raised .inactive u
    else
      match x faults u.pending with
      | .returned _ s => .returned () { u with pending := s }
      | .raised e s => .raised e { u with pending := s }

/-- `commit()`. It may take effect although the driver raises. -/
def commit : Transaction GraphQuery GraphError Uow Unit := fun faults u =>
  if u.finished then .raised .closed u
  else
    match faults .commit with
    | none => .returned () { u with committed := u.pending, finished := true }
    | some .unacknowledged => .raised .unacknowledged { u with committed := u.pending }
    | some e => .raised e u

def rollback : Transaction GraphQuery GraphError Uow Unit :=
  .perform .rollback fun u =>
    if u.finished then .error .closed else .ok ((), { u with finished := true })

def UowCall.body (co : Conversions) : UowCall → Transaction GraphQuery GraphError Uow Unit
  | .createFact f => onPending (Nodes.createFact f)
  | .updateFactStatus factId status supersededBy =>
    onPending (Nodes.updateFactStatus co factId status supersededBy)
  | .commit => Nodes.commit
  | .rollback => Nodes.rollback

abbrev FaultyCall := UowCall × (GraphQuery → Option GraphError)

/-- The body: an exception of a call ends it. -/
def runCalls (co : Conversions) : List FaultyCall → Uow → Ending GraphError Uow Unit
  | [], u => .returned () u
  | call :: rest, u =>
    match call.1.body co call.2 u with
    | .raised e v => .raised e v
    | .returned () v => runCalls co rest v

def Uow.begin (s : NodeStore) : Uow := ⟨s, s, false⟩

/-- `async with Neo4jUnitOfWork(…)`: `__aexit__` commits after a body that returned, unless it
has committed or rolled back itself, and rolls back after an exception. -/
def unitOfWork (co : Conversions) (body : List FaultyCall)
    (exit : GraphQuery → Option GraphError) (s : NodeStore) : NodeStore × Except GraphError Unit :=
  match runCalls co body (.begin s) with
  | .raised e u => (u.committed, .error e)
  | .returned () u =>
    if u.finished then (u.committed, .ok ())
    else
      match Nodes.commit exit u with
      | .raised e v => (v.committed, .error e)
      | .returned () v => (v.committed, .ok ())

def uowSystem (co : Conversions) (entities : KeyedTable EntityNode.entityId) :
    LabelledSystem NodeStore (List FaultyCall × (GraphQuery → Option GraphError)) where
  start := .withEntities entities
  step s a := some (unitOfWork co a.1 a.2 s).1

def UowCall.write : UowCall → NodeStore → Except GraphError NodeStore
  | .createFact f, s => .ok (mergeFact f s)
  | .updateFactStatus factId status supersededBy, s => setStatus factId status supersededBy s
  | .commit, s => .ok s
  | .rollback, s => .ok s

variable {co : Conversions}

theorem loads_mergeFact (hco : ReadsUuids co) {s : NodeStore} (h : Loads co s) (f : KnowledgeFact) :
    Loads co (mergeFact f s) := by
  intro n hn
  rcases KeyedTable.mem_upsert hn with hn | rfl
  · exact h n hn
  · rw [dictToFact_factNode hco, Option.isSome_some]

theorem setStatus_ok {factId : UUID} {status : String} {supersededBy : Option UUID}
    {s t : NodeStore} (h : setStatus factId status supersededBy s = .ok t) :
    (s.hasFact factId = false ∧ t = s) ∨
      (s.hasFact factId = true ∧
        t.facts = s.facts.modifyAt (uuidString factId) (FactNode.withStatus status)
          (FactNode.factId_withStatus status) ∧
        t.entities = s.entities ∧ t.subjectOf = s.subjectOf ∧ t.object = s.object ∧
        t.supersededBy = supersededBy.elim s.supersededBy fun new =>
          mergeEdge s.supersededBy (factId, new)) := by
  unfold setStatus at h
  split at h
  · rename_i hfact
    cases supersededBy with
    | none =>
      obtain rfl := Except.ok.inj h
      exact Or.inr ⟨hfact, rfl, rfl, rfl, rfl, rfl⟩
    | some new =>
      simp only at h
      split at h
      · obtain rfl := Except.ok.inj h
        exact Or.inr ⟨hfact, rfl, rfl, rfl, rfl, rfl⟩
      · cases h
  · rename_i hfact
    exact Or.inl ⟨by simpa using hfact, (Except.ok.inj h).symm⟩

theorem loads_setStatus {factId : UUID} {status : String} {supersededBy : Option UUID}
    {s t : NodeStore} (hs : Loads co s) (h : setStatus factId status supersededBy s = .ok t)
    (hread : ∀ n, t.facts.get? (uuidString factId) = some n → (dictToFact co n).isSome = true) :
    Loads co t := by
  obtain ⟨_, rfl⟩ | ⟨_, hfacts, _⟩ := setStatus_ok h
  · exact hs
  · intro n hn
    have hget := t.facts.mem_rows_iff.mp hn
    by_cases hid : n.factId = uuidString factId
    · rw [hid] at hget
      exact hread n hget
    · rw [hfacts, KeyedTable.get?_modifyAt, if_neg hid] at hget
      exact hs n (s.facts.get?_some_iff.mp hget).1

/-- An update that returns has written, and read back a fact that is valid. -/
theorem updateFactStatus_returned {factId : UUID} {status : String} {supersededBy : Option UUID}
    {faults : GraphQuery → Option GraphError} {s t : NodeStore} {f : KnowledgeFact}
    (h : updateFactStatus co factId status supersededBy faults s = .returned f t) :
    setStatus factId status supersededBy s = .ok t ∧
      ∃ n, t.facts.get? (uuidString factId) = some n ∧ dictToFact co n = some f := by
  obtain ⟨u, m, hwrite, h⟩ := bind_returned_iff.mp h
  obtain ⟨_, hset⟩ := perform_returned_iff.mp hwrite
  obtain ⟨fact, m', hget, h⟩ := bind_returned_iff.mp h
  obtain ⟨_, hread, rfl⟩ := query_returned_iff.mp hget
  have hset' : setStatus factId status supersededBy s = .ok m' := by
    cases hs : setStatus factId status supersededBy s with
    | error e => simp [hs, Except.map] at hset
    | ok t' =>
      simp only [hs, Except.map, Except.ok.injEq, Prod.mk.injEq, true_and] at hset
      rw [hset]
  cases fact with
  | none => cases h
  | some f' =>
    obtain ⟨rfl, rfl⟩ := pure_returned_iff.mp h
    refine ⟨hset', ?_⟩
    split at hread
    · cases hread
    · rename_i n hn
      split at hread
      · rename_i f'' hf
        obtain rfl := Option.some.inj (Except.ok.inj hread)
        exact ⟨n, hn, hf⟩
      · cases hread

theorem createFact_triple (hco : ReadsUuids co) (f : KnowledgeFact) :
    Triple (Loads co) (createFact f) (fun _ => Loads co) fun _ => True :=
  triple_write (fun _ _ => trivial) fun _ hs => loads_mergeFact hco hs f

theorem updateFactStatus_triple (factId : UUID) (status : String) (supersededBy : Option UUID) :
    Triple (Loads co) (updateFactStatus co factId status supersededBy) (fun _ => Loads co)
      fun _ => True := by
  intro faults s hs
  cases hend : updateFactStatus co factId status supersededBy faults s with
  | raised e t => trivial
  | returned f t =>
    obtain ⟨hset, n, hn, hf⟩ := updateFactStatus_returned hend
    refine loads_setStatus hs hset fun n' hn' => ?_
    obtain rfl : n = n' := Option.some.inj (hn.symm.trans hn')
    rw [hf, Option.isSome_some]

structure UowLoads (co : Conversions) (u : Uow) : Prop where
  committed : Loads co u.committed
  pending : Loads co u.pending

theorem onPending_triple {α : Type} {x : GraphTransaction α}
    (h : Triple (Loads co) x (fun _ => Loads co) fun _ => True) :
    Triple (UowLoads co) (onPending x) (fun _ => UowLoads co) fun u => Loads co u.committed := by
  intro faults u hu
  by_cases hf : u.finished = true
  · simp only [onPending, hf, if_true]
    exact hu.committed
  · have hx := h faults u.pending hu.pending
    cases hend : x faults u.pending with
    | returned a s =>
      simp only [onPending, hf, hend]
      rw [hend] at hx
      exact ⟨hu.committed, hx⟩
    | raised e s =>
      simp only [onPending, hf, hend]
      exact hu.committed

theorem commit_triple :
    Triple (UowLoads co) commit (fun _ => UowLoads co) fun u => Loads co u.committed := by
  intro faults u hu
  by_cases hf : u.finished = true
  · simp only [commit, hf, if_true]
    exact hu.committed
  · cases hcommit : faults .commit with
    | none =>
      simp only [commit, hf, hcommit]
      exact ⟨hu.pending, hu.pending⟩
    | some e =>
      cases e with
      | unacknowledged =>
        simp only [commit, hf, hcommit]
        exact hu.pending
      | _ =>
        simp only [commit, hf, hcommit]
        exact hu.committed

theorem rollback_triple :
    Triple (UowLoads co) rollback (fun _ => UowLoads co) fun u => Loads co u.committed := by
  refine triple_perform (fun _ hu => hu.committed) fun u _ v hu hv => ?_
  split at hv
  · cases hv
  · obtain ⟨_, rfl⟩ := Prod.mk.inj (Except.ok.inj hv)
    exact ⟨hu.committed, hu.pending⟩

theorem body_triple (hco : ReadsUuids co) (call : UowCall) :
    Triple (UowLoads co) (call.body co) (fun _ => UowLoads co) fun u => Loads co u.committed := by
  cases call with
  | createFact f => exact onPending_triple (createFact_triple hco f)
  | updateFactStatus factId status supersededBy =>
    exact onPending_triple (updateFactStatus_triple factId status supersededBy)
  | commit => exact commit_triple
  | rollback => exact rollback_triple

theorem runCalls_loads (hco : ReadsUuids co) (body : List FaultyCall) {u : Uow}
    (hu : UowLoads co u) :
    match runCalls co body u with
    | .returned _ v => UowLoads co v
    | .raised _ v => Loads co v.committed := by
  induction body generalizing u with
  | nil => exact hu
  | cons call rest ih =>
    have hcall := body_triple hco call.1 call.2 u hu
    unfold runCalls
    cases hend : call.1.body co call.2 u with
    | raised e v =>
      rw [hend] at hcall
      exact hcall
    | returned _ v =>
      rw [hend] at hcall
      exact ih hcall

theorem unitOfWork_loads (hco : ReadsUuids co) (body : List FaultyCall)
    (exit : GraphQuery → Option GraphError) {s : NodeStore} (hs : Loads co s) :
    Loads co (unitOfWork co body exit s).1 := by
  have hrun := runCalls_loads hco body (u := .begin s) ⟨hs, hs⟩
  unfold unitOfWork
  cases hend : runCalls co body (.begin s) with
  | raised e u =>
    rw [hend] at hrun
    exact hrun
  | returned _ u =>
    rw [hend] at hrun
    simp only
    split
    · exact hrun.committed
    · have hcommit := commit_triple exit u hrun
      cases hexit : commit exit u with
      | raised e v =>
        rw [hexit] at hcommit
        exact hcommit
      | returned _ v =>
        rw [hexit] at hcommit
        exact hcommit.committed

theorem reachable_loads (hco : ReadsUuids co) {entities : KeyedTable EntityNode.entityId}
    {s : NodeStore} (h : (uowSystem co entities).Reachable s) : Loads co s :=
  (uowSystem co entities).reachable_invariant (fun n hn => by cases hn)
    (fun s a t hs ht => by
      obtain rfl := Option.some.inj ht
      exact unitOfWork_loads hco a.1 a.2 hs) h

theorem getFact_returns {s : NodeStore} (hs : Loads co s) (factId : UUID) :
    ∃ f, getFact co factId noFaults s = .returned f s := by
  unfold getFact
  rw [query_noFaults]
  cases hget : s.facts.get? (uuidString factId) with
  | none => exact ⟨none, rfl⟩
  | some n =>
    obtain ⟨f, hf⟩ := Option.isSome_iff_exists.mp (hs n (s.facts.get?_some_iff.mp hget).1)
    exact ⟨some f, by simp [hf]⟩

theorem mapM_dictToFact {s : NodeStore} (hs : Loads co s) {rows : List NodeRow}
    (hrows : ∀ row ∈ rows, row.node ∈ s.facts.rows) :
    ∃ fs, rows.mapM (fun row => dictToFact co row.node) = some fs := by
  induction rows with
  | nil => exact ⟨[], rfl⟩
  | cons row rows ih =>
    obtain ⟨f, hf⟩ := Option.isSome_iff_exists.mp (hs row.node (hrows row List.mem_cons_self))
    obtain ⟨fs, hfs⟩ := ih fun r hr => hrows r (List.mem_cons_of_mem _ hr)
    exact ⟨f :: fs, by simp [List.mapM_cons, hf, hfs]⟩

theorem node_of_mem_rows {s : NodeStore} {row : NodeRow} (h : row ∈ s.rows) :
    row.node ∈ s.facts.rows := by
  simp only [NodeStore.rows, List.mem_flatMap, List.mem_filterMap] at h
  obtain ⟨e, _, o, _, h⟩ := h
  simp only [Option.ite_none_right_eq_some, Option.map_eq_some_iff] at h
  obtain ⟨_, n, hn, rfl⟩ := h
  exact (s.facts.get?_some_iff.mp hn).1

theorem findFacts_returns {s : NodeStore} (hs : Loads co s) (q : FactFilter) (order : NodeOrder) :
    ∃ fs, findFacts co q order noFaults s = .returned fs s := by
  have hrows : ∀ row ∈ (order.arrange (s.rows.filter (admitsNode q))).take findFactsLimit,
      row.node ∈ s.facts.rows := by
    intro row hrow
    have hmem := (order.perm _).mem_iff.mp (List.mem_of_mem_take hrow)
    exact node_of_mem_rows (List.mem_filter.mp hmem).1
  obtain ⟨fs, hfs⟩ := mapM_dictToFact hs hrows
  refine ⟨fs, ?_⟩
  unfold findFacts
  rw [query_noFaults, hfs]

/-! A call that would store a fact that does not load. -/

theorem runCalls_append {pre rest : List FaultyCall} {u v : Uow}
    (h : runCalls co pre u = .returned () v) :
    runCalls co (pre ++ rest) u = runCalls co rest v := by
  induction pre generalizing u with
  | nil =>
    cases h
    rfl
  | cons call pre ih =>
    rw [List.cons_append, runCalls]
    rw [runCalls] at h
    cases hend : call.1.body co call.2 u with
    | raised e w =>
      rw [hend] at h
      cases h
    | returned _ w =>
      rw [hend] at h
      exact ih h

theorem write_of_returned {call : UowCall} {faults : GraphQuery → Option GraphError} {u v : Uow}
    (h : call.body co faults u = .returned () v) : call.write u.pending = .ok v.pending := by
  cases call with
  | createFact f =>
    simp only [UowCall.body, onPending] at h
    split at h
    · cases h
    · split at h
      · rename_i a s hend
        cases h
        rw [(write_returned_iff.mp hend).2]
        rfl
      · cases h
  | updateFactStatus factId status supersededBy =>
    simp only [UowCall.body, onPending] at h
    split at h
    · cases h
    · split at h
      · rename_i a s hend
        cases h
        exact (updateFactStatus_returned hend).1
      · cases h
  | commit =>
    simp only [UowCall.body, commit] at h
    split at h
    · cases h
    · split at h <;> cases h
      rfl
  | rollback =>
    simp only [UowCall.body, rollback] at h
    obtain ⟨_, h⟩ := perform_returned_iff.mp h
    split at h
    · cases h
    · obtain ⟨_, rfl⟩ := Prod.mk.inj (Except.ok.inj h)
      rfl

/-- A call that raises has committed nothing, unless it is a commit itself. -/
theorem committed_of_raised {call : UowCall} {faults : GraphQuery → Option GraphError} {u v : Uow}
    {e : GraphError} (hcall : call ≠ .commit) (h : call.body co faults u = .raised e v) :
    v.committed = u.committed := by
  have honPending : ∀ {α : Type} (x : GraphTransaction α),
      onPending x faults u = .raised e v → v.committed = u.committed := by
    intro α x h
    unfold onPending at h
    split at h
    · cases h
      rfl
    · split at h
      · cases h
      · cases h
        rfl
  cases call with
  | createFact f => exact honPending _ h
  | updateFactStatus factId status supersededBy => exact honPending _ h
  | commit => exact absurd rfl hcall
  | rollback =>
    simp only [UowCall.body, rollback, perform] at h
    split at h
    · cases h
      rfl
    · split at h
      · cases h
        rfl
      · cases h

theorem unitOfWork_of_breaking (hco : ReadsUuids co) {s : NodeStore} (hs : Loads co s)
    {pre rest : List FaultyCall} {call : FaultyCall} {u : Uow} {t : NodeStore}
    (exit : GraphQuery → Option GraphError) (hpre : runCalls co pre (.begin s) = .returned () u)
    (hwrite : call.1.write u.pending = .ok t) (hbreaks : ¬ Loads co t) :
    ∃ e, unitOfWork co (pre ++ call :: rest) exit s = (u.committed, .error e) := by
  have hu : UowLoads co u := by
    have hrun := runCalls_loads hco pre (u := .begin s) ⟨hs, hs⟩
    rw [hpre] at hrun
    exact hrun
  have hcommit : call.1 ≠ .commit := by
    intro hc
    rw [hc] at hwrite
    exact hbreaks (Except.ok.inj hwrite ▸ hu.pending)
  have hcall := body_triple hco call.1 call.2 u hu
  cases hend : call.1.body co call.2 u with
  | returned _ v =>
    rw [hend] at hcall
    have hv : UowLoads co v := hcall
    have hsame : t = v.pending := Except.ok.inj (hwrite.symm.trans (write_of_returned hend))
    exact absurd hv.pending (hsame ▸ hbreaks)
  | raised e v =>
    refine ⟨e, ?_⟩
    have hrun : runCalls co (pre ++ call :: rest) (.begin s) = .raised e v := by
      rw [runCalls_append hpre, runCalls, hend]
    simp only [unitOfWork, hrun, committed_of_raised hcommit hend]

/-- The committed facts stay readable, and a call that would end this raises and commits
nothing. -/
theorem stored_facts_load (hco : ReadsUuids co) {entities : KeyedTable EntityNode.entityId}
    {s : NodeStore} (h : (uowSystem co entities).Reachable s) :
    Loads co s ∧ (∀ factId, ∃ f, getFact co factId noFaults s = .returned f s) ∧
      (∀ q order, ∃ fs, findFacts co q order noFaults s = .returned fs s) ∧
      ∀ (pre rest : List FaultyCall) (call : FaultyCall) (exit : GraphQuery → Option GraphError)
        (u : Uow) (t : NodeStore), runCalls co pre (.begin s) = .returned () u →
        call.1.write u.pending = .ok t → ¬ Loads co t →
        ∃ e, unitOfWork co (pre ++ call :: rest) exit s = (u.committed, .error e) := by
  have hs := reachable_loads hco h
  refine ⟨hs, getFact_returns hs, findFacts_returns hs, ?_⟩
  intro pre rest call exit u t hpre hwrite hbreaks
  exact unitOfWork_of_breaking hco hs exit hpre hwrite hbreaks

def bareFact : KnowledgeFact where
  factId := 1
  subjectId := 2
  predicate := "knows"
  objectId := 3
  status := .candidate
  confidence := half
  validFrom := none
  validTo := none
  extractionMethod := .llm
  ontologyVersion := "1"
  tenantId := "t"
  confidence_unit := half_unit
  temporal := absent_bounds
  verified_evidence := candidate_unbacked []
  observedAt := 0

def bareStore : NodeStore :=
  (unitOfWork plainConversions [(.createFact bareFact, noFaults)] noFaults
    (.withEntities .empty)).1

theorem stored_facts_load_bare :
    Loads plainConversions bareStore ∧
      ∃ e, unitOfWork plainConversions
        [(.updateFactStatus bareFact.factId "verified" none, noFaults)] noFaults bareStore =
          (bareStore, .error e) := by
  have hreach : (uowSystem plainConversions .empty).Reachable bareStore :=
    ⟨[([(.createFact bareFact, noFaults)], noFaults)], rfl⟩
  obtain ⟨hloads, -, -, hraises⟩ := stored_facts_load readsUuids_plain hreach
  refine ⟨hloads, ?_⟩
  refine hraises [] [] (.updateFactStatus bareFact.factId "verified" none, noFaults) noFaults
    (.begin bareStore) _ rfl rfl fun hafter => ?_
  have hmem : factNode bareFact ∈ bareStore.facts.rows := List.mem_singleton_self _
  have hnode := hafter ((factNode bareFact).withStatus "verified") (List.mem_map.mpr
    ⟨factNode bareFact, hmem, if_pos rfl⟩)
  rw [dictToFact_withStatus (dictToFact_factNode readsUuids_plain bareFact)] at hnode
  cases hnode

end GroundGraph.Neo4j.Nodes

import GroundGraph.Retrieval.GraphFusion

/-! What graph evidence shows: every fact on a path of the evidence is one that the
tenant and the principal may see at the time asked for.
-/

set_option autoImplicit false

namespace GroundGraph.Retrieval

open GroundGraph.Knowledge GroundGraph.Neo4j

structure Visible (tenant principal : String) (validAt : Option Instant) (f : KnowledgeFact) :
    Prop where
  verified : f.status = .verified
  tenant : f.tenantId = tenant
  acl : f.allowedPrincipals = [] ∨ principal ∈ f.allowedPrincipals
  started : ∀ t v, validAt = some t → f.validFrom = some v → v ≤ t
  lasting : ∀ t v, validAt = some t → f.validTo = some v → t < v

structure Search.RunsFor (q : Search) (tenant principal : String) : Prop where
  ofTenant : q.tenantId = some tenant
  byPrincipal : q.principal = some principal
  nonempty : principal ≠ ""

/-- The id is that of a visible fact of the graph. -/
def Shown (g : Graph) (tenant principal : String) (validAt : Option Instant) (id : UUID) : Prop :=
  ∃ f, g.facts.get? id = some f ∧ Visible tenant principal validAt f

/-- The edges of every fact lead to the entities that the fact names. -/
def EdgesFollowFacts (g : Graph) : Prop :=
  ∀ f, g.facts.get? f.factId = some f →
    (∀ s, (s, f.factId) ∈ g.subjectOf → s = f.subjectId) ∧
    ∀ o, (f.factId, o) ∈ g.object → o = f.objectId

theorem isTemporalValid_iff {f : KnowledgeFact} {validAt : Option Instant} :
    isTemporalValid f validAt = true ↔
      (∀ t v, validAt = some t → f.validFrom = some v → v ≤ t) ∧
      ∀ t v, validAt = some t → f.validTo = some v → t < v := by
  cases validAt with
  | none => simp [isTemporalValid]
  | some t =>
    cases hfrom : f.validFrom <;> cases hto : f.validTo <;>
      simp [isTemporalValid, startsAfter, endsBy, hfrom, hto]

theorem verified_iff {f : KnowledgeFact} :
    textCondition (some "verified") f.status.text = true ↔ f.status = .verified := by
  cases f.status <;> simp [textCondition, FactStatus.text]

variable {q : Search} {tenant principal : String}

theorem Search.RunsFor.tenant_iff (hq : q.RunsFor tenant principal) {f : KnowledgeFact} :
    tenantCondition q.tenantId f.tenantId = true ↔ f.tenantId = tenant := by
  simp [hq.ofTenant, tenantCondition]

theorem Search.RunsFor.acl_iff (hq : q.RunsFor tenant principal) {f : KnowledgeFact} :
    aclCondition q.allowedPrincipals f.allowedPrincipals = true ↔
      f.allowedPrincipals = [] ∨ principal ∈ f.allowedPrincipals := by
  simp [Search.allowedPrincipals, hq.byPrincipal, hq.nonempty, aclCondition, or_comm]

theorem Search.RunsFor.visible_iff (hq : q.RunsFor tenant principal) {f : KnowledgeFact} :
    (textCondition (some "verified") f.status.text = true ∧
      tenantCondition q.tenantId f.tenantId = true ∧
      aclCondition q.allowedPrincipals f.allowedPrincipals = true ∧
      isTemporalValid f q.validAt = true) ↔ Visible tenant principal q.validAt f := by
  rw [verified_iff, hq.tenant_iff, hq.acl_iff, isTemporalValid_iff]
  constructor
  · rintro ⟨hstatus, htenant, hacl, hfrom, hto⟩
    exact ⟨hstatus, htenant, hacl, hfrom, hto⟩
  · rintro ⟨hstatus, htenant, hacl, hfrom, hto⟩
    exact ⟨hstatus, htenant, hacl, hfrom, hto⟩

theorem Search.RunsFor.asSubject_iff (hq : q.RunsFor tenant principal) {n : UUID} {row : FactRow} :
    ((q.asSubject n).admits row = true ∧ isTemporalValid row.fact q.validAt = true) ↔
      row.subject = n ∧ textCondition q.predicate row.fact.predicate = true ∧
        Visible tenant principal q.validAt row.fact := by
  rw [← hq.visible_iff]
  simp [FactFilter.admits, Search.asSubject, idCondition, and_assoc]

theorem Search.RunsFor.asObject_iff (hq : q.RunsFor tenant principal) {n : UUID} {row : FactRow} :
    ((q.asObject n).admits row = true ∧ isTemporalValid row.fact q.validAt = true) ↔
      row.object = n ∧ textCondition q.predicate row.fact.predicate = true ∧
        Visible tenant principal q.validAt row.fact := by
  rw [← hq.visible_iff]
  simp only [FactFilter.admits, Search.asObject, idCondition, Bool.and_eq_true, decide_eq_true_eq,
    true_and, and_assoc]
  constructor
  · rintro ⟨hpred, hobj, hrest⟩
    exact ⟨hobj, hpred, hrest⟩
  · rintro ⟨hobj, hpred, hrest⟩
    exact ⟨hpred, hobj, hrest⟩

structure SoundEntry (g : Graph) (tenant principal : String) (validAt : Option Instant)
    (r : FactWithNames) : Prop where
  stored : g.facts.get? r.fact.factId = some r.fact
  visible : Visible tenant principal validAt r.fact
  path : ∀ id ∈ r.path, Shown g tenant principal validAt id
  subjectName : EdgesFollowFacts g → r.subjectName = entityName g r.fact.subjectId
  objectName : EdgesFollowFacts g → r.objectName = entityName g r.fact.objectId

structure Sound (g : Graph) (tenant principal : String) (validAt : Option Instant)
    (s : Traversal) : Prop where
  entries : ∀ r ∈ s.results, SoundEntry g tenant principal validAt r
  waiting : ∀ e ∈ s.queue, ∀ id ∈ e.2.2, Shown g tenant principal validAt id

variable {g : Graph} {fetches : Fetches}

theorem start_sound (seedId : UUID) : Sound g tenant principal q.validAt (.start seedId) := by
  refine ⟨by simp [Traversal.start], ?_⟩
  intro e he id hid
  obtain rfl : e = (seedId, 1, []) := by simpa [Traversal.start] using he
  cases hid

theorem Sound.record {s : Traversal} (h : Sound g tenant principal q.validAt s) {current : UUID}
    {depth : Nat} {path : List UUID} {subjectName objectName : List Char} {next : UUID}
    {fact : KnowledgeFact} (hpath : ∀ id ∈ path, Shown g tenant principal q.validAt id)
    (hstored : g.facts.get? fact.factId = some fact)
    (hvisible : isTemporalValid fact q.validAt = true → Visible tenant principal q.validAt fact)
    (hsubject : EdgesFollowFacts g → subjectName = entityName g fact.subjectId)
    (hobject : EdgesFollowFacts g → objectName = entityName g fact.objectId) :
    Sound g tenant principal q.validAt
      (s.record q.validAt current depth path subjectName objectName next fact) := by
  rcases s.record_cases q.validAt current depth path subjectName objectName next fact with
    ⟨heq, _⟩ | ⟨_, hvalid, heq⟩
  · rw [heq]
    exact h
  · have hnew : ∀ id ∈ path ++ [fact.factId], Shown g tenant principal q.validAt id := by
      intro id hid
      rcases List.mem_append.mp hid with hid | hid
      · exact hpath id hid
      · obtain rfl := List.mem_singleton.mp hid
        exact ⟨fact, hstored, hvisible hvalid⟩
    rw [heq]
    constructor
    · intro r hr
      rcases List.mem_append.mp hr with hr | hr
      · exact h.entries r hr
      · obtain rfl := List.mem_singleton.mp hr
        exact ⟨hstored, hvisible hvalid, hnew, hsubject, hobject⟩
    · intro e he
      rcases List.mem_append.mp he with he | he
      · exact h.waiting e he
      · obtain rfl := List.mem_singleton.mp he
        exact hnew

theorem Sound.expand (hq : q.RunsFor tenant principal) {s : Traversal}
    (h : Sound g tenant principal q.validAt s) {current : UUID} {depth : Nat} {path : List UUID}
    (hpath : ∀ id ∈ path, Shown g tenant principal q.validAt id) :
    Sound g tenant principal q.validAt (s.expand g q fetches current depth path) := by
  unfold Traversal.expand
  refine List.foldlRecOn _ _ (List.foldlRecOn _ _ ⟨h.entries, h.waiting⟩ ?_) ?_
  · intro s hs fact hfact
    obtain ⟨row, hrow, rfl, hadmits⟩ := exists_row_of_mem_findFacts hfact
    obtain ⟨hsubject, _, hstored, _⟩ := mem_factRows.mp hrow
    have hname : row.subject = current := by
      simp only [FactFilter.admits, Search.asSubject, idCondition, Bool.and_eq_true,
        decide_eq_true_eq] at hadmits
      exact hadmits.1.1.1.1.1
    refine hs.record hpath hstored (fun hvalid => (hq.asSubject_iff.mp ⟨hadmits, hvalid⟩).2.2) ?_
      (fun _ => rfl)
    intro hfollow
    rw [← hname, (hfollow row.fact hstored).1 _ hsubject]
  · intro s hs fact hfact
    obtain ⟨row, hrow, rfl, hadmits⟩ := exists_row_of_mem_findFacts hfact
    obtain ⟨_, hobject, hstored, _⟩ := mem_factRows.mp hrow
    have hname : row.object = current := by
      simp only [FactFilter.admits, Search.asObject, idCondition, Bool.and_eq_true,
        decide_eq_true_eq] at hadmits
      exact hadmits.1.1.1.2
    refine hs.record hpath hstored (fun hvalid => (hq.asObject_iff.mp ⟨hadmits, hvalid⟩).2.2)
      (fun _ => rfl) ?_
    intro hfollow
    rw [← hname, (hfollow row.fact hstored).2 _ hobject]

theorem Sound.step (hq : q.RunsFor tenant principal) {s s' : Traversal}
    (h : Sound g tenant principal q.validAt s) (hstep : s.step g q fetches = some s') :
    Sound g tenant principal q.validAt s' := by
  obtain ⟨current, depth, path, rest, hqueue, _, ⟨_, rfl⟩ | ⟨_, rfl⟩⟩ :=
    Traversal.step_cases hstep
  · exact ⟨h.entries, fun e he => h.waiting e (by simp [hqueue, he])⟩
  · have hrest : Sound g tenant principal q.validAt { s with queue := rest } :=
      ⟨h.entries, fun e he => h.waiting e (by simp [hqueue, he])⟩
    exact hrest.expand hq (h.waiting (current, depth, path) (by simp [hqueue]))

theorem traverse_sound (g : Graph) (fetches : Fetches) (hq : q.RunsFor tenant principal)
    (seedId : UUID) :
    Sound g tenant principal q.validAt (traverse g q fetches seedId) :=
  Iteration.run_preserves (Sound g tenant principal q.validAt) (fun _ _ h hs => h.step hq hs)
    graphTraversalMaxFacts (.start seedId) (start_sound seedId)

/-! The evidence: one for each fact, made from the first entry that has the fact. -/

/-- The entries of all traversals, in the order in which they are collected. -/
def allEntries (g : Graph) (q : Search) :
    (Nat → Fetches) → List CanonicalEntity → List FactWithNames
  | _, [] => []
  | fetches, entity :: rest =>
    (traverse g q (fetches 0) entity.entityId).results ++
      allEntries g q (fun i => fetches (i + 1)) rest

def firstEntry (k : UUID) (entries : List FactWithNames) : Option FactWithNames :=
  entries.find? fun r => decide (r.fact.factId = k)

theorem firstEntry_some {k : UUID} {entries : List FactWithNames} {r : FactWithNames}
    (h : firstEntry k entries = some r) : r ∈ entries ∧ r.fact.factId = k :=
  ⟨List.mem_of_find?_eq_some h, by simpa using List.find?_some h⟩

theorem mem_of_foldlM_add {sc : Scoring} {entries : List FactWithNames} {acc out : Collected}
    (h : entries.foldlM (Collected.add sc) acc = some out) (e : Evidence) :
    e ∈ out.results ↔
      e ∈ acc.results ∨ ∃ k r, k ∉ acc.seenIds ∧ firstEntry k entries = some r ∧
        e = toEvidence sc r := by
  induction entries generalizing acc with
  | nil =>
    obtain rfl : acc = out := Option.some.inj h
    simp [firstEntry]
  | cons entry rest ih =>
    rw [List.foldlM_cons] at h
    obtain ⟨next, hadd, hrest⟩ := Option.bind_eq_some_iff.mp h
    rw [ih hrest]
    unfold Collected.add at hadd
    by_cases hseen : entry.fact.factId ∈ acc.seenIds
    · rw [if_pos hseen] at hadd
      obtain rfl : acc = next := Option.some.inj hadd
      refine or_congr_right (exists_congr fun k => exists_congr fun r => and_congr_right fun hk => ?_)
      have hne : entry.fact.factId ≠ k := fun h => hk (h ▸ hseen)
      simp [firstEntry, hne]
    · rw [if_neg hseen] at hadd
      obtain ⟨-, hadd⟩ := Option.ite_none_left_eq_some.mp hadd
      obtain rfl := Option.some.inj hadd
      simp only [List.mem_append, List.mem_singleton, or_assoc]
      refine or_congr_right ?_
      constructor
      · rintro (rfl | ⟨k, r, hk, hfirst, rfl⟩)
        · exact ⟨entry.fact.factId, entry, hseen, by simp [firstEntry], rfl⟩
        · have hne : entry.fact.factId ≠ k := fun h => hk (Or.inr h.symm)
          refine ⟨k, r, fun h => hk (Or.inl h), ?_, rfl⟩
          simpa [firstEntry, List.find?_cons, hne] using hfirst
      · rintro ⟨k, r, hk, hfirst, rfl⟩
        by_cases hid : entry.fact.factId = k
        · left
          simp only [firstEntry, List.find?_cons, hid, decide_true, Option.some.injEq] at hfirst
          rw [hfirst]
        · right
          refine ⟨k, r, fun h => h.elim hk fun h => hid h.symm, ?_, rfl⟩
          simpa [firstEntry, List.find?_cons, hid] using hfirst

theorem foldlM_add_isSome_iff {sc : Scoring} {entries : List FactWithNames}
    (hsame : ∀ r ∈ entries, ∀ r' ∈ entries, r.fact.factId = r'.fact.factId → r.fact = r'.fact)
    (acc : Collected) (hacc : ∀ r ∈ entries, r.fact.factId ∈ acc.seenIds →
      sc.overflows r.fact = false) :
    (entries.foldlM (Collected.add sc) acc).isSome = true ↔
      ∀ r ∈ entries, sc.overflows r.fact = false := by
  induction entries generalizing acc with
  | nil => simp
  | cons entry rest ih =>
    have hsame' : ∀ r ∈ rest, ∀ r' ∈ rest, r.fact.factId = r'.fact.factId → r.fact = r'.fact :=
      fun r hr r' hr' => hsame r (List.mem_cons_of_mem _ hr) r' (List.mem_cons_of_mem _ hr')
    rw [List.foldlM_cons, List.forall_mem_cons]
    by_cases hseen : entry.fact.factId ∈ acc.seenIds
    · have hfine := hacc entry List.mem_cons_self hseen
      rw [Collected.add, if_pos hseen, Option.bind_eq_bind, Option.bind_some,
        ih hsame' acc fun r hr => hacc r (List.mem_cons_of_mem _ hr)]
      simp [hfine]
    · rw [Collected.add, if_neg hseen]
      cases hover : sc.overflows entry.fact with
      | true => simp
      | false =>
        rw [if_neg (by simp), Option.bind_eq_bind, Option.bind_some, ih hsame']
        · simp
        · intro r hr hid
          rcases List.mem_append.mp hid with hid | hid
          · exact hacc r (List.mem_cons_of_mem _ hr) hid
          · rw [hsame r (List.mem_cons_of_mem _ hr) entry List.mem_cons_self
              (List.mem_singleton.mp hid)]
            exact hover

theorem collect_eq (sc : Scoring) (g : Graph) (q : Search) (fetches : Nat → Fetches)
    (seedEntities : List CanonicalEntity) (acc : Collected) :
    collect sc g q fetches seedEntities acc =
      (allEntries g q fetches seedEntities).foldlM (Collected.add sc) acc := by
  induction seedEntities generalizing fetches acc with
  | nil => rfl
  | cons entity rest ih =>
    rw [collect, allEntries, List.foldlM_append]
    exact bind_congr fun acc => ih _ acc

theorem mem_retrieveEvidence {sc : Scoring} {g : Graph} {q : Search} {fetches : Nat → Fetches}
    {seedEntities : List CanonicalEntity} {evidence : List Evidence}
    (h : retrieveEvidence sc g q fetches seedEntities = some evidence) {e : Evidence} :
    e ∈ evidence ↔ ∃ k r, firstEntry k (allEntries g q fetches seedEntities) = some r ∧
      e = toEvidence sc r := by
  unfold retrieveEvidence at h
  split at h
  · rename_i hnil
    obtain rfl := Option.some.inj h
    simp [hnil, allEntries, firstEntry]
  · obtain ⟨out, hout, rfl⟩ := Option.map_eq_some_iff.mp h
    rw [collect_eq] at hout
    rw [mem_of_foldlM_add hout]
    simp

theorem allEntries_sound (hq : q.RunsFor tenant principal) (fetches : Nat → Fetches)
    (seedEntities : List CanonicalEntity) :
    ∀ r ∈ allEntries g q fetches seedEntities, SoundEntry g tenant principal q.validAt r := by
  induction seedEntities generalizing fetches with
  | nil => simp [allEntries]
  | cons entity rest ih =>
    intro r hr
    rcases List.mem_append.mp hr with hr | hr
    · exact (traverse_sound g _ hq entity.entityId).entries r hr
    · exact ih _ r hr

theorem path_shown (hq : q.RunsFor tenant principal) {sc : Scoring} {fetches : Nat → Fetches}
    {seedEntities : List CanonicalEntity} {evidence : List Evidence}
    (h : retrieveEvidence sc g q fetches seedEntities = some evidence) {e : Evidence}
    (he : e ∈ evidence) :
    ∀ id ∈ e.graphPathFactIds, Shown g tenant principal q.validAt id := by
  obtain ⟨k, r, hfirst, rfl⟩ := (mem_retrieveEvidence h).mp he
  exact (allEntries_sound hq fetches seedEntities r (firstEntry_some hfirst).1).path

/-! Graph evidence has one item for each fact, and the facts are those of the graph. -/

structure CollectedOnce (acc : Collected) : Prop where
  ids : acc.results.map Evidence.evidenceId = acc.seenIds
  nodup : acc.seenIds.Nodup

theorem CollectedOnce.add {sc : Scoring} {acc next : Collected} (h : CollectedOnce acc)
    {entry : FactWithNames} (hadd : Collected.add sc acc entry = some next) :
    CollectedOnce next := by
  unfold Collected.add at hadd
  split at hadd
  · obtain rfl := Option.some.inj hadd
    exact h
  · rename_i hnew
    obtain ⟨-, hadd⟩ := Option.ite_none_left_eq_some.mp hadd
    obtain rfl := Option.some.inj hadd
    refine ⟨?_, ?_⟩
    · rw [List.map_append, h.ids]
      rfl
    · rw [List.nodup_append]
      refine ⟨h.nodup, List.nodup_singleton _, ?_⟩
      intro a ha b hb heq
      rw [List.mem_singleton.mp hb] at heq
      exact hnew (heq ▸ ha)

theorem CollectedOnce.foldlM {sc : Scoring} {entries : List FactWithNames} {acc out : Collected}
    (h : CollectedOnce acc) (hout : entries.foldlM (Collected.add sc) acc = some out) :
    CollectedOnce out := by
  induction entries generalizing acc with
  | nil =>
    obtain rfl : acc = out := Option.some.inj hout
    exact h
  | cons entry rest ih =>
    rw [List.foldlM_cons] at hout
    obtain ⟨next, hadd, hrest⟩ := Option.bind_eq_some_iff.mp hout
    exact ih (h.add hadd) hrest

theorem retrieveEvidence_nodup {sc : Scoring} {g : Graph} {q : Search} {fetches : Nat → Fetches}
    {seedEntities : List CanonicalEntity} {evidence : List Evidence}
    (h : retrieveEvidence sc g q fetches seedEntities = some evidence) :
    (evidence.map Evidence.evidenceId).Nodup := by
  unfold retrieveEvidence at h
  split at h
  · obtain rfl := Option.some.inj h
    exact List.nodup_nil
  · obtain ⟨out, hout, rfl⟩ := Option.map_eq_some_iff.mp h
    rw [collect_eq] at hout
    have honce : CollectedOnce out := CollectedOnce.foldlM ⟨rfl, List.nodup_nil⟩ hout
    rw [honce.ids]
    exact honce.nodup

/-- The facts of the results are verified facts that the graph links to their entities. -/
def FromRows (g : Graph) (s : Traversal) : Prop :=
  ∀ r ∈ s.results, ∃ row ∈ g.factRows, row.fact = r.fact ∧ row.fact.status = .verified

theorem FromRows.record {s : Traversal} (h : FromRows g s) (validAt : Option Instant)
    (current : UUID) (depth : Nat) (path : List UUID) (subjectName objectName : List Char)
    (next : UUID) {row : FactRow} (hrow : row ∈ g.factRows) (hstatus : row.fact.status = .verified) :
    FromRows g (s.record validAt current depth path subjectName objectName next row.fact) := by
  rcases s.record_cases validAt current depth path subjectName objectName next row.fact with
    ⟨heq, -⟩ | ⟨-, -, heq⟩
  · rw [heq]
    exact h
  · rw [heq]
    intro r hr
    rcases List.mem_append.mp hr with hr | hr
    · exact h r hr
    · obtain rfl := List.mem_singleton.mp hr
      exact ⟨row, hrow, rfl, hstatus⟩

theorem verified_of_admits {filter : FactFilter} {row : FactRow} (h : filter.admits row = true)
    (hstatus : filter.status = some "verified") : row.fact.status = .verified := by
  simp only [FactFilter.admits, Bool.and_eq_true, hstatus] at h
  exact verified_iff.mp h.1.1.2

theorem FromRows.step {s s' : Traversal} (h : FromRows g s)
    (hstep : s.step g q fetches = some s') : FromRows g s' := by
  obtain ⟨current, depth, path, rest, -, -, ⟨-, rfl⟩ | ⟨-, rfl⟩⟩ := Traversal.step_cases hstep
  · exact h
  · unfold Traversal.expand
    refine List.foldlRecOn _ _ (List.foldlRecOn _ _ h ?_) ?_
    · intro s hs fact hfact
      obtain ⟨row, hrow, rfl, hadmits⟩ := exists_row_of_mem_findFacts hfact
      exact hs.record _ _ _ _ _ _ _ hrow (verified_of_admits hadmits rfl)
    · intro s hs fact hfact
      obtain ⟨row, hrow, rfl, hadmits⟩ := exists_row_of_mem_findFacts hfact
      exact hs.record _ _ _ _ _ _ _ hrow (verified_of_admits hadmits rfl)

theorem allEntries_fromRows (fetches : Nat → Fetches) (seedEntities : List CanonicalEntity) :
    ∀ r ∈ allEntries g q fetches seedEntities,
      ∃ row ∈ g.factRows, row.fact = r.fact ∧ row.fact.status = .verified := by
  induction seedEntities generalizing fetches with
  | nil => exact List.forall_mem_nil _
  | cons entity rest ih =>
    intro r hr
    have htraverse : FromRows g (traverse g q (fetches 0) entity.entityId) :=
      Iteration.run_preserves (FromRows g) (fun _ _ h hs => h.step hs) graphTraversalMaxFacts
        (.start entity.entityId) (List.forall_mem_nil _)
    rcases List.mem_append.mp hr with hr | hr
    · exact htraverse r hr
    · exact ih _ r hr

theorem allEntries_stored (fetches : Nat → Fetches) (seedEntities : List CanonicalEntity) :
    ∀ r ∈ allEntries g q fetches seedEntities, g.facts.get? r.fact.factId = some r.fact := by
  intro r hr
  obtain ⟨row, hrow, hfact, -⟩ := allEntries_fromRows fetches seedEntities r hr
  rw [← hfact]
  exact (mem_factRows.mp hrow).2.2.1

theorem exists_firstEntry {fetches : Nat → Fetches} {seedEntities : List CanonicalEntity}
    {r : FactWithNames} (hr : r ∈ allEntries g q fetches seedEntities) :
    ∃ first, firstEntry r.fact.factId (allEntries g q fetches seedEntities) = some first ∧
      first.fact = r.fact := by
  cases hfirst : firstEntry r.fact.factId (allEntries g q fetches seedEntities) with
  | none =>
    have hmiss := List.find?_eq_none.mp hfirst r hr
    simp at hmiss
  | some first =>
    obtain ⟨hmem, hid⟩ := firstEntry_some hfirst
    have hget := allEntries_stored fetches seedEntities first hmem
    rw [hid, allEntries_stored fetches seedEntities r hr] at hget
    exact ⟨first, rfl, (Option.some.inj hget).symm⟩

/-- No fact that the traversals collect is observed too far ahead to be scored. -/
def AllScored (sc : Scoring) (g : Graph) (q : Search) (fetches : Nat → Fetches)
    (seedEntities : List CanonicalEntity) : Prop :=
  ∀ r ∈ allEntries g q fetches seedEntities, sc.overflows r.fact = false

theorem retrieveEvidence_isSome_iff (sc : Scoring) (fetches : Nat → Fetches)
    (seedEntities : List CanonicalEntity) :
    (retrieveEvidence sc g q fetches seedEntities).isSome = true ↔
      AllScored sc g q fetches seedEntities := by
  unfold retrieveEvidence AllScored
  split
  · rename_i hnil
    simp [hnil, allEntries]
  · rw [Option.isSome_map, collect_eq]
    refine foldlM_add_isSome_iff (fun r hr r' hr' hid => ?_) _ (by simp)
    have hget := allEntries_stored fetches seedEntities r hr
    rw [hid, allEntries_stored fetches seedEntities r' hr'] at hget
    exact (Option.some.inj hget).symm

end GroundGraph.Retrieval

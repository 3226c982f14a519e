import GroundGraph.Extraction.Workflow

/-! What the facts of one run are: closed under the entities emitted before them and attributed
to their chunk, whatever the model answers. Their types are not looked at: the node that
would validate them is named by the workflow, but it is not part of the graph.
-/

set_option autoImplicit false

namespace GroundGraph.Extraction

open GroundGraph.Knowledge GroundGraph.Outbox IsoDatetime

/-- The fact is a candidate in terms of the ontology, and the chunk's. -/
structure Attributed (o : Ontology) (s : ExtractionState) (f : KnowledgeFact) : Prop where
  status : f.status = .candidate
  predicate : f.predicate ∈ o.predicates.map Predicate.name
  half_le : half.toNat ≤ f.confidence.toNat
  le_one : f.confidence.toNat ≤ 0x3FF0000000000000
  evidenceIds : f.evidenceIds = s.chunkId.toList
  tenantId : f.tenantId = s.tenantId
  allowedPrincipals : f.allowedPrincipals = s.allowedPrincipals

section
variable {sv : ExtractionServices} {d : ExtractionDraws} {s : ExtractionState}
  {rows : List (OutboxRow JsonObject)}

theorem attributed_of_mem_collect {o : Ontology} {names : NameTable} {now : Datetime}
    {ids : Nat → UUID} {outputs : List FactOutput} {facts : List ZonedFact}
    (h : collect o names ⟨s.chunkId.toList, now, o.version, s.tenantId, s.allowedPrincipals⟩ ids
      outputs = .ok facts) {z : ZonedFact} (hz : z ∈ facts) :
    Attributed o s z.fact ∧ (∃ name, names.get name = some z.fact.subjectId) ∧
      ∃ name, names.get name = some z.fact.objectId := by
  obtain ⟨f, -, ends, factId, hunit, hends, rfl⟩ := exists_output_of_mem_collect h hz
  obtain ⟨hbelow, hpredicate, hsubject, hobject⟩ := endpoints_some_iff.mp hends
  obtain ⟨hhalf, hone⟩ := half_le_of_unit hunit hbelow
  exact ⟨⟨rfl, hpredicate, hhalf, hone, rfl, rfl, rfl⟩, ⟨f.subject, hsubject⟩,
    ⟨f.object, hobject⟩⟩

/-- What stands before an element that is not in the first part contains that part. -/
theorem mem_of_mem_left {α : Type} {xs ys pre post : List α} {x : α}
    (h : xs ++ ys = pre ++ x :: post) (hx : x ∉ xs) : ∀ a ∈ xs, a ∈ pre := by
  intro a ha
  obtain ⟨mid, rfl, -⟩ | ⟨mid, rfl, hmid⟩ := List.append_eq_append_iff.mp h
  · exact List.mem_append_left _ ha
  · cases mid with
    | nil => simpa using ha
    | cons y mid =>
      obtain ⟨rfl, -⟩ := List.cons.inj hmid
      exact absurd (List.mem_append_right _ List.mem_cons_self) hx

/-- Every fact event is attributed, and both its ends were emitted before it. -/
theorem emitted_facts_closed (h : runExtraction sv d s = .ok rows)
    {pre post : List (OutboxRow JsonObject)} {row : OutboxRow JsonObject}
    (hsplit : rows = pre ++ row :: post) (hfact : row.eventType = .factCandidate) :
    ∃ id z, row = emitFact id d.writtenAt z ∧ Attributed sv.ontology s z.fact ∧
      (∃ id e, emitEntity id d.writtenAt e ∈ pre ∧ e.entityId = z.fact.subjectId) ∧
      ∃ id e, emitEntity id d.writtenAt e ∈ pre ∧ e.entityId = z.fact.objectId := by
  obtain ⟨mentions, resolved, ambiguous, outputs, facts, -, -, -, hfacts, rfl⟩ :=
    runExtraction_ok_iff.mp h
  obtain ⟨ms, es, fs, hrows, hms, hes, hresolved, hfs, -⟩ := emitOutboxNode_split d
    { s with entities := mentions, resolvedEntities := resolved, ambiguousMentions := ambiguous,
             facts := facts }
  rw [hrows] at hsplit
  have hnot : row ∉ ms ++ es := by
    intro hmem
    rcases List.mem_append.mp hmem with hmem | hmem
    · rw [hms row hmem] at hfact
      cases hfact
    · obtain ⟨e, -, id, rfl⟩ := hes row hmem
      cases hfact
  have hrow : row ∈ fs := by
    have hmem : row ∈ ms ++ es ++ fs := hsplit ▸ by simp
    exact (List.mem_append.mp hmem).resolve_left hnot
  have hbefore := mem_of_mem_left hsplit hnot
  have hemitted : ∀ name id, (nameToId resolved).get name = some id →
      ∃ eventId e, emitEntity eventId d.writtenAt e ∈ pre ∧ e.entityId = id := by
    intro name id hname
    obtain ⟨e, he, -, hid⟩ := exists_entity_of_nameToId hname
    obtain ⟨eventId, hevent⟩ := hresolved e he
    exact ⟨eventId, e, hbefore _ (List.mem_append_right _ hevent), hid⟩
  obtain ⟨z, hz, id, rfl⟩ := hfs row hrow
  obtain ⟨hattributed, ⟨subject, hsubject⟩, object, hobject⟩ := attributed_of_mem_collect hfacts hz
  exact ⟨id, z, rfl, hattributed, hemitted subject _ hsubject, hemitted object _ hobject⟩

end

/-! A run over two people, one of whom is said to deploy the other. -/

def person (id : UUID) (name : String) : CanonicalEntity :=
  { entityId := id, entityType := "Person", canonicalName := name, aliases := [name] }

def personMention (id chunkId : UUID) (name : String) : EntityMention where
  mentionId := id
  chunkId := chunkId
  surfaceForm := name
  candidateType := "Person"
  extractionConfidence := half
  confidence_unit := half_unit

def deploysOutput : FactOutput := ⟨"Ada", "deploys", "Bob", half⟩

def deploysAnswer : String :=
  "\x7b\"facts\":[\x7b\"subject\":\"Ada\",\"predicate\":\"deploys\",\"object\":\"Bob\"," ++
    "\"confidence\":0.5\x7d]\x7d"

def peopleServices : ExtractionServices where
  extract _ chunkId :=
    .ok [personMention 11 (chunkId.getD 0) "Ada", personMention 12 (chunkId.getD 0) "Bob"]
  resolve n _ := .ok (some (if n = 0 then person 1 "Ada" else person 2 "Bob"))
  ontology := ontologyV010
  llm :=
    { create := fun _ => .message (some deploysAnswer)
      modelValidate := fun raw => if raw = deploysAnswer then some [deploysOutput] else none }

def peopleState : ExtractionState where
  chunkId := some 9
  chunkContent := "Ada deploys Bob."
  tenantId := "t"
  allowedPrincipals := ["p"]

def peopleDraws : ExtractionDraws where
  now := ⟨.epoch, .zero, false, .zero⟩
  factId n := BitVec.ofNat 128 (n + 20)
  eventId n := BitVec.ofNat 128 (n + 30)
  writtenAt := 0

def deploysFact : ZonedFact :=
  candidateFact ⟨[9], peopleDraws.now, "v0.1.0", "t", ["p"]⟩ 20 deploysOutput (1, 2) half_unit

def peopleEvents : List (OutboxRow JsonObject) :=
  [emitMention 30 0 (personMention 11 9 "Ada"), emitMention 31 0 (personMention 12 9 "Bob"),
   emitEntity 32 0 (person 1 "Ada"), emitEntity 33 0 (person 2 "Bob")]

theorem run_people : runExtraction peopleServices peopleDraws peopleState =
    .ok (peopleEvents ++ [emitFact 34 0 deploysFact]) := by
  rfl

theorem emitted_facts_closed_people :
    ∃ id z, emitFact 34 0 deploysFact = emitFact id 0 z ∧
      Attributed ontologyV010 peopleState z.fact ∧
      (∃ id e, emitEntity id 0 e ∈ peopleEvents ∧ e.entityId = z.fact.subjectId) ∧
      ∃ id e, emitEntity id 0 e ∈ peopleEvents ∧ e.entityId = z.fact.objectId :=
  emitted_facts_closed run_people rfl rfl

def HasType (rows : List (OutboxRow JsonObject)) (id : UUID) (types : List String) : Prop :=
  ∃ eventId now e, emitEntity eventId now e ∈ rows ∧ e.entityId = id ∧ e.entityType ∈ types

/-- Every emitted fact goes from the domain to the range of its predicate. -/
def WellTyped (o : Ontology) (rows : List (OutboxRow JsonObject)) : Prop :=
  ∀ eventId now z, emitFact eventId now z ∈ rows →
    ∃ p, o.getPredicate z.fact.predicate = some p ∧
      HasType rows z.fact.subjectId p.domain ∧ HasType rows z.fact.objectId p.range

def ResolvedAs (resolved : List CanonicalEntity) (id : UUID) (types : List String) : Prop :=
  ∃ e ∈ resolved, e.entityId = id ∧ e.entityType ∈ types

/-- The outputs that the model may give about the entities that were resolved: those that are
not skipped keep to the types of their predicate. -/
def FitOutputs (o : Ontology) (resolved : List CanonicalEntity) (outputs : List FactOutput) :
    Prop :=
  ∀ f ∈ outputs, ∀ ends, endpoints o (nameToId resolved) f = some ends →
    ∀ p, o.getPredicate f.predicate = some p →
      ResolvedAs resolved ends.1 p.domain ∧ ResolvedAs resolved ends.2 p.range

/-- The model refuses no confidence of an output that is not skipped. -/
def AcceptedOutputs (o : Ontology) (resolved : List CanonicalEntity) (outputs : List FactOutput) :
    Prop :=
  ∀ f ∈ outputs, (endpoints o (nameToId resolved) f).isSome → unitInterval f.confidence = true

section
variable {sv : ExtractionServices} {d : ExtractionDraws} {s : ExtractionState}
  {rows : List (OutboxRow JsonObject)}

theorem uuidValue_injective {u v : UUID} (h : uuidValue u = uuidValue v) : u = v :=
  uuidString_injective (JsonValue.str.inj h)

theorem emitFact_inj {id id' : UUID} {now now' : Instant} {z z' : ZonedFact}
    (h : emitFact id now z = emitFact id' now' z') :
    z.fact.subjectId = z'.fact.subjectId ∧ z.fact.objectId = z'.fact.objectId ∧
      z.fact.predicate = z'.fact.predicate := by
  have hpayload : factPayload z = factPayload z' := congrArg OutboxRow.payload h
  simp only [factPayload, List.cons.injEq, Prod.mk.injEq, true_and, JsonValue.str.injEq] at hpayload
  obtain ⟨-, hsubject, hpredicate, hobject, -⟩ := hpayload
  exact ⟨uuidValue_injective hsubject, uuidValue_injective hobject, hpredicate⟩

theorem emitEntity_inj {id id' : UUID} {now now' : Instant} {e e' : CanonicalEntity}
    (h : emitEntity id now e = emitEntity id' now' e') :
    e.entityId = e'.entityId ∧ e.entityType = e'.entityType := by
  have hpayload : entityPayload e = entityPayload e' := congrArg OutboxRow.payload h
  simp only [entityPayload, List.cons.injEq, Prod.mk.injEq, true_and, JsonValue.str.injEq]
    at hpayload
  exact ⟨uuidValue_injective hpayload.1, hpayload.2.1⟩

theorem hasType_iff {id : UUID} {types : List String} :
    HasType (emitOutboxNode d s) id types ↔ ResolvedAs s.resolvedEntities id types := by
  obtain ⟨ms, es, fs, hrows, hms, hes, hresolved, hfs, -⟩ := emitOutboxNode_split d s
  rw [hrows]
  constructor
  · rintro ⟨eventId, now, e, hmem, rfl, htype⟩
    rcases List.mem_append.mp hmem with hmem | hmem
    · rcases List.mem_append.mp hmem with hmem | hmem
      · cases hms _ hmem
      · obtain ⟨e', he', id', heq⟩ := hes _ hmem
        obtain ⟨hid, htypes⟩ := emitEntity_inj heq
        exact ⟨e', he', hid.symm, htypes ▸ htype⟩
    · obtain ⟨z, -, id', heq⟩ := hfs _ hmem
      cases congrArg OutboxRow.eventType heq
  · rintro ⟨e, he, rfl, htype⟩
    obtain ⟨eventId, hevent⟩ := hresolved e he
    exact ⟨eventId, d.writtenAt, e,
      List.mem_append_left _ (List.mem_append_right _ hevent), rfl, htype⟩

theorem wellTyped_iff {o : Ontology} :
    WellTyped o (emitOutboxNode d s) ↔
      ∀ z ∈ s.facts, ∃ p, o.getPredicate z.fact.predicate = some p ∧
        ResolvedAs s.resolvedEntities z.fact.subjectId p.domain ∧
        ResolvedAs s.resolvedEntities z.fact.objectId p.range := by
  simp only [WellTyped, hasType_iff]
  obtain ⟨ms, es, fs, hrows, hms, hes, -, hfs, hfacts⟩ := emitOutboxNode_split d s
  rw [hrows]
  constructor
  · intro h z hz
    obtain ⟨id, hmem⟩ := hfacts z hz
    exact h id d.writtenAt z (List.mem_append_right _ hmem)
  · intro h id now z hmem
    rcases List.mem_append.mp hmem with hmem | hmem
    · rcases List.mem_append.mp hmem with hmem | hmem
      · cases hms _ hmem
      · obtain ⟨e, -, id', heq⟩ := hes _ hmem
        cases congrArg OutboxRow.eventType heq
    · obtain ⟨z', hz', id', heq⟩ := hfs _ hmem
      obtain ⟨hsubject, hobject, hpredicate⟩ := emitFact_inj heq
      rw [hsubject, hobject, hpredicate]
      exact h z' hz'

theorem collect_fits_iff {o : Ontology} {resolved : List CanonicalEntity} {c : FactContext}
    {ids : Nat → UUID} {outputs : List FactOutput} {facts : List ZonedFact}
    (h : collect o (nameToId resolved) c ids outputs = .ok facts) :
    (∀ z ∈ facts, ∃ p, o.getPredicate z.fact.predicate = some p ∧
      ResolvedAs resolved z.fact.subjectId p.domain ∧
      ResolvedAs resolved z.fact.objectId p.range) ↔ FitOutputs o resolved outputs := by
  constructor
  · intro hall f hf ends hends p hp
    obtain ⟨factId, hunit, hmem⟩ := exists_fact_of_output h hf hends
    obtain ⟨p', hp', hfits⟩ := hall _ hmem
    obtain rfl : p = p' := Option.some.inj (hp.symm.trans hp')
    exact hfits
  · intro hall z hz
    obtain ⟨f, hf, ends, factId, hunit, hends, rfl⟩ := exists_output_of_mem_collect h hz
    have hpredicate := (endpoints_some_iff.mp hends).2.1
    obtain ⟨p, hp⟩ := Option.isSome_iff_exists.mp (Ontology.isValidPredicate_iff.mpr hpredicate)
    exact ⟨p, hp, hall f hf ends hends p hp⟩

/-- The emitted facts are well typed exactly when the outputs of the model fit the entities that
were resolved, or one of them makes the run raise. -/
theorem emitted_facts_typed_iff :
    (∀ rows, runExtraction sv d s = .ok rows → WellTyped sv.ontology rows) ↔
      ∀ mentions resolved ambiguous outputs,
        sv.extract s.chunkContent s.chunkId = .ok mentions →
        resolveFrom sv.resolve 0 mentions = .ok (resolved, ambiguous) →
        factOutputs sv.ontology sv.llm s.chunkContent (surfaceForms (nameToId resolved)) =
          .ok outputs →
        AcceptedOutputs sv.ontology resolved outputs →
        FitOutputs sv.ontology resolved outputs := by
  constructor
  · intro h mentions resolved ambiguous outputs hextract hresolve houtputs haccepted
    have hcollect : ∃ facts, collect sv.ontology (nameToId resolved)
        ⟨s.chunkId.toList, d.now, sv.ontology.version, s.tenantId, s.allowedPrincipals⟩ d.factId
          outputs = .ok facts := collect_ok_iff.mpr haccepted
    obtain ⟨facts, hfacts⟩ := hcollect
    have htyped := h _ (runExtraction_ok_iff.mpr
      ⟨mentions, resolved, ambiguous, outputs, facts, hextract, hresolve, houtputs, hfacts, rfl⟩)
    exact (collect_fits_iff hfacts).mp (wellTyped_iff.mp htyped)
  · intro h rows hrun
    obtain ⟨mentions, resolved, ambiguous, outputs, facts, hextract, hresolve, houtputs, hfacts,
      rfl⟩ := runExtraction_ok_iff.mp hrun
    have hfits := h mentions resolved ambiguous outputs hextract hresolve houtputs
      (collect_ok_iff.mp ⟨facts, hfacts⟩)
    exact wellTyped_iff.mpr ((collect_fits_iff hfacts).mpr hfits)

/-- A person deploys nothing. -/
theorem not_emitted_facts_typed : ¬ ∀ (sv : ExtractionServices) (d : ExtractionDraws)
    (s : ExtractionState) (rows : List (OutboxRow JsonObject)), sv.ontology = ontologyV010 →
    runExtraction sv d s = .ok rows → WellTyped ontologyV010 rows := by
  intro h
  have htyped := h peopleServices peopleDraws peopleState _ rfl run_people
  obtain ⟨p, hp, ⟨eventId, now, e, he, -, htype⟩, -⟩ := htyped 34 0 deploysFact (by simp)
  obtain rfl : { name := "deploys", domain := ["Repository"], range := ["Service"] } = p :=
    Option.some.inj hp
  have hperson : e.entityType = "Person" := by
    simp only [peopleEvents, List.cons_append, List.nil_append, List.mem_cons, List.not_mem_nil,
      or_false] at he
    rcases he with he | he | he | he | he
    · cases congrArg OutboxRow.eventType he
    · cases congrArg OutboxRow.eventType he
    · exact (emitEntity_inj he).2
    · exact (emitEntity_inj he).2
    · cases congrArg OutboxRow.eventType he
  rw [hperson] at htype
  revert htype
  decide

end

end GroundGraph.Extraction

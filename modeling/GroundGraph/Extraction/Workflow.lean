import GroundGraph.Extraction.FactExtractor
import GroundGraph.Library.Transaction

/-! The extraction graph: `workflows/extraction_graph.py`. Its nodes run in a row, and only the
last one emits; what any earlier node raises ends the run before the first event.
-/

set_option autoImplicit false

namespace GroundGraph.Extraction

open GroundGraph.Knowledge GroundGraph.Outbox IsoDatetime

structure ExtractionState where
  chunkId : Option UUID
  chunkContent : String
  tenantId : String
  allowedPrincipals : List String
  entities : List EntityMention := []
  resolvedEntities : List CanonicalEntity := []
  ambiguousMentions : List EntityMention := []
  facts : List ZonedFact := []

/-- The arguments of `build_extraction_graph`. The resolver is asked for one mention after the
other and may answer by what it did before: it is told how often it was asked. -/
structure ExtractionServices where
  extract : String → Option UUID → Except ExtractionError (List EntityMention)
  resolve : Nat → EntityMention → Except ExtractionError (Option CanonicalEntity)
  ontology : Ontology
  llm : FactModel

/-- What a run draws: the time of extraction, the ids of the facts, and for each event its id
and the time at which the row is written. -/
structure ExtractionDraws where
  now : Datetime
  factId : Nat → UUID
  eventId : Nat → UUID
  writtenAt : Instant

def extractEntitiesNode (sv : ExtractionServices) (s : ExtractionState) :
    Except ExtractionError ExtractionState :=
  match sv.extract s.chunkContent s.chunkId with
  | .error e => .error e
  | .ok mentions => .ok { s with entities := mentions }

/-- The loop of `resolve_entities_node` from the call number `n`. -/
def resolveFrom (resolve : Nat → EntityMention → Except ExtractionError (Option CanonicalEntity)) :
    Nat → List EntityMention → Except ExtractionError (List CanonicalEntity × List EntityMention)
  | _, [] => .ok ([], [])
  | n, mention :: rest =>
    match resolve n mention with
    | .error e => .error e
    | .ok entity =>
      match resolveFrom resolve (n + 1) rest with
      | .error e => .error e
      | .ok (resolved, ambiguous) =>
        match entity with
        | none => .ok (resolved, mention :: ambiguous)
        | some entity => .ok (entity :: resolved, ambiguous)

def resolveEntitiesNode (sv : ExtractionServices) (s : ExtractionState) :
    Except ExtractionError ExtractionState :=
  match resolveFrom sv.resolve 0 s.entities with
  | .error e => .error e
  | .ok (resolved, ambiguous) =>
    .ok { s with resolvedEntities := resolved, ambiguousMentions := ambiguous }

/-- `{e.canonical_name: e.entity_id for e in resolved}`: the last entity of a name counts. -/
def nameToId (resolved : List CanonicalEntity) : NameTable :=
  resolved.foldl (fun names e => names.upsert (e.canonicalName, e.entityId)) .empty

def surfaceForms (names : NameTable) : List String := names.rows.map Prod.fst

def extractFactsNode (sv : ExtractionServices) (d : ExtractionDraws) (s : ExtractionState) :
    Except ExtractionError ExtractionState :=
  let names := nameToId s.resolvedEntities
  match extractFacts sv.ontology sv.llm d.factId d.now s.chunkContent (surfaceForms names) names
      s.chunkId.toList none (some s.tenantId) (some s.allowedPrincipals) with
  | .error e => .error e
  | .ok facts => .ok { s with facts := facts }

/-- The calls of the emitter, in order, before each draws the id of its event. -/
def emissions (now : Instant) (s : ExtractionState) : List (UUID → OutboxRow JsonObject) :=
  s.entities.map (fun m id => emitMention id now m) ++
    s.resolvedEntities.map (fun e id => emitEntity id now e) ++
    s.facts.map (fun z id => emitFact id now z)

def emitOutboxNode (d : ExtractionDraws) (s : ExtractionState) : List (OutboxRow JsonObject) :=
  (emissions d.writtenAt s).mapIdx fun i emit => emit (d.eventId i)

/-- The compiled graph, from the state it is invoked with to the events it emits. -/
def runExtraction (sv : ExtractionServices) (d : ExtractionDraws) (s : ExtractionState) :
    Except ExtractionError (List (OutboxRow JsonObject)) := do
  let s ← extractEntitiesNode sv s
  let s ← resolveEntitiesNode sv s
  let s ← extractFactsNode sv d s
  pure (emitOutboxNode d s)

section
variable {sv : ExtractionServices} {d : ExtractionDraws} {s t : ExtractionState}
  {rows : List (OutboxRow JsonObject)}

theorem extractEntitiesNode_ok_iff : extractEntitiesNode sv s = .ok t ↔
    ∃ mentions, sv.extract s.chunkContent s.chunkId = .ok mentions ∧
      { s with entities := mentions } = t := by
  unfold extractEntitiesNode
  cases sv.extract s.chunkContent s.chunkId <;> simp

theorem resolveEntitiesNode_ok_iff : resolveEntitiesNode sv s = .ok t ↔
    ∃ resolved ambiguous, resolveFrom sv.resolve 0 s.entities = .ok (resolved, ambiguous) ∧
      { s with resolvedEntities := resolved, ambiguousMentions := ambiguous } = t := by
  unfold resolveEntitiesNode
  cases resolveFrom sv.resolve 0 s.entities with
  | error e => simp
  | ok parts =>
    obtain ⟨resolved, ambiguous⟩ := parts
    simp

theorem extractFactsNode_ok_iff : extractFactsNode sv d s = .ok t ↔
    ∃ outputs facts,
      factOutputs sv.ontology sv.llm s.chunkContent (surfaceForms (nameToId s.resolvedEntities)) =
        .ok outputs ∧
      collect sv.ontology (nameToId s.resolvedEntities)
        ⟨s.chunkId.toList, d.now, sv.ontology.version, s.tenantId, s.allowedPrincipals⟩ d.factId
        outputs = .ok facts ∧
      { s with facts := facts } = t := by
  simp only [extractFactsNode, extractFacts, Option.getD_some]
  cases factOutputs sv.ontology sv.llm s.chunkContent
      (surfaceForms (nameToId s.resolvedEntities)) with
  | error e => simp
  | ok outputs =>
    cases hcollect : collect sv.ontology (nameToId s.resolvedEntities)
        ⟨s.chunkId.toList, d.now, sv.ontology.version, s.tenantId, s.allowedPrincipals⟩ d.factId
        outputs <;> simp [hcollect]

theorem runExtraction_ok_iff : runExtraction sv d s = .ok rows ↔
    ∃ mentions resolved ambiguous outputs facts,
      sv.extract s.chunkContent s.chunkId = .ok mentions ∧
      resolveFrom sv.resolve 0 mentions = .ok (resolved, ambiguous) ∧
      factOutputs sv.ontology sv.llm s.chunkContent (surfaceForms (nameToId resolved)) =
        .ok outputs ∧
      collect sv.ontology (nameToId resolved)
        ⟨s.chunkId.toList, d.now, sv.ontology.version, s.tenantId, s.allowedPrincipals⟩ d.factId
        outputs = .ok facts ∧
      rows = emitOutboxNode d { s with
        entities := mentions
        resolvedEntities := resolved
        ambiguousMentions := ambiguous
        facts := facts } := by
  simp only [runExtraction, Except.bind_ok_iff, extractEntitiesNode_ok_iff,
    resolveEntitiesNode_ok_iff, extractFactsNode_ok_iff, pure, Except.pure, Except.ok.injEq]
  constructor
  · rintro ⟨_, ⟨mentions, hextract, rfl⟩, _, ⟨resolved, ambiguous, hresolve, rfl⟩, _,
      ⟨outputs, facts, houtputs, hfacts, rfl⟩, rfl⟩
    exact ⟨mentions, resolved, ambiguous, outputs, facts, hextract, hresolve, houtputs, hfacts, rfl⟩
  · rintro ⟨mentions, resolved, ambiguous, outputs, facts, hextract, hresolve, houtputs, hfacts,
      rfl⟩
    exact ⟨_, ⟨mentions, hextract, rfl⟩, _, ⟨resolved, ambiguous, hresolve, rfl⟩, _,
      ⟨outputs, facts, houtputs, hfacts, rfl⟩, rfl⟩

theorem exists_entity_of_nameToId {resolved : List CanonicalEntity} {name : String} {id : UUID}
    (h : (nameToId resolved).get name = some id) :
    ∃ e ∈ resolved, e.canonicalName = name ∧ e.entityId = id := by
  suffices hgeneral : ∀ (names : NameTable) (resolved : List CanonicalEntity),
      NameTable.get (resolved.foldl (fun names e => names.upsert (e.canonicalName, e.entityId))
        names) name = some id →
      names.get name = some id ∨ ∃ e ∈ resolved, e.canonicalName = name ∧ e.entityId = id by
    rcases hgeneral .empty resolved h with hnone | hsome
    · cases hnone
    · exact hsome
  intro names resolved
  induction resolved generalizing names with
  | nil => exact Or.inl
  | cons e rest ih =>
    intro h
    rcases ih _ h with hnames | ⟨e', he', hid⟩
    · simp only [NameTable.get, KeyedTable.get?_upsert] at hnames
      by_cases hname : name = e.canonicalName
      · rw [if_pos hname] at hnames
        exact Or.inr ⟨e, List.mem_cons_self, hname.symm, Option.some.inj hnames⟩
      · rw [if_neg hname] at hnames
        exact Or.inl hnames
    · exact Or.inr ⟨e', List.mem_cons_of_mem _ he', hid⟩

theorem mem_emitted {α : Type} {emit : UUID → α → OutboxRow JsonObject} {ids : Nat → UUID}
    {xs : List α} {row : OutboxRow JsonObject}
    (h : row ∈ (xs.map fun x id => emit id x).mapIdx fun i e => e (ids i)) :
    ∃ x ∈ xs, ∃ id, row = emit id x := by
  obtain ⟨i, hi, rfl⟩ := List.mem_mapIdx.mp h
  rw [List.length_map] at hi
  exact ⟨xs[i], List.getElem_mem hi, ids i, by simp⟩

theorem emitted_mem {α : Type} {emit : UUID → α → OutboxRow JsonObject} (ids : Nat → UUID)
    {xs : List α} {x : α} (h : x ∈ xs) :
    ∃ id, emit id x ∈ (xs.map fun x id => emit id x).mapIdx fun i e => e (ids i) := by
  obtain ⟨i, hi, rfl⟩ := List.mem_iff_getElem.mp h
  exact ⟨ids i, List.mem_mapIdx.mpr ⟨i, by simpa using hi, by simp⟩⟩

theorem emitOutboxNode_split (d : ExtractionDraws) (s : ExtractionState) :
    ∃ ms es fs, emitOutboxNode d s = ms ++ es ++ fs ∧
      (∀ row ∈ ms, row.eventType = .entityMentioned) ∧
      (∀ row ∈ es, ∃ e ∈ s.resolvedEntities, ∃ id, row = emitEntity id d.writtenAt e) ∧
      (∀ e ∈ s.resolvedEntities, ∃ id, emitEntity id d.writtenAt e ∈ es) ∧
      (∀ row ∈ fs, ∃ z ∈ s.facts, ∃ id, row = emitFact id d.writtenAt z) ∧
      ∀ z ∈ s.facts, ∃ id, emitFact id d.writtenAt z ∈ fs := by
  refine ⟨_, _, _, by rw [emitOutboxNode, emissions, List.mapIdx_append, List.mapIdx_append],
    ?_, ?_, ?_, ?_, ?_⟩
  · intro row hrow
    obtain ⟨m, -, id, rfl⟩ := mem_emitted hrow
    rfl
  · intro row hrow
    exact mem_emitted hrow
  · intro e he
    exact emitted_mem _ he
  · intro row hrow
    exact mem_emitted hrow
  · intro z hz
    exact emitted_mem _ hz

end

end GroundGraph.Extraction

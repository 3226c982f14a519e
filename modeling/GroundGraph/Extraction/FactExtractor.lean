import GroundGraph.Extraction.Ontology
import GroundGraph.Library.PyText
import GroundGraph.Outbox.Emitter

/-! `FactExtractor`: `application/extraction/fact_extractor.py`. The client and the decoding of
its JSON are parameters, so an answer can hold any names, predicates and doubles.
-/

set_option autoImplicit false

namespace GroundGraph.Extraction

open GroundGraph.Knowledge GroundGraph.Outbox IsoDatetime

inductive ExtractionError where
  | entityExtractor
  | entityResolver
  | noChoices
  | validation
  deriving DecidableEq, Repr

structure FactOutput where
  subject : String
  predicate : String
  object : String
  confidence : PyFloat

/-- What comes back from `chat.completions.create`. -/
inductive ChatReply where
  | raised
  | noChoices
  | message (content : Option String)

structure ChatMessage where
  role : String
  content : String

/-- The client, and `json.loads` with `_FactsOutput.model_validate`; `none` is an exception. -/
structure FactModel where
  create : List ChatMessage → ChatReply
  modelValidate : String → Option (List FactOutput)

def systemPrompt : String :=
  "You are a fact extraction assistant. Given a document and a list of entities, " ++
  "extract factual relationships (triples: subject-predicate-object).\n\n" ++
  "Valid predicates: depends_on, implements, deploys, documents, owns, configures, " ++
  "references, supersedes\n" ++
  "Return a JSON object with a 'facts' array. Each fact must have:\n" ++
  "- subject: the exact surface form of the subject entity\n" ++
  "- predicate: one of the valid predicates\n" ++
  "- object: the exact surface form of the object entity\n" ++
  "- confidence: a number between 0 and 1"

def userPrompt (entities validPredicates : List String) (text : String) : String :=
  "Entities: " ++ ", ".intercalate entities ++ "\n\nValid predicates: " ++
    ", ".intercalate validPredicates ++ "\n\nDocument:\n" ++ String.ofList (text.toList.take 4000)

/-- `confidence < _MIN_CONFIDENCE`: nothing is less than a half that is not a number, and every
other double with the sign bit is. -/
def belowMinConfidence (x : PyFloat) : Bool :=
  if x.toNat < 2 ^ 63 then decide (x.toNat < half.toNat)
  else decide (x.toNat ≤ 2 ^ 63 + 0x7FF0000000000000)

/-- `dict[str, UUID]`. -/
abbrev NameTable := KeyedTable (Prod.fst : String × UUID → String)

def NameTable.get (names : NameTable) (name : String) : Option UUID :=
  (names.get? name).map Prod.snd

def endpoints (o : Ontology) (names : NameTable) (f : FactOutput) : Option (UUID × UUID) :=
  if belowMinConfidence f.confidence then none
  else if f.predicate ∈ o.predicates.map Predicate.name then
    match names.get f.subject, names.get f.object with
    | some subjectId, some objectId => some (subjectId, objectId)
    | _, _ => none
  else none

structure FactContext where
  evidenceIds : List UUID
  now : Datetime
  version : String
  tenantId : String
  allowedPrincipals : List String

def candidateFact (c : FactContext) (factId : UUID) (f : FactOutput) (ends : UUID × UUID)
    (h : unitInterval f.confidence = true) : ZonedFact where
  fact :=
    { factId := factId
      subjectId := ends.1
      predicate := f.predicate
      objectId := ends.2
      status := .candidate
      confidence := f.confidence
      evidenceIds := c.evidenceIds
      validFrom := none
      validTo := none
      extractionMethod := .llm
      ontologyVersion := c.version
      tenantId := c.tenantId
      allowedPrincipals := c.allowedPrincipals
      confidence_unit := h
      temporal := absent_bounds
      verified_evidence := candidate_unbacked c.evidenceIds
      observedAt := c.now.instant }
  validFrom := none
  validTo := none
  observedAt := c.now
  validFrom_instant := rfl
  validTo_instant := rfl
  observedAt_instant := rfl

/-- The loop over the outputs; `ids` are the coming `uuid4()`s. A confidence that the model
refuses raises. -/
def collect (o : Ontology) (names : NameTable) (c : FactContext) :
    (Nat → UUID) → List FactOutput → Except ExtractionError (List ZonedFact)
  | _, [] => .ok []
  | ids, f :: rest =>
    match endpoints o names f with
    | none => collect o names c ids rest
    | some ends =>
      if h : unitInterval f.confidence = true then
        match collect o names c (fun n => ids (n + 1)) rest with
        | .ok facts => .ok (candidateFact c (ids 0) f ends h :: facts)
        | .error e => .error e
      else .error .validation

def factMessages (o : Ontology) (text : String) (entities : List String) : List ChatMessage :=
  [⟨"system", systemPrompt⟩, ⟨"user", userPrompt entities (o.predicates.map Predicate.name) text⟩]

def factOutputs (o : Ontology) (llm : FactModel) (text : String) (entities : List String) :
    Except ExtractionError (List FactOutput) :=
  if PyText.blank text.toList || entities.isEmpty then .ok []
  else
    match llm.create (factMessages o text entities) with
    | .raised => .ok []
    | .noChoices => .error .noChoices
    | .message content =>
      let content := content.getD ""
      .ok ((llm.modelValidate (if content = "" then "\x7b\x7d" else content)).getD [])

def extractFacts (o : Ontology) (llm : FactModel) (ids : Nat → UUID) (now : Datetime)
    (text : String) (entities : List String) (names : NameTable) (evidenceIds : List UUID)
    (ontologyVersion tenantId : Option String) (allowedPrincipals : Option (List String)) :
    Except ExtractionError (List ZonedFact) :=
  match factOutputs o llm text entities with
  | .error e => .error e
  | .ok outputs =>
    collect o names
      { evidenceIds := evidenceIds
        now := now
        version := match ontologyVersion with
          | none => o.version
          | some version => if version = "" then o.version else version
        tenantId := tenantId.getD ""
        allowedPrincipals := allowedPrincipals.getD [] } ids outputs

theorem endpoints_some_iff {o : Ontology} {names : NameTable} {f : FactOutput} {ends : UUID × UUID} :
    endpoints o names f = some ends ↔
      belowMinConfidence f.confidence = false ∧ f.predicate ∈ o.predicates.map Predicate.name ∧
        names.get f.subject = some ends.1 ∧ names.get f.object = some ends.2 := by
  obtain ⟨subjectId, objectId⟩ := ends
  unfold endpoints
  cases hbelow : belowMinConfidence f.confidence with
  | true => simp
  | false =>
    by_cases hpredicate : f.predicate ∈ o.predicates.map Predicate.name
    · cases hsubject : names.get f.subject <;> cases hobject : names.get f.object <;>
        simp [hpredicate]
    · simp [hpredicate]

theorem half_le_of_unit {x : PyFloat} (hunit : unitInterval x = true)
    (hbelow : belowMinConfidence x = false) :
    half.toNat ≤ x.toNat ∧ x.toNat ≤ 0x3FF0000000000000 := by
  have hhalf : half.toNat = 0x3FE0000000000000 := rfl
  simp only [Knowledge.unitInterval, Bool.or_eq_true, decide_eq_true_eq] at hunit
  unfold belowMinConfidence at hbelow
  split at hbelow
  · simp only [decide_eq_false_iff_not] at hbelow
    omega
  · simp only [decide_eq_false_iff_not] at hbelow
    omega

section
variable {o : Ontology} {names : NameTable} {c : FactContext} {ids : Nat → UUID}
  {outputs : List FactOutput} {facts : List ZonedFact}

theorem exists_output_of_mem_collect (h : collect o names c ids outputs = .ok facts)
    {z : ZonedFact} (hz : z ∈ facts) :
    ∃ f ∈ outputs, ∃ ends factId hunit, endpoints o names f = some ends ∧
      z = candidateFact c factId f ends hunit := by
  induction outputs generalizing ids facts with
  | nil =>
    obtain rfl := Except.ok.inj h
    cases hz
  | cons f rest ih =>
    unfold collect at h
    split at h
    · obtain ⟨f', hf', hrest⟩ := ih h hz
      exact ⟨f', List.mem_cons_of_mem _ hf', hrest⟩
    · rename_i ends hends
      split at h
      · rename_i hunit
        split at h
        · rename_i facts' hfacts
          obtain rfl := Except.ok.inj h
          rcases List.mem_cons.mp hz with rfl | hz
          · exact ⟨f, List.mem_cons_self, ends, ids 0, hunit, hends, rfl⟩
          · obtain ⟨f', hf', hrest⟩ := ih hfacts hz
            exact ⟨f', List.mem_cons_of_mem _ hf', hrest⟩
        · cases h
      · cases h

theorem exists_fact_of_output (h : collect o names c ids outputs = .ok facts) {f : FactOutput}
    (hf : f ∈ outputs) {ends : UUID × UUID} (hends : endpoints o names f = some ends) :
    ∃ factId hunit, candidateFact c factId f ends hunit ∈ facts := by
  induction outputs generalizing ids facts with
  | nil => cases hf
  | cons f' rest ih =>
    unfold collect at h
    rcases List.mem_cons.mp hf with rfl | hf
    · rw [hends] at h
      simp only at h
      split at h
      · rename_i hunit
        split at h
        · obtain rfl := Except.ok.inj h
          exact ⟨ids 0, hunit, List.mem_cons_self⟩
        · cases h
      · cases h
    · split at h
      · exact ih h hf
      · split at h
        · split at h
          · rename_i facts' hfacts
            obtain rfl := Except.ok.inj h
            obtain ⟨factId, hunit, hmem⟩ := ih hfacts hf
            exact ⟨factId, hunit, List.mem_cons_of_mem _ hmem⟩
          · cases h
        · cases h

/-- The loop raises exactly at a confidence that the model refuses. -/
theorem collect_ok_iff :
    (∃ facts, collect o names c ids outputs = .ok facts) ↔
      ∀ f ∈ outputs, (endpoints o names f).isSome → unitInterval f.confidence = true := by
  induction outputs generalizing ids with
  | nil => simp [collect]
  | cons f rest ih =>
    unfold collect
    rw [List.forall_mem_cons]
    split
    · rename_i hnone
      simp [hnone, ih]
    · rename_i ends hends
      split
      · rename_i hunit
        rw [← @ih fun n => ids (n + 1)]
        simp only [hends, hunit]
        cases collect o names c (fun n => ids (n + 1)) rest with
        | ok facts => simp
        | error e => simp
      · rename_i hunit
        simp [hends, hunit]

end

end GroundGraph.Extraction

import GroundGraph.Extraction.LlmExtractor

/-! What the two extractors make of an arbitrary message: when they return exactly the items that
are well formed and in range, and when one bad item costs the others or raises.
-/

set_option autoImplicit false

namespace GroundGraph.Extraction

open GroundGraph.Knowledge GroundGraph.Outbox

def rawItems (key : String) : PyValue → List PyValue
  | .dict entries =>
    match entryAt key entries with
    | some (.list items) => items
    | _ => []
  | _ => []

def messageItems (reader : JsonReader) (key : String) (content : Option String) : List PyValue :=
  match reader.loads (messageText content) with
  | none => []
  | some data => rawItems key data

section
variable {α : Type} {reader : JsonReader} {key : String} {item : PyValue → Option α}
  {content : Option String}

def decodedItems (reader : JsonReader) (key : String) (item : PyValue → Option α)
    (content : Option String) : List α :=
  ((reader.loads (messageText content)).bind (listModel key item)).getD []

theorem decodedItems_eq : decodedItems reader key item content =
    ((messageItems reader key content).mapM item).getD [] := by
  unfold decodedItems messageItems
  cases reader.loads (messageText content) with
  | none => rfl
  | some data =>
    cases data with
    | dict entries =>
      cases hentry : entryAt key entries with
      | none => simp [listModel, rawItems, hentry]
      | some value => cases value <;> simp [listModel, rawItems, hentry]
    | _ => rfl

theorem decodedItems_of_all
    (h : ∀ i ∈ messageItems reader key content, (item i).isSome = true) :
    decodedItems reader key item content = (messageItems reader key content).filterMap item := by
  rw [decodedItems_eq, Correspondence.mapM_of_all h]
  rfl

theorem decodedItems_of_malformed {i : PyValue} (hi : i ∈ messageItems reader key content)
    (hnone : item i = none) : decodedItems reader key item content = [] := by
  rw [decodedItems_eq, Correspondence.mapM_of_none hi hnone]
  rfl

/-- Either every item is well formed and none of them is refused by the loop, or there is a
malformed item and nothing that would have been kept. -/
def TolerableItems (item : PyValue → Option α) (keep refused : α → Bool) (items : List PyValue) :
    Prop :=
  (∀ i ∈ items, ∃ a, item i = some a ∧ refused a = false) ∨
    (∃ i ∈ items, item i = none) ∧ ∀ i ∈ items, ∀ a, item i = some a → keep a = false

variable {ε ρ : Type} {R : α → ρ → Prop} {keep refused : α → Bool}
  {loop : List α → Except ε (List ρ)}

theorem tolerates_of_all
    (hok : ∀ outputs, (∃ results, loop outputs = .ok results) ↔ ∀ a ∈ outputs, refused a = false)
    (hkept : ∀ outputs results, loop outputs = .ok results →
      List.Forall₂ R (outputs.filter keep) results)
    (hall : ∀ i ∈ messageItems reader key content, (item i).isSome = true) :
    (∃ results, loop (decodedItems reader key item content) = .ok results ∧
        List.Forall₂ R (((messageItems reader key content).filterMap item).filter keep) results) ↔
      ∀ i ∈ messageItems reader key content, ∃ a, item i = some a ∧ refused a = false := by
  rw [decodedItems_of_all hall]
  constructor
  · rintro ⟨results, hresults, _⟩ i hi
    obtain ⟨a, ha⟩ := Option.isSome_iff_exists.mp (hall i hi)
    exact ⟨a, ha, (hok _).mp ⟨results, hresults⟩ a (List.mem_filterMap.mpr ⟨i, hi, ha⟩)⟩
  · intro h
    have hfine : ∀ a ∈ (messageItems reader key content).filterMap item, refused a = false := by
      intro a ha
      obtain ⟨i, hi, hia⟩ := List.mem_filterMap.mp ha
      obtain ⟨b, hb, hfine⟩ := h i hi
      obtain rfl : b = a := Option.some.inj (hb.symm.trans hia)
      exact hfine
    obtain ⟨results, hresults⟩ := (hok _).mpr hfine
    exact ⟨results, hresults, hkept _ _ hresults⟩

theorem tolerates_of_malformed
    (hok : ∀ outputs, (∃ results, loop outputs = .ok results) ↔ ∀ a ∈ outputs, refused a = false)
    (hkept : ∀ outputs results, loop outputs = .ok results →
      List.Forall₂ R (outputs.filter keep) results)
    {i : PyValue} (hi : i ∈ messageItems reader key content) (hnone : item i = none) :
    (∃ results, loop (decodedItems reader key item content) = .ok results ∧
        List.Forall₂ R (((messageItems reader key content).filterMap item).filter keep) results) ↔
      ∀ i ∈ messageItems reader key content, ∀ a, item i = some a → keep a = false := by
  rw [decodedItems_of_malformed hi hnone]
  obtain ⟨results, hresults⟩ := (hok []).mpr (by simp)
  obtain rfl : results = [] := by simpa using hkept [] results hresults
  constructor
  · rintro ⟨results, hloop, hmatch⟩ j hj a ha
    obtain rfl : [] = results := Except.ok.inj (hresults.symm.trans hloop)
    rw [List.forall₂_nil_right_iff, List.filter_eq_nil_iff] at hmatch
    simpa using hmatch a (List.mem_filterMap.mpr ⟨j, hj, ha⟩)
  · intro h
    refine ⟨[], hresults, ?_⟩
    rw [List.forall₂_nil_right_iff, List.filter_eq_nil_iff]
    intro a ha
    obtain ⟨j, hj, hja⟩ := List.mem_filterMap.mp ha
    simp [h j hj a hja]

theorem tolerates_iff (reader : JsonReader) (key : String) (item : PyValue → Option α)
    (content : Option String)
    (hok : ∀ outputs, (∃ results, loop outputs = .ok results) ↔ ∀ a ∈ outputs, refused a = false)
    (hkept : ∀ outputs results, loop outputs = .ok results →
      List.Forall₂ R (outputs.filter keep) results) :
    (∃ results, loop (decodedItems reader key item content) = .ok results ∧
        List.Forall₂ R (((messageItems reader key content).filterMap item).filter keep) results) ↔
      TolerableItems item keep refused (messageItems reader key content) := by
  by_cases hall : ∀ i ∈ messageItems reader key content, (item i).isSome = true
  · have hnone : ¬ ∃ i ∈ messageItems reader key content, item i = none := by
      rintro ⟨i, hi, hnone⟩
      have hsome := hall i hi
      rw [hnone] at hsome
      cases hsome
    rw [TolerableItems, or_iff_left fun h => hnone h.1]
    exact tolerates_of_all hok hkept hall
  · simp only [not_forall, Bool.not_eq_true, Option.isSome_eq_false_iff, Option.isNone_iff_eq_none]
      at hall
    obtain ⟨i, hi, hnone⟩ := hall
    have hfirst : ¬ ∀ i ∈ messageItems reader key content,
        ∃ a, item i = some a ∧ refused a = false := by
      intro h
      obtain ⟨a, ha, _⟩ := h i hi
      rw [hnone] at ha
      cases ha
    rw [TolerableItems, or_iff_right hfirst, and_iff_right ⟨i, hi, hnone⟩]
    exact tolerates_of_malformed hok hkept hi hnone

end

/-- `0.5 <= confidence <= 1.0`, on the bits. -/
def confidenceInRange (x : PyFloat) : Bool :=
  decide (half.toNat ≤ x.toNat) && decide (x.toNat ≤ 0x3FF0000000000000)

/-- Not below one half and not at most one: greater than one, or no number. -/
def confidenceRefused (x : PyFloat) : Bool := !belowMinConfidence x && !unitInterval x

theorem confidenceInRange_iff {x : PyFloat} :
    confidenceInRange x = true ↔ belowMinConfidence x = false ∧ unitInterval x = true := by
  constructor
  · intro h
    simp only [confidenceInRange, Bool.and_eq_true, decide_eq_true_eq] at h
    have hlt : x.toNat < 2 ^ 63 := by omega
    have hnot : ¬ x.toNat < half.toNat := by omega
    refine ⟨?_, ?_⟩
    · rw [belowMinConfidence, if_pos hlt]
      exact decide_eq_false hnot
    · rw [Knowledge.unitInterval, decide_eq_true h.2]
      rfl
  · rintro ⟨hbelow, hunit⟩
    have hbounds := half_le_of_unit hunit hbelow
    simp [confidenceInRange, hbounds.1, hbounds.2]

def keepEntity (e : EntityOutput) : Bool := confidenceInRange e.confidence

structure IsMentionOf (chunkId : UUID) (e : EntityOutput) (m : EntityMention) : Prop where
  chunkId : m.chunkId = chunkId
  surfaceForm : m.surfaceForm = e.surfaceForm
  candidateType : m.candidateType = e.entityType
  confidence : m.extractionConfidence = e.confidence

section
variable {chunkId : UUID} {ids : Nat → UUID} {outputs : List EntityOutput}
  {mentions : List EntityMention}

theorem collectMentions_ok_iff (chunkId : UUID) (ids : Nat → UUID) (outputs : List EntityOutput) :
    (∃ mentions, collectMentions chunkId ids outputs = .ok mentions) ↔
      ∀ e ∈ outputs, confidenceRefused e.confidence = false := by
  induction outputs generalizing ids with
  | nil => simp [collectMentions]
  | cons e rest ih =>
    rw [List.forall_mem_cons]
    unfold collectMentions
    split
    · rename_i hbelow
      simpa [confidenceRefused, hbelow] using ih ids
    · rename_i hbelow
      split
      · rename_i hunit
        rw [← ih fun n => ids (n + 1)]
        cases collectMentions chunkId (fun n => ids (n + 1)) rest <;>
          simp [confidenceRefused, hunit]
      · rename_i hunit
        simp [confidenceRefused, hbelow, hunit]

theorem collectMentions_keeps (chunkId : UUID) (ids : Nat → UUID) (outputs : List EntityOutput)
    (mentions : List EntityMention) (h : collectMentions chunkId ids outputs = .ok mentions) :
    List.Forall₂ (IsMentionOf chunkId) (outputs.filter keepEntity) mentions := by
  induction outputs generalizing ids mentions with
  | nil =>
    obtain rfl := Except.ok.inj h
    exact .nil
  | cons e rest ih =>
    unfold collectMentions at h
    split at h
    · rename_i hbelow
      have hdrop : ¬ keepEntity e = true := by
        rw [keepEntity, confidenceInRange_iff, hbelow]
        simp
      rw [List.filter_cons_of_neg hdrop]
      exact ih ids mentions h
    · rename_i hbelow
      split at h
      · rename_i hunit
        have hkeep : keepEntity e = true :=
          confidenceInRange_iff.mpr ⟨by simpa using hbelow, hunit⟩
        rw [List.filter_cons_of_pos hkeep]
        split at h
        · rename_i rest' hrest
          obtain rfl := Except.ok.inj h
          exact .cons ⟨rfl, rfl, rfl, rfl⟩ (ih _ _ hrest)
        · cases h
      · cases h

end

/-- In range, with a predicate of the ontology and the names of two resolved entities. -/
def keepFact (o : Ontology) (names : NameTable) (f : FactOutput) : Bool :=
  confidenceInRange f.confidence && decide (f.predicate ∈ o.predicates.map Predicate.name) &&
    (names.get f.subject).isSome && (names.get f.object).isSome

/-- Passes the filters of the loop with a confidence that `KnowledgeFact` refuses. -/
def refusedFact (o : Ontology) (names : NameTable) (f : FactOutput) : Bool :=
  confidenceRefused f.confidence && decide (f.predicate ∈ o.predicates.map Predicate.name) &&
    (names.get f.subject).isSome && (names.get f.object).isSome

structure IsFactOf (names : NameTable) (f : FactOutput) (z : ZonedFact) : Prop where
  subject : names.get f.subject = some z.fact.subjectId
  predicate : z.fact.predicate = f.predicate
  object : names.get f.object = some z.fact.objectId
  confidence : z.fact.confidence = f.confidence

theorem endpoints_isSome_iff {o : Ontology} {names : NameTable} {f : FactOutput} :
    (endpoints o names f).isSome = true ↔
      belowMinConfidence f.confidence = false ∧ f.predicate ∈ o.predicates.map Predicate.name ∧
        (names.get f.subject).isSome = true ∧ (names.get f.object).isSome = true := by
  constructor
  · intro h
    obtain ⟨ends, hends⟩ := Option.isSome_iff_exists.mp h
    obtain ⟨hbelow, hpredicate, hsubject, hobject⟩ := endpoints_some_iff.mp hends
    exact ⟨hbelow, hpredicate, by rw [hsubject]; rfl, by rw [hobject]; rfl⟩
  · rintro ⟨hbelow, hpredicate, hsubject, hobject⟩
    obtain ⟨subjectId, hsubject⟩ := Option.isSome_iff_exists.mp hsubject
    obtain ⟨objectId, hobject⟩ := Option.isSome_iff_exists.mp hobject
    exact Option.isSome_iff_exists.mpr ⟨(subjectId, objectId),
      endpoints_some_iff.mpr ⟨hbelow, hpredicate, hsubject, hobject⟩⟩

theorem keepFact_iff {o : Ontology} {names : NameTable} {f : FactOutput} :
    keepFact o names f = true ↔
      (endpoints o names f).isSome = true ∧ unitInterval f.confidence = true := by
  rw [endpoints_isSome_iff]
  simp only [keepFact, Bool.and_eq_true, decide_eq_true_eq, confidenceInRange_iff]
  tauto

theorem refusedFact_iff {o : Ontology} {names : NameTable} {f : FactOutput} :
    refusedFact o names f = false ↔
      ((endpoints o names f).isSome = true → unitInterval f.confidence = true) := by
  rw [endpoints_isSome_iff]
  cases hbelow : belowMinConfidence f.confidence <;> cases hunit : unitInterval f.confidence <;>
    simp [refusedFact, confidenceRefused, hbelow, hunit]

section
variable {o : Ontology} {names : NameTable} {c : FactContext}

theorem collect_ok_refused_iff (o : Ontology) (names : NameTable) (c : FactContext)
    (ids : Nat → UUID) (outputs : List FactOutput) :
    (∃ facts, collect o names c ids outputs = .ok facts) ↔
      ∀ f ∈ outputs, refusedFact o names f = false := by
  rw [collect_ok_iff]
  exact forall₂_congr fun f _ => refusedFact_iff.symm

theorem collect_keeps (o : Ontology) (names : NameTable) (c : FactContext) (ids : Nat → UUID)
    (outputs : List FactOutput) (facts : List ZonedFact)
    (h : collect o names c ids outputs = .ok facts) :
    List.Forall₂ (IsFactOf names) (outputs.filter (keepFact o names)) facts := by
  induction outputs generalizing ids facts with
  | nil =>
    obtain rfl := Except.ok.inj h
    exact .nil
  | cons f rest ih =>
    unfold collect at h
    split at h
    · rename_i hnone
      have hdrop : ¬ keepFact o names f = true := by
        rw [keepFact_iff, hnone]
        simp
      rw [List.filter_cons_of_neg hdrop]
      exact ih ids facts h
    · rename_i ends hends
      split at h
      · rename_i hunit
        have hkeep : keepFact o names f = true := keepFact_iff.mpr ⟨by rw [hends]; rfl, hunit⟩
        rw [List.filter_cons_of_pos hkeep]
        obtain ⟨_, _, hsubject, hobject⟩ := endpoints_some_iff.mp hends
        split at h
        · rename_i rest' hrest
          obtain rfl := Except.ok.inj h
          exact .cons ⟨hsubject, rfl, hobject, rfl⟩ (ih _ _ hrest)
        · cases h
      · cases h

end

def entityItems (reader : JsonReader) (create : List ChatMessage → ChatReply) (text : String) :
    List PyValue :=
  if PyText.blank text.toList then []
  else
    match create (entityMessages text) with
    | .message content => messageItems reader "entities" content
    | _ => []

def factItems (o : Ontology) (reader : JsonReader) (create : List ChatMessage → ChatReply)
    (text : String) (entities : List String) : List PyValue :=
  if PyText.blank text.toList || entities.isEmpty then []
  else
    match create (factMessages o text entities) with
    | .message content => messageItems reader "facts" content
    | _ => []

/-- A list comes back, with one mention for each well-formed item in range, in their order. -/
def ToleratesEntities (reader : JsonReader) (create : List ChatMessage → ChatReply)
    (ids : Nat → UUID) (text : String) (chunkId : UUID) : Prop :=
  ∃ mentions, extractEntities reader create ids text chunkId = .ok mentions ∧
    List.Forall₂ (IsMentionOf chunkId)
      (((entityItems reader create text).filterMap (entityOutput reader)).filter keepEntity) mentions

/-- What a call of `extract_facts` is given besides text and entities. -/
structure FactCall where
  now : IsoDatetime.Datetime
  names : NameTable
  evidenceIds : List UUID
  ontologyVersion : Option String := none
  tenantId : Option String := none
  allowedPrincipals : Option (List String) := none

def FactCall.context (call : FactCall) (o : Ontology) : FactContext where
  evidenceIds := call.evidenceIds
  now := call.now
  version := match call.ontologyVersion with
    | none => o.version
    | some version => if version = "" then o.version else version
  tenantId := call.tenantId.getD ""
  allowedPrincipals := call.allowedPrincipals.getD []

def ToleratesFacts (o : Ontology) (reader : JsonReader) (create : List ChatMessage → ChatReply)
    (ids : Nat → UUID) (text : String) (entities : List String) (call : FactCall) : Prop :=
  ∃ facts, extractFacts o (factModel reader create) ids call.now text entities call.names
      call.evidenceIds call.ontologyVersion call.tenantId call.allowedPrincipals = .ok facts ∧
    List.Forall₂ (IsFactOf call.names)
      (((factItems o reader create text entities).filterMap (factOutput reader)).filter
        (keepFact o call.names)) facts

theorem tolerableItems_nil {α : Type} {item : PyValue → Option α} {keep refused : α → Bool} :
    TolerableItems item keep refused [] :=
  Or.inl (List.forall_mem_nil _)

/-- There is a message, where one is asked for, and its items can be borne. -/
def EntitiesTolerable (reader : JsonReader) (create : List ChatMessage → ChatReply) (text : String) :
    Prop :=
  (PyText.blank text.toList = true ∨ create (entityMessages text) ≠ .noChoices) ∧
    TolerableItems (entityOutput reader) keepEntity (fun e => confidenceRefused e.confidence)
      (entityItems reader create text)

def FactsTolerable (o : Ontology) (reader : JsonReader) (create : List ChatMessage → ChatReply)
    (text : String) (entities : List String) (names : NameTable) : Prop :=
  ((PyText.blank text.toList || entities.isEmpty) = true ∨
      create (factMessages o text entities) ≠ .noChoices) ∧
    TolerableItems (factOutput reader) (keepFact o names) (refusedFact o names)
      (factItems o reader create text entities)

theorem toleratesEntities_iff (reader : JsonReader) (create : List ChatMessage → ChatReply)
    (ids : Nat → UUID) (text : String) (chunkId : UUID) :
    ToleratesEntities reader create ids text chunkId ↔ EntitiesTolerable reader create text := by
  unfold ToleratesEntities EntitiesTolerable extractEntities entityOutputs entityItems
  cases hblank : PyText.blank text.toList with
  | true => simp [collectMentions, tolerableItems_nil]
  | false =>
    cases hreply : create (entityMessages text) with
    | raised => simp [collectMentions, tolerableItems_nil]
    | noChoices => simp
    | message content =>
      have hloop := tolerates_iff reader "entities" (entityOutput reader) content
        (collectMentions_ok_iff chunkId ids) (collectMentions_keeps chunkId ids)
      simpa [decodedItems] using hloop

theorem extractFacts_eq (o : Ontology) (llm : FactModel) (ids : Nat → UUID) (text : String)
    (entities : List String) (call : FactCall) :
    extractFacts o llm ids call.now text entities call.names call.evidenceIds call.ontologyVersion
        call.tenantId call.allowedPrincipals =
      match factOutputs o llm text entities with
      | .error e => .error e
      | .ok outputs => collect o call.names (call.context o) ids outputs := rfl

theorem toleratesFacts_iff (o : Ontology) (reader : JsonReader)
    (create : List ChatMessage → ChatReply) (ids : Nat → UUID) (text : String)
    (entities : List String) (call : FactCall) :
    ToleratesFacts o reader create ids text entities call ↔
      FactsTolerable o reader create text entities call.names := by
  unfold ToleratesFacts FactsTolerable factItems
  rw [extractFacts_eq]
  unfold factOutputs
  cases hnothing : PyText.blank text.toList || entities.isEmpty with
  | true => simp [collect, tolerableItems_nil]
  | false =>
    cases hreply : create (factMessages o text entities) with
    | raised => simp [factModel, hreply, collect, tolerableItems_nil]
    | noChoices => simp [factModel, hreply]
    | message content =>
      have hloop := tolerates_iff reader "facts" (factOutput reader) content
        (collect_ok_refused_iff o call.names (call.context o) ids)
        (collect_keeps o call.names (call.context o) ids)
      simpa [factModel, hreply, decodedItems, messageText] using hloop

/-- For every text, every ontology and every client. -/
theorem extraction_tolerates_iff (o : Ontology) (reader : JsonReader)
    (create : List ChatMessage → ChatReply) (ids : Nat → UUID) (text : String) (chunkId : UUID)
    (entities : List String) (call : FactCall) :
    (ToleratesEntities reader create ids text chunkId ↔ EntitiesTolerable reader create text) ∧
      (ToleratesFacts o reader create ids text entities call ↔
        FactsTolerable o reader create text entities call.names) :=
  ⟨toleratesEntities_iff reader create ids text chunkId,
    toleratesFacts_iff o reader create ids text entities call⟩

def surePerson : String :=
  "\x7b\"entities\":[\x7b\"surface_form\":\"Bob\",\"entity_type\":\"Person\",\"confidence\":2.0\x7d]\x7d"

def surePersonReader : JsonReader where
  loads raw :=
    if raw = surePerson then
      some (.dict [(.inl "entities",
        .list [.dict [(.inl "surface_form", .str "Bob"), (.inl "entity_type", .str "Person"),
          (.inl "confidence", .float 0x4000000000000000)]])])
    else none
  float
    | .float x => some x
    | _ => none

theorem not_extraction_tolerates :
    ¬ ∀ (o : Ontology) (reader : JsonReader) (content : Option String) (ids : Nat → UUID)
      (text : String) (chunkId : UUID) (entities : List String) (call : FactCall),
      ToleratesEntities reader (fun _ => .message content) ids text chunkId ∧
        ToleratesFacts o reader (fun _ => .message content) ids text entities call := by
  intro h
  obtain ⟨mentions, hmentions, _⟩ := (h ontologyV010 surePersonReader (some surePerson)
    (fun n => BitVec.ofNat 128 n) "Bob." 9 []
    ⟨⟨.epoch, .zero, false, .zero⟩, .empty, [], none, none, none⟩).1
  have hblank : PyText.blank "Bob.".toList = false := by decide
  have hsome : surePerson ≠ "" := by simp [surePerson]
  have hdecoded : decodedItems surePersonReader "entities" (entityOutput surePersonReader)
      (some surePerson) = [⟨"Bob", "Person", 0x4000000000000000⟩] := by
    unfold decodedItems
    rw [messageText_some hsome, surePersonReader]
    simp only [if_true]
    rfl
  simp only [extractEntities, entityOutputs, hblank, Bool.false_eq_true, if_false] at hmentions
  change collectMentions 9 _ (decodedItems surePersonReader "entities"
    (entityOutput surePersonReader) (some surePerson)) = _ at hmentions
  rw [hdecoded] at hmentions
  cases hmentions

end GroundGraph.Extraction

import GroundGraph.Knowledge.Domain
import GroundGraph.Library.FixedDigits

/-! Reading mentions, entities and facts out of event payloads: the constructor
calls of `OutboxGraphProjector` in `outbox_graph_projector.py`.

What pydantic and `datetime.fromisoformat` make of single values is a parameter.
-/

set_option autoImplicit false

namespace GroundGraph.Knowledge

/-- Conversions of one JSON value that code outside the repository decides. -/
structure Conversions where
  uuid : JsonValue → Option UUID
  float : JsonValue → Option PyFloat
  datetime : JsonValue → Option PyDatetime
  fromisoformat : String → Option PyDatetime

inductive ProjectionError where
  | keyError (key : String)
  | isoformat (text : String)
  | validation
  deriving DecidableEq, Repr

/-- `payload.get(key)`. -/
def lookup (payload : JsonObject) (key : String) : Option JsonValue :=
  (payload.find? fun entry => decide (entry.1 = key)).map Prod.snd

/-- `payload[key]`. -/
def required (payload : JsonObject) (key : String) : Except ProjectionError JsonValue :=
  match lookup payload key with
  | some v => .ok v
  | none => .error (.keyError key)

def truthy : JsonValue → Bool
  | .null => false
  | .bool b => b
  | .int i => decide (i ≠ 0)
  | .float x _ => decide (x.toNat % 2 ^ 63 ≠ 0)
  | .str s => decide (s ≠ "")
  | .list items => !items.isEmpty
  | .dict items => !items.isEmpty

def asStr : JsonValue → Option String
  | .str s => some s
  | _ => none

def asOptionalStr : JsonValue → Option (Option String)
  | .null => some none
  | .str s => some (some s)
  | _ => none

def asStrList : JsonValue → Option (List String)
  | .list items => items.mapM asStr
  | _ => none

def asDict : JsonValue → Option JsonObject
  | .dict items => some items
  | _ => none

def asUnitFloat (co : Conversions) (v : JsonValue) : Option { x : PyFloat // unitInterval x = true } :=
  match co.float v with
  | none => none
  | some x => if h : unitInterval x = true then some ⟨x, h⟩ else none

def asUuidList (co : Conversions) : JsonValue → Option (List UUID)
  | .list items => items.mapM co.uuid
  | _ => none

def validated {α : Type} : Option α → Except ProjectionError α
  | some a => .ok a
  | none => .error .validation

def mentionOfPayload (co : Conversions) (payload : JsonObject) :
    Except ProjectionError EntityMention := do
  let mentionId ← required payload "mention_id"
  let chunkId ← required payload "chunk_id"
  let surfaceForm ← required payload "surface_form"
  let candidateType ← required payload "candidate_type"
  let locator := (lookup payload "locator").getD .null
  let confidence := (lookup payload "extraction_confidence").getD (.float half (by decide))
  let mentionId ← validated (co.uuid mentionId)
  let chunkId ← validated (co.uuid chunkId)
  let surfaceForm ← validated (asStr surfaceForm)
  let candidateType ← validated (asStr candidateType)
  let locator ← validated (asOptionalStr locator)
  let confidence ← validated (asUnitFloat co confidence)
  pure
    { mentionId := mentionId
      chunkId := chunkId
      surfaceForm := surfaceForm
      candidateType := candidateType
      locator := locator
      extractionConfidence := confidence.val
      confidence_unit := confidence.property }

def entityOfPayload (co : Conversions) (payload : JsonObject) :
    Except ProjectionError CanonicalEntity := do
  let entityId ← required payload "entity_id"
  let entityType ← required payload "entity_type"
  let canonicalName ← required payload "canonical_name"
  let aliases := (lookup payload "aliases").getD (.list [])
  let attributes := (lookup payload "attributes").getD (.dict [])
  let entityId ← validated (co.uuid entityId)
  let entityType ← validated (asStr entityType)
  let canonicalName ← validated (asStr canonicalName)
  let aliases ← validated (asStrList aliases)
  let attributes ← validated (asDict attributes)
  pure
    { entityId := entityId
      entityType := entityType
      canonicalName := canonicalName
      aliases := aliases
      attributes := attributes }

/-- A bound of the validity interval: strings go through `fromisoformat`, the
rest is left to pydantic. -/
def boundOfPayload (co : Conversions) : Option JsonValue →
    Except ProjectionError (Option (JsonValue ⊕ PyDatetime))
  | none => .ok none
  | some .null => .ok none
  | some (.str text) =>
    match co.fromisoformat text with
    | some d => .ok (some (.inr d))
    | none => .error (.isoformat text)
  | some v => .ok (some (.inl v))

def validateBound (co : Conversions) : Option (JsonValue ⊕ PyDatetime) → Option (Option Instant)
  | none => some none
  | some (.inr d) => awareOrAbsent (some d)
  | some (.inl v) =>
    match co.datetime v with
    | some d => awareOrAbsent (some d)
    | none => none

/-- `payload.get("observed_at") or datetime.now(UTC)`, validated. -/
def observedAtOfPayload (co : Conversions) (payload : JsonObject) (now : Instant) : Option Instant :=
  match lookup payload "observed_at" with
  | none => some now
  | some v =>
    if truthy v then
      match co.datetime v with
      | some d => d.aware?
      | none => none
    else some now

def factFieldsOfPayload (co : Conversions) (payload : JsonObject) :
    Except ProjectionError FactFields := do
  let validFrom ← boundOfPayload co (lookup payload "valid_from")
  let validTo ← boundOfPayload co (lookup payload "valid_to")
  let factId ← required payload "fact_id"
  let subjectId ← required payload "subject_id"
  let predicate ← required payload "predicate"
  let objectId ← required payload "object_id"
  let status := (lookup payload "status").getD (.str "candidate")
  let confidence := (lookup payload "confidence").getD (.float half (by decide))
  let evidenceIds := (lookup payload "evidence_ids").getD (.list [])
  let extractionMethod := (lookup payload "extraction_method").getD (.str "llm")
  let ontologyVersion := (lookup payload "ontology_version").getD (.str "v0.1.0")
  let tenantId ← required payload "tenant_id"
  let allowedPrincipals := (lookup payload "allowed_principals").getD (.list [])
  let factId ← validated (co.uuid factId)
  let subjectId ← validated (co.uuid subjectId)
  let predicate ← validated (asStr predicate)
  let objectId ← validated (co.uuid objectId)
  let status ← validated ((asStr status).bind FactStatus.ofText?)
  let confidence ← validated (asUnitFloat co confidence)
  let evidenceIds ← validated (asUuidList co evidenceIds)
  let validFrom ← validated (validateBound co validFrom)
  let validTo ← validated (validateBound co validTo)
  let extractionMethod ← validated ((asStr extractionMethod).bind ExtractionMethod.ofText?)
  let ontologyVersion ← validated (asStr ontologyVersion)
  let tenantId ← validated (asStr tenantId)
  let allowedPrincipals ← validated (asStrList allowedPrincipals)
  if htemporal : temporalConsistent validFrom validTo = true then
    if hverified : status = .verified → evidenceIds ≠ [] then
      pure
        { factId := factId
          subjectId := subjectId
          predicate := predicate
          objectId := objectId
          status := status
          confidence := confidence.val
          evidenceIds := evidenceIds
          validFrom := validFrom
          validTo := validTo
          extractionMethod := extractionMethod
          ontologyVersion := ontologyVersion
          tenantId := tenantId
          allowedPrincipals := allowedPrincipals
          confidence_unit := confidence.property
          temporal := temporalConsistent_iff.mp htemporal
          verified_evidence := hverified }
    else throw .validation
  else throw .validation

def factOfPayload (co : Conversions) (payload : JsonObject) (now : Instant) :
    Except ProjectionError KnowledgeFact := do
  let fields ← factFieldsOfPayload co payload
  let observedAt ← validated (observedAtOfPayload co payload now)
  pure { toFactFields := fields, observedAt := observedAt }

/-- The payload names the time of observation, so that reading it later gives the
same fact. -/
def carriesObservedAt (payload : JsonObject) : Bool :=
  match lookup payload "observed_at" with
  | none => false
  | some v => truthy v

theorem observedAtOfPayload_of_carries {co : Conversions} {payload : JsonObject}
    (h : carriesObservedAt payload = true) (now now' : Instant) :
    observedAtOfPayload co payload now = observedAtOfPayload co payload now' := by
  unfold carriesObservedAt at h
  unfold observedAtOfPayload
  split at h
  · cases h
  · simp [h]

theorem observedAtOfPayload_of_not_carries {co : Conversions} {payload : JsonObject}
    (h : carriesObservedAt payload = false) (now : Instant) :
    observedAtOfPayload co payload now = some now := by
  unfold carriesObservedAt at h
  unfold observedAtOfPayload
  split at h
  · simp
  · simp [h]

theorem factOfPayload_ok_iff {co : Conversions} {payload : JsonObject} {now : Instant}
    {f : KnowledgeFact} :
    factOfPayload co payload now = .ok f ↔
      factFieldsOfPayload co payload = .ok f.toFactFields ∧
        observedAtOfPayload co payload now = some f.observedAt := by
  cases hfields : factFieldsOfPayload co payload with
  | error e => simp [factOfPayload, hfields, bind, Except.bind]
  | ok fields =>
    cases hobs : observedAtOfPayload co payload now with
    | none => simp [factOfPayload, hfields, hobs, validated, bind, Except.bind]
    | some t =>
      obtain ⟨fields', t'⟩ := f
      simp [factOfPayload, hfields, hobs, validated, bind, Except.bind, pure, Except.pure]

/-- The fact as a later reading sees it: a missing time of observation is then
the time of reading. -/
def readAgain (payload : JsonObject) (f : KnowledgeFact) (now : Instant) : KnowledgeFact :=
  { f with observedAt := if carriesObservedAt payload then f.observedAt else now }

theorem readAgain_of_carries {payload : JsonObject} (h : carriesObservedAt payload = true)
    (f : KnowledgeFact) (now : Instant) : readAgain payload f now = f := by
  simp [readAgain, h]

theorem readAgain_observedAt {payload : JsonObject} (h : carriesObservedAt payload = false)
    (f : KnowledgeFact) (now : Instant) : (readAgain payload f now).observedAt = now := by
  simp [readAgain, h]

theorem factOfPayload_again {co : Conversions} {payload : JsonObject} {now : Instant}
    {f : KnowledgeFact} (h : factOfPayload co payload now = .ok f) (now' : Instant) :
    factOfPayload co payload now' = .ok (readAgain payload f now') := by
  obtain ⟨hfields, hobs⟩ := factOfPayload_ok_iff.mp h
  refine factOfPayload_ok_iff.mpr ⟨hfields, ?_⟩
  cases hcarries : carriesObservedAt payload with
  | true =>
    rw [← observedAtOfPayload_of_carries hcarries now now', hobs, readAgain_of_carries hcarries]
  | false => rw [observedAtOfPayload_of_not_carries hcarries, readAgain_observedAt hcarries]

def hexValue (c : Char) : Option Nat :=
  if '0' ≤ c ∧ c ≤ '9' then some (c.toNat - 48)
  else if 'a' ≤ c ∧ c ≤ 'f' then some (c.toNat - 87)
  else none

def canonicalUuid (text : List Char) : Option UUID :=
  let digits := text.filter fun c => decide (c ≠ '-')
  if digits.length = 32 then
    (digits.mapM hexValue).map fun ds =>
      BitVec.ofNat 128 (ds.foldl (fun acc d => 16 * acc + d) 0)
  else none

theorem hexDigits_eq (k n : Nat) :
    hexDigits k n = (FixedDigits.toDigits 16 k n).map hexDigit := by
  induction k generalizing n with
  | zero => rfl
  | succ k ih => simp [hexDigits, FixedDigits.toDigits, ih]

theorem hexValue_hexDigit : ∀ d < 16, hexValue (hexDigit d) = some d := by decide

theorem hexDigit_ne_dash : ∀ d < 16, hexDigit d ≠ '-' := by decide

theorem filter_strUuid (u : UUID) :
    (strUuid u).filter (fun c => decide (c ≠ '-')) = hexDigits 32 u.toNat := by
  have hkeep : ∀ c ∈ hexDigits 32 u.toNat, decide (c ≠ '-') = true := by
    intro c hc
    rw [hexDigits_eq] at hc
    obtain ⟨d, hd, rfl⟩ := List.mem_map.mp hc
    exact decide_eq_true (hexDigit_ne_dash d (FixedDigits.lt_of_mem_toDigits (by decide) hd))
  unfold strUuid
  generalize hexDigits 32 u.toNat = hex at hkeep ⊢
  have hall : hex.take 8 ++ ((hex.drop 8).take 4 ++ ((hex.drop 12).take 4 ++
      ((hex.drop 16).take 4 ++ hex.drop 20))) = hex := by
    have hnext : ∀ n, (hex.drop n).take 4 ++ hex.drop (n + 4) = hex.drop n := by
      intro n
      rw [← List.drop_drop, List.take_append_drop]
    rw [hnext 16, hnext 12, hnext 8, List.take_append_drop]
  have hdash : ∀ xs ys : List Char, (xs ++ '-' :: ys).filter (fun c => decide (c ≠ '-')) =
      (xs ++ ys).filter fun c => decide (c ≠ '-') := by
    intro xs ys
    simp [List.filter_append]
  simp only [hdash, List.filter_append]
  simp only [← List.filter_append]
  rw [hall, List.filter_eq_self.mpr hkeep]

theorem canonicalUuid_strUuid (u : UUID) : canonicalUuid (strUuid u) = some u := by
  have hvalues := FixedDigits.mapM_value hexValue_hexDigit (by decide) 32 u.toNat
  have hofDigits := FixedDigits.ofDigits_toDigits (show u.toNat < 16 ^ 32 from u.isLt)
  unfold canonicalUuid
  rw [filter_strUuid, if_pos (hexDigits_length 32 u.toNat), hexDigits_eq, hvalues, Option.map_some]
  change some (BitVec.ofNat 128 (FixedDigits.ofDigits 16 _)) = some u
  rw [hofDigits]
  simp

/-- Conversions of canonical UUID texts, of doubles and of whole timestamps in
seconds: enough to run the model on payloads made of these. -/
def plainConversions : Conversions where
  uuid
    | .str text => canonicalUuid text.toList
    | _ => none
  float
    | .float x _ => some x
    | _ => none
  datetime
    | .int t => some (.aware (1000000 * t))
    | _ => none
  fromisoformat _ := none

end GroundGraph.Knowledge

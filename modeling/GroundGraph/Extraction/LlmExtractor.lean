import GroundGraph.Extraction.FactExtractor
import GroundGraph.Library.Correspondence

/-! `LLMEntityExtractor`: `application/extraction/llm_extractor.py`, and how the content of a
message becomes the outputs of this extractor and of `FactExtractor`. The list at one key is
decoded as a whole: one item that its model refuses takes the others with it.
-/

set_option autoImplicit false

namespace GroundGraph.Extraction

open GroundGraph.Knowledge

/-- `json.loads`, and what a field of type `float` accepts; `none` is an exception. -/
structure JsonReader where
  loads : String → Option PyValue
  float : PyValue → Option PyFloat

/-- `d.get(key)`. -/
def entryAt (key : String) (entries : List ((String ⊕ String) × PyValue)) : Option PyValue :=
  (entries.find? fun entry => decide (entry.1 = .inl key)).map Prod.snd

def strField (key : String) (entries : List ((String ⊕ String) × PyValue)) : Option String :=
  match entryAt key entries with
  | some (.str s) => some s
  | _ => none

def floatField (reader : JsonReader) (key : String)
    (entries : List ((String ⊕ String) × PyValue)) : Option PyFloat :=
  (entryAt key entries).bind reader.float

/-- A model with the one field `key`, a list. -/
def listModel {α : Type} (key : String) (item : PyValue → Option α) : PyValue → Option (List α)
  | .dict entries =>
    match entryAt key entries with
    | some (.list items) => items.mapM item
    | _ => none
  | _ => none

structure EntityOutput where
  surfaceForm : String
  entityType : String
  confidence : PyFloat

/-- `_EntityOutput.model_validate`. -/
def entityOutput (reader : JsonReader) : PyValue → Option EntityOutput
  | .dict entries => do
    let surfaceForm ← strField "surface_form" entries
    let entityType ← strField "entity_type" entries
    let confidence ← floatField reader "confidence" entries
    pure ⟨surfaceForm, entityType, confidence⟩
  | _ => none

/-- `_FactOutput.model_validate`. -/
def factOutput (reader : JsonReader) : PyValue → Option FactOutput
  | .dict entries => do
    let subject ← strField "subject" entries
    let predicate ← strField "predicate" entries
    let object ← strField "object" entries
    let confidence ← floatField reader "confidence" entries
    pure ⟨subject, predicate, object, confidence⟩
  | _ => none

/-- `message.content or "{}"`. -/
def messageText (content : Option String) : String :=
  let content := content.getD ""
  if content = "" then "\x7b\x7d" else content

theorem messageText_some {text : String} (h : text ≠ "") : messageText (some text) = text := by
  simp [messageText, h]

/-- The client of the fact extractor, with the decoding of its messages spelled out. -/
def factModel (reader : JsonReader) (create : List ChatMessage → ChatReply) : FactModel where
  create := create
  modelValidate raw := (reader.loads raw).bind (listModel "facts" (factOutput reader))

def entitySystemPrompt : String :=
  "You are an entity extraction assistant. Given the text, extract all named entities " ++
  "that match the following types: Person, SoftwareSystem, Repository, Service, Database, " ++
  "Configuration, Document, Concept.\n\n" ++
  "Return a JSON object with an 'entities' array. Each entity must have:\n" ++
  "- surface_form: the exact text of the mention\n" ++
  "- entity_type: one of the valid types\n" ++
  "- confidence: a number between 0 and 1\n\n" ++
  "Only extract entities you are confident about."

def entityMessages (text : String) : List ChatMessage :=
  [⟨"system", entitySystemPrompt⟩, ⟨"user", String.ofList (text.toList.take 4000)⟩]

def entityOutputs (reader : JsonReader) (create : List ChatMessage → ChatReply) (text : String) :
    Except ExtractionError (List EntityOutput) :=
  if PyText.blank text.toList then .ok []
  else
    match create (entityMessages text) with
    | .raised => .ok []
    | .noChoices => .error .noChoices
    | .message content =>
      .ok (((reader.loads (messageText content)).bind
        (listModel "entities" (entityOutput reader))).getD [])

/-- The loop over the outputs; `ids` are the coming `uuid4()`s. The mention is built outside the
`try`, so a confidence that its model refuses raises. -/
def collectMentions (chunkId : UUID) :
    (Nat → UUID) → List EntityOutput → Except ExtractionError (List EntityMention)
  | _, [] => .ok []
  | ids, e :: rest =>
    if belowMinConfidence e.confidence then collectMentions chunkId ids rest
    else if h : unitInterval e.confidence = true then
      match collectMentions chunkId (fun n => ids (n + 1)) rest with
      | .ok mentions =>
        .ok ({ mentionId := ids 0
               chunkId := chunkId
               surfaceForm := e.surfaceForm
               candidateType := e.entityType
               extractionConfidence := e.confidence
               confidence_unit := h } :: mentions)
      | .error err => .error err
    else .error .validation

def extractEntities (reader : JsonReader) (create : List ChatMessage → ChatReply)
    (ids : Nat → UUID) (text : String) (chunkId : UUID) :
    Except ExtractionError (List EntityMention) :=
  match entityOutputs reader create text with
  | .error e => .error e
  | .ok outputs => collectMentions chunkId ids outputs

end GroundGraph.Extraction

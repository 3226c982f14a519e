import GroundGraph.Answering.Grounding
import GroundGraph.Extraction.LlmExtractor

/-! `EvidenceOnlyAnswerGenerator.generate`: `infrastructure/openai/answer_generator.py`. The call
of the model is inside a `try`, the building of the response is not.
-/

set_option autoImplicit false

namespace GroundGraph.Answering

open GroundGraph.Retrieval
open GroundGraph.Extraction (ChatMessage ChatReply messageText)

/-- The client, and `_ResponseOutput.model_validate_json`; `none` is its `ValidationError`. -/
structure AnswerModel where
  create : List ChatMessage → ChatReply
  modelValidateJson : String → Option ResponseOutput

def systemPrompt : String :=
  "You are a factual question-answering assistant. Your role is to answer questions " ++
  "based ONLY on the provided evidence. You must cite every factual claim.\n\n" ++
  "Rules:\n" ++
  "1. Answer using ONLY the evidence provided.\n" ++
  "2. If the evidence does not support an answer, say 'I don't know'.\n" ++
  "3. Every factual claim must be cited using [citation_id] markers.\n" ++
  "4. If you cannot determine the answer, respond with status 'insufficient_evidence'.\n" ++
  "5. Be concise and precise."

def userPrompt (question : List Char) (evidenceContext : List Char) : String :=
  "Question: " ++ String.ofList question ++ "\n\nEvidence:\n" ++ String.ofList evidenceContext ++
    "\n\nProvide your answer in JSON format with 'answer', and 'claims' array."

def buildEvidenceContext (evidence : List Evidence) : List Char :=
  "\n\n".toList.intercalate
    (evidence.map fun ev => '[' :: strUuid ev.evidenceId ++ ']' :: ' ' :: ev.content)

def answerMessages (question : List Char) (evidence : List Evidence) : List ChatMessage :=
  [⟨"system", systemPrompt⟩, ⟨"user", userPrompt question (buildEvidenceContext evidence)⟩]

/-- `none` is any exception, of the client, of a reply without choices or of the decoding. -/
def callLlm (llm : AnswerModel) (question : List Char) (evidence : List Evidence) :
    Option ResponseOutput :=
  match llm.create (answerMessages question evidence) with
  | .raised => none
  | .noChoices => none
  | .message content => llm.modelValidateJson (messageText content)

/-- `none` is the `ValidationError` of the response. -/
def generate (llm : AnswerModel) (uuid4 : UuidSource) (question : List Char)
    (evidence : List Evidence) : Option QueryResponse :=
  if evidence.isEmpty then
    QueryResponse.make? (uuid4 0) none .insufficientEvidence [] [] .low
      ["No evidence retrieved".toList]
  else
    match callLlm llm question evidence with
    | none => QueryResponse.make? (uuid4 0) none .failed [] [] .low
        ["Answer generation failed".toList]
    | some output => buildResponse uuid4 output evidence

/-- The model answers, and its answer is white space. -/
def BlankAnswer (output : ResponseOutput) : Prop :=
  output.answer ≠ [] ∧ PyText.strip output.answer = []

/-- Each branch fits answer and status together but the last, which sends a blank answer on. -/
theorem buildResponse_isSome_iff (uuid4 : UuidSource) (output : ResponseOutput)
    (evidence : List Evidence) :
    (buildResponse uuid4 output evidence).isSome ↔ ¬ BlankAnswer output := by
  unfold buildResponse BlankAnswer
  simp only
  by_cases hblank : PyText.strip output.answer = []
  · rw [if_neg (not_not.mpr hblank), QueryResponse.make?_isSome_iff]
    by_cases hanswer : output.answer = []
    · simp [hanswer, answerConsistent]
    · simp [hanswer, hblank, answerConsistent]
  · rw [if_pos hblank]
    have hanswer : output.answer ≠ [] := by
      intro hnil
      rw [hnil] at hblank
      exact hblank rfl
    split
    · rw [QueryResponse.make?_isSome_iff]
      simp [hblank, answerConsistent]
    · rw [QueryResponse.make?_isSome_iff]
      simp [hblank, hanswer, answerConsistent]

/-- Nothing but a blank answer to a question with evidence makes generation raise. -/
theorem generate_isSome_iff (llm : AnswerModel) (uuid4 : UuidSource) (question : List Char)
    (evidence : List Evidence) :
    (generate llm uuid4 question evidence).isSome ↔
      ¬ (evidence ≠ [] ∧ ∃ content output,
        llm.create (answerMessages question evidence) = .message content ∧
          llm.modelValidateJson (messageText content) = some output ∧ BlankAnswer output) := by
  unfold generate
  by_cases hnil : evidence = []
  · simp [hnil, QueryResponse.make?_isSome_iff, answerConsistent]
  · simp only [List.isEmpty_iff, hnil, if_false, ne_eq, not_false_eq_true, true_and]
    unfold callLlm
    cases hreply : llm.create (answerMessages question evidence) with
    | raised => simp [QueryResponse.make?_isSome_iff, answerConsistent]
    | noChoices => simp [QueryResponse.make?_isSome_iff, answerConsistent]
    | message content =>
      cases houtput : llm.modelValidateJson (messageText content) with
      | none => simp [houtput, QueryResponse.make?_isSome_iff, answerConsistent]
      | some output => simp [houtput, buildResponse_isSome_iff]

def blankModel : AnswerModel where
  create := fun _ => .message (some "\x7b\"answer\": \"  \", \"claims\": []\x7d")
  modelValidateJson := fun raw =>
    if raw = "\x7b\"answer\": \"  \", \"claims\": []\x7d" then some ⟨"  ".toList, []⟩ else none

theorem not_generate_blank :
    ¬ ∀ (llm : AnswerModel) (uuid4 : UuidSource) (question : List Char) (evidence : List Evidence),
      (generate llm uuid4 question evidence).isSome := by
  intro h
  have hblank := h blankModel (fun n => BitVec.ofNat 128 n) "Who?".toList [sampleEvidence 7 "alice"]
  revert hblank
  decide

end GroundGraph.Answering

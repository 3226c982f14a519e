import GroundGraph.Extraction.EntityResolver
import GroundGraph.Extraction.Ontology
import GroundGraph.Retrieval.Domain
import Mathlib.Data.List.Infix

/-! The retrieval planner: `application/retrieval/retrieval_planner.py`. The entities are those
that extraction and resolution, both ports, find in the question.
-/

set_option autoImplicit false

namespace GroundGraph.Retrieval

open GroundGraph.Extraction

structure ResolvedEntity where
  entityId : UUID
  canonicalName : String
  entityType : String

inductive QuestionType where
  | fact | relationship | multiHop | temporal | comparison | impact | summary | unknown
  deriving DecidableEq, Repr

def QuestionType.text : QuestionType → String
  | .fact => "fact"
  | .relationship => "relationship"
  | .multiHop => "multi_hop"
  | .temporal => "temporal"
  | .comparison => "comparison"
  | .impact => "impact"
  | .summary => "summary"
  | .unknown => "unknown"

inductive Strategy where
  | vector | graph | hybrid
  deriving DecidableEq, Repr

def Strategy.text : Strategy → String
  | .vector => "vector"
  | .graph => "graph"
  | .hybrid => "hybrid"

structure RetrievalPlan where
  strategy : Strategy
  questionType : QuestionType
  queryTexts : List (List Char) := []
  entities : List ResolvedEntity := []
  predicates : List String := []
  maxGraphDepth : Nat := 2
  vectorTopK : Nat := 10
  finalEvidenceLimit : Nat := 10
  validAt : Option Instant := none
  reasonCodes : List String := []
  maxGraphDepth_le : maxGraphDepth ≤ 3
  vectorTopK_range : 1 ≤ vectorTopK ∧ vectorTopK ≤ 50
  finalEvidenceLimit_range : 1 ≤ finalEvidenceLimit ∧ finalEvidenceLimit ≤ 30

/-- `any(kw in q for kw in kws)`. -/
def mentionsAny (kws : List String) (q : List Char) : Bool :=
  kws.any fun kw => decide (kw.toList <:+: q)

def multiHopThreshold : Nat := 2

def temporalKws : List String := ["when", "before", "after", "history", "previously", "old version"]

def relKws : List String :=
  ["depend", "impact", "affect", "connected to", "related to", "what services"]

/-- `_classify_question_type`, of the question in lower case. -/
def classifyQuestionType (q : List Char) (entities : List ResolvedEntity) : QuestionType :=
  if mentionsAny temporalKws q then .temporal
  else if mentionsAny relKws q then .relationship
  else if mentionsAny [" vs ", " versus ", " compared "] q then .comparison
  else if mentionsAny [" what if ", " effect ", " would "] q then .impact
  else if mentionsAny [" how ", " why ", " because "] q then .fact
  else if multiHopThreshold ≤ entities.length then .multiHop
  else if mentionsAny ["list", "all", "every", "which"] q then .summary
  else .fact

def selectStrategy (questionType : QuestionType) (entities : List ResolvedEntity) : Strategy :=
  match questionType with
  | .relationship | .multiHop | .impact | .temporal => if entities = [] then .graph else .hybrid
  | .comparison => .hybrid
  | _ => .vector

def extractPredicates (L : Lowercase) (ontology : Ontology) (question : List Char) : List String :=
  (ontology.predicates.map Predicate.name).filter fun name =>
    decide (L.lower name.toList <:+: L.lower question)

def graphDepthForType : QuestionType → Nat
  | .relationship => 2
  | .multiHop => 3
  | .impact => 2
  | _ => 1

def insertText (text : String) : List String → List String
  | [] => [text]
  | t :: rest => if t < text then t :: insertText text rest else text :: t :: rest

/-- `sorted({e.entity_type for e in entities})`. -/
def entityTypes (entities : List ResolvedEntity) : List String :=
  (entities.map ResolvedEntity.entityType).dedup.foldr insertText []

def buildReasonCodes (questionType : QuestionType) (strategy : Strategy)
    (entities : List ResolvedEntity) (predicates : List String) : List String :=
  ["q_type=" ++ questionType.text, "strategy=" ++ strategy.text] ++
    (if entities = [] then []
      else ["entity_count=" ++ toString entities.length,
        "entity_types=" ++ String.intercalate "," (entityTypes entities)]) ++
    if predicates = [] then [] else ["predicates_matched=true"]

theorem graphDepthForType_le (t : QuestionType) : graphDepthForType t ≤ 3 := by
  cases t <;> decide

def plan (L : Lowercase) (ontology : Ontology) (question : List Char)
    (entities : List ResolvedEntity) : RetrievalPlan :=
  let questionType := classifyQuestionType (L.lower question) entities
  let strategy := selectStrategy questionType entities
  let predicates := extractPredicates L ontology question
  { strategy := strategy
    questionType := questionType
    queryTexts := [question]
    entities := entities
    predicates := predicates
    maxGraphDepth := graphDepthForType questionType
    vectorTopK := 10
    finalEvidenceLimit := 10
    validAt := none
    reasonCodes := buildReasonCodes questionType strategy entities predicates
    maxGraphDepth_le := graphDepthForType_le questionType
    vectorTopK_range := by decide
    finalEvidenceLimit_range := by decide }

/-- The kinds of question that are answered from the graph. -/
def QuestionType.aboutGraph (t : QuestionType) : Prop :=
  t = .relationship ∨ t = .multiHop ∨ t = .impact ∨ t = .temporal

theorem selectStrategy_eq_graph_iff {t : QuestionType} {entities : List ResolvedEntity} :
    selectStrategy t entities = .graph ↔ entities = [] ∧ t.aboutGraph := by
  cases t <;> by_cases hnil : entities = [] <;> simp [selectStrategy, QuestionType.aboutGraph, hnil]

end GroundGraph.Retrieval

import GroundGraph.Library.FirstPerKey
import GroundGraph.Retrieval.ChunkSearch
import Mathlib.Algebra.Order.Field.Rat
import Mathlib.Data.List.Sort

/-! Reciprocal rank fusion: `application/retrieval/fusion.py`, and the fusion with graph
evidence in `graph_fusion.py`. Scores are exact rationals. A dictionary is a table that keeps
the order of insertion, and `sorted(…, reverse=True)` keeps the order of equal scores.
-/

set_option autoImplicit false

namespace GroundGraph.Retrieval

def rrfK : Nat := 60

structure FusionResult where
  chunkId : UUID
  sourceId : UUID
  documentId : Option UUID
  versionId : Option UUID
  content : List Char
  vectorScore : Option PyFloat
  keywordScore : Option PyFloat
  rrfScore : Rat
  allowedPrincipals : List String

abbrev FusionTable := KeyedTable FusionResult.chunkId

def newFusionResult (vectorScore keywordScore : Option PyFloat) (c : RetrievedChunk) :
    FusionResult :=
  ⟨c.chunkId, c.sourceId, c.documentId, c.versionId, c.content, vectorScore, keywordScore, 0,
    c.allowedPrincipals⟩

def reciprocalRank (k rank : Nat) : Rat := 1 / ((k : Rat) + (rank : Rat))

def addVectorResult (k : Nat) (t : FusionTable) (r : RetrievedChunk × Nat) : FusionTable :=
  (t.setDefault (newFusionResult r.1.vectorScore none r.1)).modifyAt r.1.chunkId
    (fun e => { e with
      rrfScore := e.rrfScore + reciprocalRank k r.2
      vectorScore := r.1.vectorScore }) fun _ => rfl

def addKeywordResult (k : Nat) (t : FusionTable) (r : RetrievedChunk × Nat) : FusionTable :=
  (t.setDefault (newFusionResult none r.1.keywordScore r.1)).modifyAt r.1.chunkId
    (fun e => { e with
      rrfScore := e.rrfScore + reciprocalRank k r.2
      keywordScore := r.1.keywordScore }) fun _ => rfl

/-- `enumerate(results, start=1)`. -/
def ranked {α : Type} (results : List α) : List (α × Nat) := results.zipIdx 1

def reciprocalRankFusion (vectorResults keywordResults : List RetrievedChunk) (k : Nat) :
    List FusionResult :=
  let scores := (ranked vectorResults).foldl (addVectorResult k) .empty
  let scores := (ranked keywordResults).foldl (addKeywordResult k) scores
  scores.rows.insertionSort fun a b => b.rrfScore ≤ a.rrfScore

def graphWeight : Rat := 3 / 2

/-- A value of the dictionary; the chunks have no graph path and no bounds of validity. -/
structure HybridEntry where
  key : UUID
  evidenceId : UUID
  sourceId : UUID
  documentId : Option UUID
  versionId : Option UUID
  chunkId : Option UUID
  content : List Char
  vectorScore : Option PyFloat
  keywordScore : Option PyFloat
  graphScore : Option Rat
  rrfScore : Rat
  allowedPrincipals : List String
  graphPathFactIds : List UUID := []
  validFrom : Option Instant := none
  validTo : Option Instant := none

abbrev HybridTable := KeyedTable HybridEntry.key

inductive FusionError where
  | typeError
  | validation
  deriving DecidableEq, Repr

/-- The order in which a set is listed. -/
structure SetOrder where
  arrange : List UUID → List UUID
  perm : ∀ ids, (arrange ids).Perm ids

def listedSet : SetOrder := ⟨id, fun _ => .refl _⟩

def chunkEntry (evidenceId : UUID) (vectorScore keywordScore : Option PyFloat)
    (c : RetrievedChunk) : HybridEntry :=
  { key := c.chunkId
    evidenceId := evidenceId
    sourceId := c.sourceId
    documentId := c.documentId
    versionId := c.versionId
    chunkId := some c.chunkId
    content := c.content
    vectorScore := vectorScore
    keywordScore := keywordScore
    graphScore := none
    rrfScore := 0
    allowedPrincipals := c.allowedPrincipals }

/-- The body of the first two loops. A new entry has drawn one id, and so has each before. -/
def addChunk (uuid4 : Nat → UUID) (vectorScore keywordScore : RetrievedChunk → Option PyFloat)
    (t : HybridTable) (r : RetrievedChunk × Nat) : HybridTable :=
  (t.setDefault (chunkEntry (uuid4 t.rows.length) (vectorScore r.1) (keywordScore r.1) r.1)).modifyAt
    r.1.chunkId (fun e => { e with rrfScore := e.rrfScore + reciprocalRank rrfK r.2 }) fun _ => rfl

def addVectorChunk (uuid4 : Nat → UUID) : HybridTable → RetrievedChunk × Nat → HybridTable :=
  addChunk uuid4 RetrievedChunk.vectorScore fun _ => none

def addKeywordChunk (uuid4 : Nat → UUID) : HybridTable → RetrievedChunk × Nat → HybridTable :=
  addChunk uuid4 (fun _ => none) RetrievedChunk.keywordScore

def graphScoreAt (rank : Nat) : Rat := reciprocalRank rrfK rank * graphWeight

def graphEntry (ev : Evidence) (rank : Nat) : HybridEntry :=
  { key := ev.evidenceId
    evidenceId := ev.evidenceId
    sourceId := ev.sourceId
    documentId := none
    versionId := none
    chunkId := none
    content := ev.content
    vectorScore := none
    keywordScore := none
    graphScore := some (graphScoreAt rank)
    rrfScore := graphScoreAt rank
    allowedPrincipals := ev.allowedPrincipals
    graphPathFactIds := ev.graphPathFactIds
    validFrom := ev.validFrom
    validTo := ev.validTo }

def earlier (a b : Option Instant) : Option Instant :=
  match a, b with
  | some x, none => some x
  | some x, some y => if x < y then some x else some y
  | none, b => b

def later (a b : Option Instant) : Option Instant :=
  match a, b with
  | some x, none => some x
  | some x, some y => if y < x then some x else some y
  | none, b => b

/-- `_merge_temporal`. The entry of a chunk has `None` for its graph score, and `None` cannot be
added to. -/
def mergeTemporal (order : SetOrder) (e : HybridEntry) (ev : Evidence) (rank : Nat) :
    Except FusionError HybridEntry :=
  match e.graphScore with
  | none => .error .typeError
  | some score =>
    .ok { e with
      rrfScore := e.rrfScore + graphScoreAt rank
      graphScore := some (score + graphScoreAt rank)
      graphPathFactIds := order.arrange (e.graphPathFactIds ++ ev.graphPathFactIds).dedup
      validFrom := earlier ev.validFrom e.validFrom
      validTo := later ev.validTo e.validTo }

def addGraphEvidence (order : SetOrder) (t : HybridTable) (r : Evidence × Nat) :
    Except FusionError HybridTable :=
  match t.get? r.1.evidenceId with
  | none => .ok (t.upsert (graphEntry r.1 r.2))
  | some e => (mergeTemporal order e r.1 r.2).map t.upsert

def truthyScore (score : Option PyFloat) : Bool :=
  match score with
  | none => false
  | some x => decide (x.toNat % 2 ^ 63 ≠ 0)

def determineRetrievalMethod (e : HybridEntry) : RetrievalMethod :=
  if e.graphScore.any fun score => decide (score ≠ 0) then .graph
  else if truthyScore e.vectorScore then .vector
  else .keyword

def HybridEntry.toEvidence (e : HybridEntry) : Except FusionError Evidence :=
  if h : ∀ f ∈ e.validFrom, ∀ t ∈ e.validTo, f < t then
    .ok
      { evidenceId := e.evidenceId
        sourceId := e.sourceId
        documentId := e.documentId
        chunkId := e.chunkId
        versionId := e.versionId
        content := e.content
        retrievalMethod := determineRetrievalMethod e
        vectorScore := e.vectorScore
        rerankScore := none
        graphPathFactIds := e.graphPathFactIds
        validFrom := e.validFrom
        validTo := e.validTo
        allowedPrincipals := e.allowedPrincipals
        temporalBounds := fun f t hf ht => h f hf t ht }
  else .error .validation

def chunkTable (uuid4 : Nat → UUID) (vectorResults keywordResults : List RetrievedChunk) :
    HybridTable :=
  (ranked keywordResults).foldl (addKeywordChunk uuid4)
    ((ranked vectorResults).foldl (addVectorChunk uuid4) .empty)

def byScore (t : HybridTable) : List HybridEntry :=
  t.rows.insertionSort fun a b => b.rrfScore ≤ a.rrfScore

def hybridRrfFusion (uuid4 : Nat → UUID) (order : SetOrder)
    (vectorResults keywordResults : List RetrievedChunk) (graphEvidence : List Evidence) :
    Except FusionError (List Evidence) := do
  let scores ← (ranked graphEvidence).foldlM (addGraphEvidence order)
    (chunkTable uuid4 vectorResults keywordResults)
  (firstPerKey HybridEntry.sourceId [] (byScore scores)).mapM HybridEntry.toEvidence

theorem isSome_addVectorResult (k : Nat) (t : FusionTable) (r : RetrievedChunk × Nat) (id : UUID) :
    ((addVectorResult k t r).get? id).isSome = true ↔
      (t.get? id).isSome = true ∨ id = r.1.chunkId := by
  rw [addVectorResult, KeyedTable.isSome_get?_modifyAt, KeyedTable.isSome_get?_setDefault]
  rfl

theorem isSome_addKeywordResult (k : Nat) (t : FusionTable) (r : RetrievedChunk × Nat) (id : UUID) :
    ((addKeywordResult k t r).get? id).isSome = true ↔
      (t.get? id).isSome = true ∨ id = r.1.chunkId := by
  rw [addKeywordResult, KeyedTable.isSome_get?_modifyAt, KeyedTable.isSome_get?_setDefault]
  rfl

theorem isSome_foldl {add : FusionTable → RetrievedChunk × Nat → FusionTable}
    (hadd : ∀ t r id, ((add t r).get? id).isSome = true ↔
      (t.get? id).isSome = true ∨ id = r.1.chunkId)
    (rs : List (RetrievedChunk × Nat)) (t : FusionTable) (id : UUID) :
    ((rs.foldl add t).get? id).isSome = true ↔
      (t.get? id).isSome = true ∨ ∃ c ∈ rs.map Prod.fst, id = c.chunkId := by
  induction rs generalizing t with
  | nil => simp
  | cons r rs ih =>
    rw [List.foldl_cons, ih, hadd, or_assoc]
    simp

theorem ranked_map_fst {α : Type} (results : List α) : (ranked results).map Prod.fst = results :=
  List.zipIdx_map_fst 1 results

theorem exists_fused_iff {vectorResults keywordResults : List RetrievedChunk} {k : Nat} {id : UUID} :
    (∃ r ∈ reciprocalRankFusion vectorResults keywordResults k, r.chunkId = id) ↔
      ∃ c ∈ vectorResults ++ keywordResults, c.chunkId = id := by
  have hfold := isSome_foldl (isSome_addKeywordResult k) (ranked keywordResults)
    ((ranked vectorResults).foldl (addVectorResult k) .empty) id
  rw [isSome_foldl (isSome_addVectorResult k), ranked_map_fst, ranked_map_fst,
    KeyedTable.isSome_get?_iff] at hfold
  unfold reciprocalRankFusion
  simp only [(List.perm_insertionSort _ _).mem_iff, List.mem_append, or_and_right, exists_or]
  rw [hfold]
  simp [eq_comm]

end GroundGraph.Retrieval

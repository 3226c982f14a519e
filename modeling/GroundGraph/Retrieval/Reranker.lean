import GroundGraph.Extraction.FactExtractor
import GroundGraph.Library.StableSort
import GroundGraph.Retrieval.Hybrid

/-! `CrossEncoderReranker`: `infrastructure/openai/reranker.py`. The model answers with any text,
of which the first word is read as a number, put into the scale and sorted by.
-/

set_option autoImplicit false

namespace GroundGraph.PyFloat

/-- The exponent is all ones and the fraction is not zero. -/
def isNan (x : PyFloat) : Bool := decide (0x7FF0000000000000 < x.toNat % 2 ^ 63)

/-- The bits without the sign, negated if there is one: zero for both zeros. -/
def rank (x : PyFloat) : Int := if x.toNat < 2 ^ 63 then x.toNat else -(x.toNat - 2 ^ 63 : Int)

def lt (x y : PyFloat) : Bool := !x.isNan && !y.isNan && decide (x.rank < y.rank)

def le (x y : PyFloat) : Bool := !x.isNan && !y.isNan && decide (x.rank ≤ y.rank)

/-- `min(x, y)`: the second where it is less. -/
def min (x y : PyFloat) : PyFloat := if lt y x then y else x

/-- `max(x, y)`: the second where it is greater. -/
def max (x y : PyFloat) : PyFloat := if lt x y then y else x

def one : PyFloat := 0x3FF0000000000000

def five : PyFloat := 0x4014000000000000

variable {x y : PyFloat}

theorem lt_iff : lt x y ↔ x.isNan = false ∧ y.isNan = false ∧ x.rank < y.rank := by
  simp [lt, and_assoc]

theorem le_iff : le x y ↔ x.isNan = false ∧ y.isNan = false ∧ x.rank ≤ y.rank := by
  simp [le, and_assoc]

theorem le_of_lt (h : lt x y) : le x y := by
  obtain ⟨hx, hy, hlt⟩ := lt_iff.mp h
  exact le_iff.mpr ⟨hx, hy, hlt.le⟩

theorem rank_of_pos (h : 0 < x.rank) : x.rank = x.toNat := by
  unfold rank at h ⊢
  split
  · rfl
  · rename_i hsign
    rw [if_neg hsign] at h
    omega

theorem min_le (hx : x.isNan = false) : le (min x y) x := by
  unfold min
  split
  · exact le_of_lt ‹_›
  · exact le_iff.mpr ⟨hx, hx, le_rfl⟩

theorem le_max (hx : x.isNan = false) : le x (max x y) := by
  unfold max
  split
  · exact le_of_lt ‹_›
  · exact le_iff.mpr ⟨hx, hx, le_rfl⟩

theorem max_le {z : PyFloat} (hx : le x z) (hy : le y z) : le (max x y) z := by
  unfold max
  split
  · exact hy
  · exact hx

end GroundGraph.PyFloat

namespace GroundGraph.Retrieval

open GroundGraph.Extraction

structure RelevanceScore where
  value : PyFloat
  one_le : PyFloat.le PyFloat.one value
  le_five : PyFloat.le value PyFloat.five

namespace RelevanceScore

open PyFloat

/-- `max(1.0, min(5.0, score))`. -/
def clamp (score : PyFloat) : RelevanceScore where
  value := PyFloat.max one (PyFloat.min five score)
  one_le := le_max (by decide)
  le_five := max_le (by decide) (min_le (by decide))

def lowest : RelevanceScore := ⟨one, by decide, by decide⟩

/-- In the scale the order of the doubles is that of their bits. -/
theorem lt_iff_toNat (a b : RelevanceScore) :
    PyFloat.lt a.value b.value ↔ a.value.toNat < b.value.toNat := by
  have bits : ∀ s : RelevanceScore, s.value.isNan = false ∧ s.value.rank = s.value.toNat := by
    intro s
    obtain ⟨-, hnan, hone⟩ := le_iff.mp s.one_le
    have hpos : 0 < one.rank := by decide
    exact ⟨hnan, rank_of_pos (hpos.trans_le hone)⟩
  rw [lt_iff, (bits a).2, (bits b).2]
  simp [(bits a).1, (bits b).1]

end RelevanceScore

/-- The arguments of `chat.completions.create`. -/
structure ScoreRequest where
  model : String
  messages : List ChatMessage
  temperature : Nat := 0
  maxTokens : Nat := 5

/-- The client by the number of calls before, so any answers can come in any order, and `float`
on a text; there `none` is a `ValueError`. -/
structure ScoringModel where
  model : String
  create : Nat → ScoreRequest → ChatReply
  float : List Char → Option PyFloat

def scorePrompt (query content : List Char) : String :=
  "You are a relevance assessor. Rate how well the following evidence chunk " ++
  "answers the user's question on a scale of 1 to 5.\n\n" ++
  "Question: " ++ String.ofList query ++ "\n\n" ++
  "Evidence: " ++ String.ofList (content.take 2000) ++ "\n\n" ++
  "Respond with a single number between 1 and 5 (1=irrelevant, 5=perfectly relevant)."

/-- `text.strip().split()[0]`; `none` is an `IndexError`. -/
def firstWord (text : List Char) : Option (List Char) :=
  match PyText.lstrip (PyText.strip text) with
  | [] => none
  | c :: cs => some ((c :: cs).takeWhile fun c => !PyText.isSpace c)

namespace ScoringModel

variable (m : ScoringModel) (query : List Char)

def request (content : List Char) : ScoreRequest where
  model := m.model
  messages := [⟨"user", scorePrompt query content⟩]

/-- The score of an answer, the lowest where it is no number. -/
def scoreOfText (content : Option String) : RelevanceScore :=
  let text := (content.filter fun t => decide (t ≠ "")).getD "1"
  match (firstWord text.toList).bind m.float with
  | some score => .clamp score
  | none => .lowest

/-- `_score_relevance` as the `n`-th call; without an answer or choices it raises. -/
def scoreRelevance (n : Nat) (content : List Char) : Option RelevanceScore :=
  match m.create n (m.request query content) with
  | .message text => some (m.scoreOfText text)
  | .raised | .noChoices => none

def scoreAll : Nat → List Evidence → Option (List (Evidence × RelevanceScore))
  | _, [] => some []
  | n, ev :: evidence => do
    let score ← m.scoreRelevance query n ev.content
    let scored ← scoreAll (n + 1) evidence
    pure ((ev, score) :: scored)

/-- `ev.model_copy(update={"rerank_score": score})`. -/
def rescore (s : Evidence × RelevanceScore) : Evidence :=
  { s.1 with rerankScore := some s.2.value }

/-- `rerank`; `sort` with `reverse` keeps the order of equals. -/
def rerank (evidence : List Evidence) : Option (List Evidence) :=
  if evidence.length ≤ 1 then some evidence
  else
    (m.scoreAll query 0 evidence).map fun scored =>
      (scored.insertionSort fun a b => ¬ PyFloat.lt a.2.value b.2.value).map rescore

end ScoringModel

/-- The pieces of evidence at these positions, each with nothing but its score changed. -/
def Reordered (evidence : List Evidence) (order : List Nat) (out : List Evidence) : Prop :=
  order.Perm (List.range evidence.length) ∧
    List.Forall₂ (fun i e => ∃ ev score, evidence[i]? = some ev ∧
      e = { ev with rerankScore := score }) order out

def Outranks (a b : Nat × Evidence) : Prop :=
  ∃ s t, a.2.rerankScore = some s ∧ b.2.rerankScore = some t ∧
    (PyFloat.lt t s ∨ s = t ∧ a.1 < b.1)

/-- All are scored from 1.0 to 5.0, by the answers of the model about them, and come in the order of
their scores. -/
structure Ranked (m : ScoringModel) (query : List Char) (evidence : List Evidence)
    (order : List Nat) (out : List Evidence) : Prop where
  scored : ∀ e ∈ out, ∃ s, e.rerankScore = some s ∧
    PyFloat.le PyFloat.one s ∧ PyFloat.le s PyFloat.five
  answered : ∀ a ∈ order.zip out, ∃ ev text, evidence[a.1]? = some ev ∧
    m.create a.1 (m.request query ev.content) = .message text ∧
      a.2.rerankScore = some (m.scoreOfText text).value
  sorted : (order.zip out).Pairwise Outranks

theorem sorted_zipIdx (scored : List (Evidence × RelevanceScore)) :
    (scored.zipIdx.insertionSort fun a b => ¬ PyFloat.lt a.1.2.value b.1.2.value).Pairwise
      (StableSort.Before (fun a => a.1.2.value.toNat) Prod.snd) := by
  have horder : scored.zipIdx.Pairwise fun a b => a.2 < b.2 := by
    rw [← List.pairwise_map (f := Prod.snd) (R := (· < ·)), List.zipIdx_map_snd]
    exact List.pairwise_lt_range' 1
  have hscore : (fun a b : (Evidence × RelevanceScore) × Nat =>
        ¬ PyFloat.lt a.1.2.value b.1.2.value) =
      fun a b => b.1.2.value.toNat ≤ a.1.2.value.toNat := by
    funext a b
    rw [RelevanceScore.lt_iff_toNat, not_lt]
  simp only [hscore]
  exact StableSort.pairwise_insertionSort horder

theorem sorted_eq_map_fst (scored : List (Evidence × RelevanceScore)) :
    (scored.insertionSort fun a b => ¬ PyFloat.lt a.2.value b.2.value) =
      (scored.zipIdx.insertionSort fun a b =>
        ¬ PyFloat.lt a.1.2.value b.1.2.value).map Prod.fst := by
  have hmap := List.map_insertionSort
    (r := fun a b : (Evidence × RelevanceScore) × Nat => ¬ PyFloat.lt a.1.2.value b.1.2.value)
    (s := fun a b : Evidence × RelevanceScore => ¬ PyFloat.lt a.2.value b.2.value)
    Prod.fst scored.zipIdx fun _ _ _ _ => Iff.rfl
  rw [hmap, List.zipIdx_map_fst]

section
variable {m : ScoringModel} {query : List Char}

theorem scoreAll_fst {n : Nat} {evidence : List Evidence}
    {scored : List (Evidence × RelevanceScore)}
    (h : m.scoreAll query n evidence = some scored) : scored.map Prod.fst = evidence := by
  induction evidence generalizing n scored with
  | nil =>
    cases h
    rfl
  | cons ev evidence ih =>
    simp only [ScoringModel.scoreAll, Option.bind_eq_bind, Option.bind_eq_some_iff, Option.pure_def,
      Option.some.injEq] at h
    obtain ⟨score, -, rest, hrest, rfl⟩ := h
    rw [List.map_cons, ih hrest]

theorem scoreAll_score {n : Nat} {evidence : List Evidence}
    {scored : List (Evidence × RelevanceScore)} (h : m.scoreAll query n evidence = some scored)
    {i : Nat} {a : Evidence × RelevanceScore} (ha : scored[i]? = some a) :
    m.scoreRelevance query (n + i) a.1.content = some a.2 := by
  induction evidence generalizing n scored i with
  | nil =>
    cases h
    cases ha
  | cons ev evidence ih =>
    simp only [ScoringModel.scoreAll, Option.bind_eq_bind, Option.bind_eq_some_iff, Option.pure_def,
      Option.some.injEq] at h
    obtain ⟨score, hscore, rest, hrest, rfl⟩ := h
    cases i with
    | zero =>
      obtain rfl := Option.some.inj ha
      exact hscore
    | succ i =>
      rw [← Nat.add_assoc, Nat.add_right_comm]
      exact ih hrest ha

theorem exists_message {n : Nat} {content : List Char} {score : RelevanceScore}
    (h : m.scoreRelevance query n content = some score) :
    ∃ text, m.create n (m.request query content) = .message text ∧ m.scoreOfText text = score := by
  unfold ScoringModel.scoreRelevance at h
  split at h
  · rename_i text htext
    exact ⟨text, htext, Option.some.inj h⟩
  · cases h
  · cases h

theorem scoreAll_of_messages (hreplies : ∀ n req, ∃ text, m.create n req = .message text)
    (n : Nat) (evidence : List Evidence) : ∃ scored, m.scoreAll query n evidence = some scored := by
  induction evidence generalizing n with
  | nil => exact ⟨[], rfl⟩
  | cons ev evidence ih =>
    obtain ⟨text, htext⟩ := hreplies n (m.request query ev.content)
    obtain ⟨rest, hrest⟩ := ih (n + 1)
    refine ⟨(ev, m.scoreOfText text) :: rest, ?_⟩
    simp only [ScoringModel.scoreAll, ScoringModel.scoreRelevance, htext, hrest]
    rfl

theorem reordered_self (evidence : List Evidence) :
    Reordered evidence (List.range evidence.length) evidence := by
  refine ⟨List.Perm.refl _, List.forall₂_iff_get.mpr ⟨by simp, ?_⟩⟩
  intro i _ hi
  refine ⟨evidence[i], evidence[i].rerankScore, ?_, rfl⟩
  simp

/-- Whatever the answers are, the evidence is only reordered, by scores in the scale. -/
theorem rerank_reorders (hreplies : ∀ n req, ∃ text, m.create n req = .message text)
    (evidence : List Evidence) :
    ∃ out order, m.rerank query evidence = some out ∧ Reordered evidence order out ∧
      (2 ≤ evidence.length → Ranked m query evidence order out) := by
  by_cases hlen : evidence.length ≤ 1
  · refine ⟨evidence, List.range evidence.length, ?_, reordered_self evidence, by omega⟩
    rw [ScoringModel.rerank, if_pos hlen]
  obtain ⟨scored, hscored⟩ : ∃ scored, m.scoreAll query 0 evidence = some scored :=
    scoreAll_of_messages hreplies 0 evidence
  set ranked := scored.zipIdx.insertionSort fun a b => ¬ PyFloat.lt a.1.2.value b.1.2.value
    with hranked
  have hperm : ranked.Perm scored.zipIdx := List.perm_insertionSort _ _
  refine ⟨ranked.map fun a => ScoringModel.rescore a.1, ranked.map Prod.snd, ?_, ⟨?_, ?_⟩,
    fun _ => ⟨?_, ?_, ?_⟩⟩
  · rw [ScoringModel.rerank, if_neg hlen, hscored, Option.map_some, sorted_eq_map_fst, List.map_map]
    rfl
  · have hsnd := hperm.map Prod.snd
    rw [List.zipIdx_map_snd, ← List.range_eq_range'] at hsnd
    rw [← scoreAll_fst hscored, List.length_map]
    exact hsnd
  · rw [List.forall₂_map_left_iff, List.forall₂_map_right_iff, List.forall₂_same]
    intro a ha
    have hget : scored[a.2]? = some a.1 := List.mem_zipIdx_iff_getElem?.mp (hperm.mem_iff.mp ha)
    refine ⟨a.1.1, some a.1.2.value, ?_, rfl⟩
    rw [← scoreAll_fst hscored, List.getElem?_map, hget]
    rfl
  · intro e he
    obtain ⟨a, -, rfl⟩ := List.mem_map.mp he
    exact ⟨a.1.2.value, rfl, a.1.2.one_le, a.1.2.le_five⟩
  · intro placed hplaced
    rw [List.zip_map'] at hplaced
    obtain ⟨a, ha, rfl⟩ := List.mem_map.mp hplaced
    have hget : scored[a.2]? = some a.1 := List.mem_zipIdx_iff_getElem?.mp (hperm.mem_iff.mp ha)
    have hscore := scoreAll_score hscored hget
    rw [Nat.zero_add] at hscore
    obtain ⟨text, htext, hvalue⟩ := exists_message hscore
    refine ⟨a.1.1, text, ?_, htext, ?_⟩
    · rw [← scoreAll_fst hscored, List.getElem?_map, hget]
      rfl
    · rw [hvalue]
      rfl
  · rw [List.zip_map', List.pairwise_map]
    refine (sorted_zipIdx scored).imp ?_
    intro a b hab
    refine ⟨a.1.2.value, b.1.2.value, rfl, rfl, ?_⟩
    rcases hab with hlt | ⟨heq, hpos⟩
    · exact Or.inl ((RelevanceScore.lt_iff_toNat _ _).mpr hlt)
    · exact Or.inr ⟨BitVec.eq_of_toNat_eq heq, hpos⟩

def threeThenNan : ScoringModel where
  model := "gpt-4o-mini"
  create := fun n _ => .message (some (if n = 0 then " 3\n" else "nan out of five"))
  float := fun word =>
    if word = "3".toList then some 0x4008000000000000
    else if word = "nan".toList then some 0x7FF8000000000000
    else none

def passage (id : UUID) : Evidence :=
  { evidenceId := id, sourceId := 1, content := "Ada.".toList, retrievalMethod := .vector
    temporalBounds := absent_bounds }

theorem rerank_reorders_nan :
    ∃ out order, threeThenNan.rerank "Who?".toList [passage 1, passage 2] = some out ∧
      Reordered [passage 1, passage 2] order out ∧
      (2 ≤ [passage 1, passage 2].length →
        Ranked threeThenNan "Who?".toList [passage 1, passage 2] order out) :=
  rerank_reorders (fun _ _ => ⟨_, rfl⟩) [passage 1, passage 2]

variable {cfg : HybridRetrievalConfig}

theorem scoreAll_values
    (hscore : ∀ n content, ∃ s, m.scoreRelevance query n content = some s ∧
      s.value = cfg.scoreRelevance query content)
    (n : Nat) (evidence : List Evidence) :
    ∃ scored, m.scoreAll query n evidence = some scored ∧
      scored.map (Prod.map id RelevanceScore.value) =
        evidence.map fun ev => (ev, cfg.scoreRelevance query ev.content) := by
  induction evidence generalizing n with
  | nil => exact ⟨[], rfl, rfl⟩
  | cons ev evidence ih =>
    obtain ⟨s, hs, hvalue⟩ := hscore n ev.content
    obtain ⟨rest, hrest, hvalues⟩ := ih (n + 1)
    refine ⟨(ev, s) :: rest, ?_, ?_⟩
    · simp only [ScoringModel.scoreAll, hs, hrest]
      rfl
    · rw [List.map_cons, List.map_cons, hvalues, ← hvalue]
      rfl

theorem rerank_eq_service
    (hscore : ∀ n content, ∃ s, m.scoreRelevance query n content = some s ∧
      s.value = cfg.scoreRelevance query content) (evidence : List Evidence) :
    m.rerank query evidence = some (cfg.rerank evidence query) := by
  unfold ScoringModel.rerank HybridRetrievalConfig.rerank
  by_cases hlen : evidence.length ≤ 1
  · rw [if_pos hlen, if_pos hlen]
  obtain ⟨scored, hscored, hvalues⟩ := scoreAll_values hscore 0 evidence
  have hsorted := List.map_insertionSort
    (r := fun a b : Evidence × RelevanceScore => ¬ PyFloat.lt a.2.value b.2.value)
    (s := fun a b : Evidence × PyFloat => b.2.toNat ≤ a.2.toNat)
    (Prod.map id RelevanceScore.value) scored fun a _ b _ => by
      rw [RelevanceScore.lt_iff_toNat, not_lt]
      rfl
  rw [if_neg hlen, if_neg hlen, hscored, Option.map_some, ← hvalues]
  dsimp only
  rw [← hsorted, List.map_map]
  rfl

end

end GroundGraph.Retrieval

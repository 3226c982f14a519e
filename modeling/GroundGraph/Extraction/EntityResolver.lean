import GroundGraph.Library.EditScript
import GroundGraph.Library.PyText
import GroundGraph.Neo4j.Repository
import Mathlib.Algebra.Order.Field.Rat
import Mathlib.Data.List.Infix
import Mathlib.Tactic.Linarith
import Mathlib.Tactic.NormNum

/-! `EntityResolutionService`: `application/extraction/entity_resolver.py`, and the query
`find_entities` that it searches with. Scores are exact rationals.
-/

set_option autoImplicit false

namespace GroundGraph.Extraction

open GroundGraph.Knowledge GroundGraph.Neo4j

/-- `str.lower`, which no text but the empty one is lost by. -/
structure Lowercase where
  lower : List Char → List Char
  lower_eq_nil_iff : ∀ s, lower s = [] ↔ s = []

/-- Without `ORDER BY` the database returns the nodes in any order it likes. -/
structure EntityOrder where
  arrange : List CanonicalEntity → List CanonicalEntity
  perm : ∀ rows, (arrange rows).Perm rows

def findEntitiesLimit : Nat := 100

/-- `$parameter IS NULL OR property = $parameter`. -/
def nullOrEqual (wanted : Option String) (actual : String) : Bool :=
  match wanted with
  | none => true
  | some text => decide (actual = text)

def findEntities (g : Graph) (canonicalName entityType : Option String) (order : EntityOrder) :
    List CanonicalEntity :=
  (order.arrange (g.entities.rows.filter fun e =>
    nullOrEqual canonicalName e.canonicalName && nullOrEqual entityType e.entityType)).take
      findEntitiesLimit

structure EntityResolutionService where
  hasRepository : Bool := true
  fuzzyThreshold : Rat := 85 / 100
  reviewThreshold : Rat := 70 / 100
  readOnly : Bool := false

def minCandidateSimilarity : Rat := 50 / 100

/-- `_levenshtein` from its second call on: `a` is not the shorter one. -/
def levenshteinRows (a b : List Char) : Nat :=
  if b.length = 0 then a.length
  else (EditDistance.lastRow b 0 (List.range (b.length + 1)) a).getLastD 0

def levenshtein (a b : List Char) : Nat :=
  if a.length < b.length then levenshteinRows b a else levenshteinRows a b

def stringSimilarity (L : Lowercase) (a b : List Char) : Rat :=
  let aLower := L.lower a
  let bLower := L.lower b
  if aLower = bLower then 1
  else if aLower <:+: bLower ∨ bLower <:+: aLower then 9 / 10
  else
    let lenMax := max a.length b.length
    if lenMax = 0 then 0 else 1 - (levenshtein aLower bLower : Rat) / (lenMax : Rat)

def CanonicalEntity.names (e : CanonicalEntity) : List (List Char) :=
  e.canonicalName.toList :: e.aliases.map String.toList

/-- The candidates from one entity: one for each of its names that is similar enough. -/
def candidatesOf (L : Lowercase) (surface : List Char) (e : CanonicalEntity) :
    List (CanonicalEntity × Rat) :=
  (CanonicalEntity.names e).filterMap fun name =>
    if minCandidateSimilarity ≤ stringSimilarity L surface name then
      some (e, stringSimilarity L surface name)
    else none

def EntityResolutionService.findCandidates (sv : EntityResolutionService) (L : Lowercase)
    (g : Graph) (order : EntityOrder) (surface : List Char) (candidateType : String) :
    List (CanonicalEntity × Rat) :=
  if sv.hasRepository then
    (findEntities g none (some candidateType) order).flatMap (candidatesOf L surface)
  else []

/-- `max(…, key=…)`: the first of the greatest. -/
def firstMax {α : Type} (key : α → Rat) : α → List α → α
  | best, [] => best
  | best, c :: rest => firstMax key (if key best < key c then c else best) rest

def newEntity (newId : UUID) (name : List Char) (entityType : String) : CanonicalEntity where
  entityId := newId
  entityType := entityType
  canonicalName := String.ofList name
  aliases := [String.ofList name]

/-- `_create_new`; `newId` is the `uuid4()`. -/
def EntityResolutionService.createNew (sv : EntityResolutionService) (g : Graph) (newId : UUID)
    (name : List Char) (entityType : String) : CanonicalEntity × Graph :=
  let entity := newEntity newId name entityType
  (entity, if sv.hasRepository && !sv.readOnly then (createEntity entity).apply g else g)

def EntityResolutionService.resolve (sv : EntityResolutionService) (L : Lowercase) (g : Graph)
    (order : EntityOrder) (newId : UUID) (mention : EntityMention) :
    Option CanonicalEntity × Graph :=
  let surface := PyText.strip mention.surfaceForm.toList
  if surface = [] then (none, g)
  else
    match sv.findCandidates L g order surface mention.candidateType with
    | [] =>
      let new := sv.createNew g newId surface mention.candidateType
      (some new.1, new.2)
    | c :: rest =>
      let best := firstMax Prod.snd c rest
      if sv.fuzzyThreshold ≤ best.2 then (some best.1, g)
      else if sv.reviewThreshold ≤ best.2 then (none, g)
      else
        let new := sv.createNew g newId surface mention.candidateType
        (some new.1, new.2)

theorem levenshteinRows_eq_distance (a b : List Char) :
    levenshteinRows a b = EditDistance.distance a b := by
  unfold levenshteinRows
  split
  · rename_i hnil
    rw [List.eq_nil_of_length_eq_zero hnil, EditDistance.distance_nil_right]
  · rw [EditDistance.getLastD_lastRow, EditDistance.distance_reverse]

theorem levenshtein_eq_distance (a b : List Char) :
    levenshtein a b = EditDistance.distance a b := by
  unfold levenshtein
  split
  · rw [levenshteinRows_eq_distance, EditDistance.distance_comm]
  · exact levenshteinRows_eq_distance a b

theorem levenshtein_pos {a b : List Char} (h : a ≠ b) : 0 < levenshtein a b := by
  rw [levenshtein_eq_distance]
  exact Nat.pos_of_ne_zero fun hzero => h (EditDistance.distance_eq_zero_iff.mp hzero)

/-- A score is one exactly for names that are equal ignoring case, and less otherwise. -/
theorem stringSimilarity_lt_one {L : Lowercase} {a b : List Char} (h : L.lower a ≠ L.lower b) :
    stringSimilarity L a b < 1 := by
  unfold stringSimilarity
  simp only [h, if_false]
  split
  · norm_num
  · split
    · norm_num
    · rename_i hmax
      have hdist : (0 : Rat) < levenshtein (L.lower a) (L.lower b) := by
        exact_mod_cast levenshtein_pos h
      have hlen : (0 : Rat) < (max a.length b.length : Nat) := by
        exact_mod_cast Nat.pos_of_ne_zero hmax
      have hquot := div_pos hdist hlen
      linarith

theorem stringSimilarity_eq_one_iff {L : Lowercase} {a b : List Char} :
    stringSimilarity L a b = 1 ↔ L.lower a = L.lower b := by
  constructor
  · intro h
    by_contra hne
    exact absurd h (ne_of_lt (stringSimilarity_lt_one hne))
  · intro h
    simp [stringSimilarity, h]

theorem stringSimilarity_le_one (L : Lowercase) (a b : List Char) : stringSimilarity L a b ≤ 1 := by
  by_cases h : L.lower a = L.lower b
  · exact le_of_eq (stringSimilarity_eq_one_iff.mpr h)
  · exact le_of_lt (stringSimilarity_lt_one h)

theorem firstMax_mem {α : Type} (key : α → Rat) (best : α) (rest : List α) :
    firstMax key best rest ∈ best :: rest := by
  induction rest generalizing best with
  | nil => exact List.mem_singleton_self _
  | cons c rest ih =>
    rw [firstMax]
    rcases List.mem_cons.mp (ih (if key best < key c then c else best)) with h | h
    · rw [h]
      split
      · exact List.mem_cons_of_mem _ List.mem_cons_self
      · exact List.mem_cons_self
    · exact List.mem_cons_of_mem _ (List.mem_cons_of_mem _ h)

theorem le_firstMax {α : Type} (key : α → Rat) (best : α) (rest : List α) :
    ∀ c ∈ best :: rest, key c ≤ key (firstMax key best rest) := by
  induction rest generalizing best with
  | nil =>
    intro c hc
    rw [List.mem_singleton.mp hc]
    exact le_refl _
  | cons d rest ih =>
    have hhead := ih (if key best < key d then d else best) _ List.mem_cons_self
    intro c hc
    rw [firstMax]
    rcases List.mem_cons.mp hc with rfl | hc
    · refine le_trans ?_ hhead
      split
      · rename_i h
        exact le_of_lt h
      · exact le_refl _
    · rcases List.mem_cons.mp hc with rfl | hc
      · refine le_trans ?_ hhead
        split
        · exact le_refl _
        · rename_i h
          exact not_lt.mp h
      · exact ih _ c (List.mem_cons_of_mem _ hc)

end GroundGraph.Extraction

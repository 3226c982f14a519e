import GroundGraph.Extraction.Resolution
import Mathlib.Order.Lattice

/-! The decision bands of `resolve`, for any thresholds. Names of a similarity below one half are
dropped before the bands are looked at.
-/

set_option autoImplicit false

namespace GroundGraph.Extraction

open GroundGraph.Knowledge GroundGraph.Neo4j

/-- The entities of the type that a service with a repository can find. -/
def EntityResolutionService.entitiesOf (sv : EntityResolutionService) (g : Graph)
    (entityType : String) : List CanonicalEntity :=
  if sv.hasRepository then g.entities.rows.filter fun e => decide (e.entityType = entityType)
  else []

def similarities (L : Lowercase) (surface : List Char) (entities : List CanonicalEntity) :
    List Rat :=
  (entities.flatMap CanonicalEntity.names).map (stringSimilarity L surface)

def maxSimilarity (L : Lowercase) (surface : List Char) (entities : List CanonicalEntity) : Rat :=
  (similarities L surface entities).max?.getD 0

section
variable {L : Lowercase} {surface : List Char} {entities : List CanonicalEntity}

theorem mem_similarities {s : Rat} :
    s ∈ similarities L surface entities ↔
      ∃ e ∈ entities, ∃ name ∈ CanonicalEntity.names e, stringSimilarity L surface name = s := by
  simp only [similarities, List.mem_map, List.mem_flatMap]
  constructor
  · rintro ⟨name, ⟨e, he, hname⟩, rfl⟩
    exact ⟨e, he, name, hname, rfl⟩
  · rintro ⟨e, he, name, hname, rfl⟩
    exact ⟨name, ⟨e, he, hname⟩, rfl⟩

theorem le_maxSimilarity {e : CanonicalEntity} (he : e ∈ entities) {name : List Char}
    (hname : name ∈ CanonicalEntity.names e) :
    stringSimilarity L surface name ≤ maxSimilarity L surface entities := by
  have hmem : stringSimilarity L surface name ∈ similarities L surface entities :=
    mem_similarities.mpr ⟨e, he, name, hname, rfl⟩
  unfold maxSimilarity
  cases hmax : (similarities L surface entities).max? with
  | none =>
    rw [List.max?_eq_none_iff.mp hmax] at hmem
    cases hmem
  | some m => exact (List.max?_eq_some_iff.mp hmax).2 _ hmem

theorem exists_maxSimilarity (L : Lowercase) (surface : List Char) (hne : entities ≠ []) :
    ∃ e ∈ entities, ∃ name ∈ CanonicalEntity.names e,
      stringSimilarity L surface name = maxSimilarity L surface entities := by
  obtain ⟨e, he⟩ := List.exists_mem_of_ne_nil _ hne
  have hmem : stringSimilarity L surface e.canonicalName.toList ∈ similarities L surface entities :=
    mem_similarities.mpr ⟨e, he, _, List.mem_cons_self, rfl⟩
  unfold maxSimilarity
  cases hmax : (similarities L surface entities).max? with
  | none =>
    rw [List.max?_eq_none_iff.mp hmax] at hmem
    cases hmem
  | some m => exact mem_similarities.mp (List.max?_eq_some_iff.mp hmax).1

theorem maxSimilarity_nil : maxSimilarity L surface [] = 0 := rfl

end

section
variable {sv : EntityResolutionService} {L : Lowercase} {g : Graph} {c : ResolveCall}

/-- `resolve` under the thresholds of any service. -/
def ResolveCall.answer (c : ResolveCall) (sv : EntityResolutionService) (L : Lowercase) (g : Graph) :
    Option CanonicalEntity × Graph :=
  sv.resolve L g c.order c.newId c.mention

def ResolveCall.best (c : ResolveCall) (sv : EntityResolutionService) (L : Lowercase) (g : Graph) :
    Rat :=
  maxSimilarity L c.surface (sv.entitiesOf g c.mention.candidateType)

/-- The query returns all entities of the type. -/
def BelowRowCap (g : Graph) (entityType : String) : Prop :=
  (g.entities.rows.filter fun e => decide (e.entityType = entityType)).length ≤ findEntitiesLimit

structure FollowsBands (sv : EntityResolutionService) (L : Lowercase) (g : Graph)
    (c : ResolveCall) : Prop where
  linked : sv.fuzzyThreshold ≤ c.best sv L g →
    ∃ e ∈ sv.entitiesOf g c.mention.candidateType,
      (∃ name ∈ CanonicalEntity.names e, stringSimilarity L c.surface name = c.best sv L g) ∧
        c.answer sv L g = (some e, g)
  reviewed : sv.reviewThreshold ≤ c.best sv L g → c.best sv L g < sv.fuzzyThreshold →
    c.answer sv L g = (none, g)
  created : c.best sv L g < sv.reviewThreshold →
    c.answer sv L g = (some c.created, (sv.createNew g c.newId c.surface c.mention.candidateType).2)

theorem mem_entitiesOf {entityType : String} {e : CanonicalEntity} :
    e ∈ sv.entitiesOf g entityType ↔
      sv.hasRepository = true ∧ e ∈ g.entities.rows ∧ e.entityType = entityType := by
  cases hrepo : sv.hasRepository <;> simp [EntityResolutionService.entitiesOf, hrepo]

theorem mem_candidates_iff (hfew : BelowRowCap g c.mention.candidateType)
    {p : CanonicalEntity × Rat} :
    p ∈ sv.findCandidates L g c.order c.surface c.mention.candidateType ↔
      p.1 ∈ sv.entitiesOf g c.mention.candidateType ∧
        ∃ name ∈ CanonicalEntity.names p.1,
          minCandidateSimilarity ≤ stringSimilarity L c.surface name ∧
            p.2 = stringSimilarity L c.surface name := by
  rw [mem_entitiesOf]
  cases hrepo : sv.hasRepository with
  | false => simp [EntityResolutionService.findCandidates, hrepo]
  | true =>
    rw [mem_findCandidates hrepo]
    constructor
    · rintro ⟨hfound, hname⟩
      exact ⟨⟨rfl, mem_findEntities hfound⟩, hname⟩
    · rintro ⟨⟨_, hmem, htype⟩, hname⟩
      exact ⟨mem_findEntities_of_few hfew hmem htype, hname⟩

theorem candidates_of_half_le (hfew : BelowRowCap g c.mention.candidateType)
    (hhalf : minCandidateSimilarity ≤ c.best sv L g) :
    ∃ p rest, sv.findCandidates L g c.order c.surface c.mention.candidateType = p :: rest ∧
      (firstMax Prod.snd p rest).2 = c.best sv L g ∧
      (firstMax Prod.snd p rest).1 ∈ sv.entitiesOf g c.mention.candidateType ∧
      ∃ name ∈ CanonicalEntity.names (firstMax Prod.snd p rest).1,
        stringSimilarity L c.surface name = c.best sv L g := by
  have hsome : sv.entitiesOf g c.mention.candidateType ≠ [] := by
    intro hnil
    rw [ResolveCall.best, hnil, maxSimilarity_nil] at hhalf
    norm_num [minCandidateSimilarity] at hhalf
  obtain ⟨e, he, name, hname, hscore⟩ := exists_maxSimilarity L c.surface hsome
  have hscore : stringSimilarity L c.surface name = c.best sv L g := hscore
  have hmem : (e, c.best sv L g) ∈
      sv.findCandidates L g c.order c.surface c.mention.candidateType :=
    (mem_candidates_iff hfew).mpr ⟨he, name, hname, hscore ▸ hhalf, hscore.symm⟩
  cases hcandidates : sv.findCandidates L g c.order c.surface c.mention.candidateType with
  | nil =>
    rw [hcandidates] at hmem
    cases hmem
  | cons p rest =>
    have hge := le_firstMax Prod.snd p rest _ (hcandidates ▸ hmem)
    have hbest := firstMax_mem Prod.snd p rest
    rw [← hcandidates] at hbest
    obtain ⟨he', name', hname', _, hscore'⟩ := (mem_candidates_iff hfew).mp hbest
    have hle : stringSimilarity L c.surface name' ≤ c.best sv L g := le_maxSimilarity he' hname'
    have heq : (firstMax Prod.snd p rest).2 = c.best sv L g :=
      le_antisymm (hscore'.trans_le hle) hge
    exact ⟨p, rest, rfl, heq, he', name', hname', hscore'.symm.trans heq⟩

theorem candidates_of_lt_half (hfew : BelowRowCap g c.mention.candidateType)
    (hlow : c.best sv L g < minCandidateSimilarity) :
    sv.findCandidates L g c.order c.surface c.mention.candidateType = [] := by
  rw [List.eq_nil_iff_forall_not_mem]
  intro p hp
  obtain ⟨he, name, hname, hhalf, _⟩ := (mem_candidates_iff hfew).mp hp
  have hle : stringSimilarity L c.surface name ≤ c.best sv L g := le_maxSimilarity he hname
  exact absurd (hhalf.trans hle) (not_le.mpr hlow)

theorem resolve_of_no_candidate {order : EntityOrder} {newId : UUID} {mention : EntityMention}
    (hsurface : PyText.strip mention.surfaceForm.toList ≠ [])
    (hnone : sv.findCandidates L g order (PyText.strip mention.surfaceForm.toList)
      mention.candidateType = []) :
    sv.resolve L g order newId mention =
      (some (newEntity newId (PyText.strip mention.surfaceForm.toList) mention.candidateType),
        (sv.createNew g newId (PyText.strip mention.surfaceForm.toList)
          mention.candidateType).2) := by
  simp only [EntityResolutionService.resolve, if_neg hsurface, hnone]
  rfl

theorem resolve_of_candidates {order : EntityOrder} {newId : UUID} {mention : EntityMention}
    {p : CanonicalEntity × Rat} {rest : List (CanonicalEntity × Rat)}
    (hsurface : PyText.strip mention.surfaceForm.toList ≠ [])
    (hcandidates : sv.findCandidates L g order (PyText.strip mention.surfaceForm.toList)
      mention.candidateType = p :: rest) :
    sv.resolve L g order newId mention =
      if sv.fuzzyThreshold ≤ (firstMax Prod.snd p rest).2 then
        (some (firstMax Prod.snd p rest).1, g)
      else if sv.reviewThreshold ≤ (firstMax Prod.snd p rest).2 then (none, g)
      else (some (newEntity newId (PyText.strip mention.surfaceForm.toList) mention.candidateType),
        (sv.createNew g newId (PyText.strip mention.surfaceForm.toList)
          mention.candidateType).2) := by
  simp only [EntityResolutionService.resolve, if_neg hsurface, hcandidates]
  rfl

theorem answer_of_half_le (hsurface : c.surface ≠ []) (hfew : BelowRowCap g c.mention.candidateType)
    (hhalf : minCandidateSimilarity ≤ c.best sv L g) :
    ∃ e ∈ sv.entitiesOf g c.mention.candidateType,
      (∃ name ∈ CanonicalEntity.names e, stringSimilarity L c.surface name = c.best sv L g) ∧
      c.answer sv L g =
        if sv.fuzzyThreshold ≤ c.best sv L g then (some e, g)
        else if sv.reviewThreshold ≤ c.best sv L g then (none, g)
        else (some c.created,
          (sv.createNew g c.newId c.surface c.mention.candidateType).2) := by
  obtain ⟨p, rest, hcandidates, hscore, he, hname⟩ := candidates_of_half_le hfew hhalf
  refine ⟨_, he, hname, (resolve_of_candidates hsurface hcandidates).trans ?_⟩
  rw [hscore]
  rfl

theorem answer_of_lt_half (hsurface : c.surface ≠ []) (hfew : BelowRowCap g c.mention.candidateType)
    (hlow : c.best sv L g < minCandidateSimilarity) :
    c.answer sv L g =
      (some c.created, (sv.createNew g c.newId c.surface c.mention.candidateType).2) :=
  resolve_of_no_candidate hsurface (candidates_of_lt_half hfew hlow)

/-- The bands are followed unless the best name is above the review threshold and still less than
half similar. -/
theorem followsBands_iff (hthresholds : sv.reviewThreshold ≤ sv.fuzzyThreshold)
    (hsurface : c.surface ≠ []) (hfew : BelowRowCap g c.mention.candidateType)
    (hnew : g.hasEntity c.newId = false) :
    FollowsBands sv L g c ↔
      minCandidateSimilarity ≤ c.best sv L g ∨ c.best sv L g < sv.reviewThreshold := by
  rcases lt_or_ge (c.best sv L g) minCandidateSimilarity with hlow | hhalf
  · have hanswer := answer_of_lt_half hsurface hfew hlow
    rw [or_iff_right (not_le.mpr hlow)]
    constructor
    · intro h
      by_contra hreview
      have hreview := not_lt.mp hreview
      rcases lt_or_ge (c.best sv L g) sv.fuzzyThreshold with hmiddle | hfuzzy
      · have hnone := h.reviewed hreview hmiddle
        rw [hanswer] at hnone
        cases (Prod.mk.inj hnone).1
      · obtain ⟨e, he, _, hlinked⟩ := h.linked hfuzzy
        rw [hanswer] at hlinked
        obtain rfl := Option.some.inj (Prod.mk.inj hlinked).1
        have hget := g.entities.mem_rows_iff.mp (mem_entitiesOf.mp he).2.1
        change g.entities.get? c.newId = some c.created at hget
        rw [Graph.hasEntity, hget] at hnew
        cases hnew
    · intro hcreate
      refine ⟨fun hfuzzy => ?_, fun hreview => absurd hreview (not_le.mpr hcreate), fun _ => hanswer⟩
      exact absurd (hthresholds.trans hfuzzy) (not_le.mpr hcreate)
  · refine iff_of_true ?_ (Or.inl hhalf)
    obtain ⟨e, he, hname, hanswer⟩ := answer_of_half_le hsurface hfew hhalf
    refine ⟨fun hfuzzy => ⟨e, he, hname, ?_⟩, fun hreview hmiddle => ?_, fun hcreate => ?_⟩
    · rw [hanswer, if_pos hfuzzy]
    · rw [hanswer, if_neg (not_le.mpr hmiddle), if_pos hreview]
    · rw [hanswer, if_neg (not_le.mpr (hcreate.trans_le hthresholds)), if_neg (not_le.mpr hcreate)]

end

def lenient : EntityResolutionService := { fuzzyThreshold := 40 / 100, reviewThreshold := 30 / 100 }

def storedAbc : Graph := (createEntity (newEntity 1 "abc".toList "Concept")).apply (.empty [])

def mentionOf (surface : String) : ResolveCall where
  mention :=
    { mentionId := 0
      chunkId := 0
      surfaceForm := surface
      candidateType := "Concept"
      extractionConfidence := half
      confidence_unit := half_unit }
  order := insertionOrder
  newId := 2

theorem followsBands_sample : FollowsBands lenient caseless storedAbc (mentionOf "abd") := by
  refine (followsBands_iff (by norm_num [lenient]) (by decide) (by unfold BelowRowCap; decide)
    (by decide)).mpr (Or.inl ?_)
  decide +kernel

/-- One of three letters is the same. -/
theorem not_followsBands :
    ¬ ∀ (sv : EntityResolutionService) (L : Lowercase) (g : Graph) (c : ResolveCall),
      0 < sv.reviewThreshold → sv.reviewThreshold ≤ sv.fuzzyThreshold → sv.fuzzyThreshold ≤ 1 →
        c.surface ≠ [] → BelowRowCap g c.mention.candidateType → g.hasEntity c.newId = false →
          FollowsBands sv L g c := by
  intro h
  have hbands := h lenient caseless storedAbc (mentionOf "xbz") (by norm_num [lenient])
    (by norm_num [lenient]) (by norm_num [lenient]) (by decide) (by unfold BelowRowCap; decide)
    (by decide)
  have hbest : (mentionOf "xbz").best lenient caseless storedAbc = 1 / 3 := by decide +kernel
  have hnone := hbands.reviewed (by rw [hbest]; norm_num [lenient])
    (by rw [hbest]; norm_num [lenient])
  have hsome : ((mentionOf "xbz").answer lenient caseless storedAbc).1.isSome = true := by
    decide +kernel
  rw [hnone] at hsome
  cases hsome

end GroundGraph.Extraction

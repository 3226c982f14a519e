import GroundGraph.Extraction.EntityResolver
import GroundGraph.Library.LabelledSystem

/-! Runs of `resolve` from an empty graph. An entity that the name belongs to is found exactly
when it is among the rows that the query returns, and the query returns at most a hundred.
-/

set_option autoImplicit false

namespace GroundGraph.Extraction

open GroundGraph.Knowledge GroundGraph.Neo4j

/-- One call: its mention, the order in which the database returns rows, and the `uuid4()`. -/
structure ResolveCall where
  mention : EntityMention
  order : EntityOrder
  newId : UUID

def ResolveCall.surface (c : ResolveCall) : List Char := PyText.strip c.mention.surfaceForm.toList

/-- A call of a service with a repository it may write to and the default thresholds. -/
def ResolveCall.result (L : Lowercase) (g : Graph) (c : ResolveCall) :
    Option CanonicalEntity × Graph :=
  EntityResolutionService.resolve {} L g c.order c.newId c.mention

/-- `uuid4()` draws an id that no entity has. -/
def resolveStep (L : Lowercase) (g : Graph) (c : ResolveCall) : Option Graph :=
  if g.hasEntity c.newId then none else some (c.result L g).2

def resolutionSystem (L : Lowercase) : LabelledSystem Graph ResolveCall where
  start := .empty []
  step := resolveStep L

/-- One of the names of the entity is the surface form, ignoring case. -/
def Named (L : Lowercase) (e : CanonicalEntity) (surface : List Char) : Prop :=
  ∃ name ∈ CanonicalEntity.names e, L.lower surface = L.lower name

def Meant (L : Lowercase) (g : Graph) (c : ResolveCall) (e : CanonicalEntity) : Prop :=
  e ∈ g.entities.rows ∧ e.entityType = c.mention.candidateType ∧ Named L e c.surface

/-- No two entities of one type have one canonical name, ignoring case. -/
def Unduplicated (L : Lowercase) (g : Graph) : Prop :=
  ∀ e ∈ g.entities.rows, ∀ e' ∈ g.entities.rows, e.entityType = e'.entityType →
    L.lower e.canonicalName.toList = L.lower e'.canonicalName.toList → e = e'

/-- A mention that means an entity is resolved to one that it means, and nothing is created. -/
def Resolves (L : Lowercase) (g : Graph) (c : ResolveCall) : Prop :=
  (∃ e, Meant L g c e) → ∃ e, c.result L g = (some e, g) ∧ Meant L g c e

/-- One of the entities that the mention means is among the rows of the query. -/
def Fetched (L : Lowercase) (g : Graph) (c : ResolveCall) : Prop :=
  (∃ e, Meant L g c e) →
    ∃ e ∈ findEntities g none (some c.mention.candidateType) c.order, Named L e c.surface

def NamesNonempty (g : Graph) : Prop :=
  ∀ e ∈ g.entities.rows, ∀ name ∈ CanonicalEntity.names e, name ≠ []

section
variable {L : Lowercase} {g g' : Graph} {c : ResolveCall}

theorem mem_findEntities {entityType : String} {order : EntityOrder} {e : CanonicalEntity}
    (h : e ∈ findEntities g none (some entityType) order) :
    e ∈ g.entities.rows ∧ e.entityType = entityType := by
  have hmem := (order.perm _).mem_iff.mp (List.mem_of_mem_take h)
  simpa [nullOrEqual] using hmem

theorem mem_findEntities_of_few {entityType : String} {order : EntityOrder} {e : CanonicalEntity}
    (hfew : (g.entities.rows.filter fun e => decide (e.entityType = entityType)).length ≤
      findEntitiesLimit)
    (he : e ∈ g.entities.rows) (htype : e.entityType = entityType) :
    e ∈ findEntities g none (some entityType) order := by
  have hperm := order.perm (g.entities.rows.filter fun e => decide (e.entityType = entityType))
  have hall : findEntities g none (some entityType) order =
      order.arrange (g.entities.rows.filter fun e => decide (e.entityType = entityType)) := by
    unfold findEntities
    simp only [nullOrEqual, Bool.true_and]
    exact List.take_of_length_le (by rw [hperm.length_eq]; exact hfew)
  rw [hall, hperm.mem_iff]
  simp [he, htype]

theorem mem_candidatesOf {surface : List Char} {e : CanonicalEntity}
    {p : CanonicalEntity × Rat} :
    p ∈ candidatesOf L surface e ↔
      ∃ name ∈ CanonicalEntity.names e, minCandidateSimilarity ≤ stringSimilarity L surface name ∧
        p = (e, stringSimilarity L surface name) := by
  simp only [candidatesOf, List.mem_filterMap, Option.ite_none_right_eq_some, Option.some.injEq,
    eq_comm (a := p)]

theorem mem_findCandidates {sv : EntityResolutionService} (hsv : sv.hasRepository = true)
    {order : EntityOrder} {surface : List Char} {entityType : String}
    {p : CanonicalEntity × Rat} :
    p ∈ sv.findCandidates L g order surface entityType ↔
      p.1 ∈ findEntities g none (some entityType) order ∧
        ∃ name ∈ CanonicalEntity.names p.1,
          minCandidateSimilarity ≤ stringSimilarity L surface name ∧
            p.2 = stringSimilarity L surface name := by
  simp only [EntityResolutionService.findCandidates, hsv, if_true, List.mem_flatMap,
    mem_candidatesOf]
  constructor
  · rintro ⟨e, he, name, hname, hscore, rfl⟩
    exact ⟨he, name, hname, hscore, rfl⟩
  · rintro ⟨he, name, hname, hscore, hp⟩
    exact ⟨p.1, he, name, hname, hscore, Prod.ext rfl hp⟩

def ResolveCall.created (c : ResolveCall) : CanonicalEntity :=
  newEntity c.newId c.surface c.mention.candidateType

theorem result_of_blank (h : c.surface = []) : c.result L g = (none, g) := if_pos h

theorem result_eq (h : c.surface ≠ []) :
    c.result L g =
      match EntityResolutionService.findCandidates {} L g c.order c.surface
          c.mention.candidateType with
      | [] => (some c.created, (createEntity c.created).apply g)
      | p :: rest =>
        if 85 / 100 ≤ (firstMax Prod.snd p rest).2 then (some (firstMax Prod.snd p rest).1, g)
        else if 70 / 100 ≤ (firstMax Prod.snd p rest).2 then (none, g)
        else (some c.created, (createEntity c.created).apply g) :=
  if_neg h

theorem result_of_fetched (hsurface : c.surface ≠ [])
    (h : ∃ e ∈ findEntities g none (some c.mention.candidateType) c.order, Named L e c.surface) :
    ∃ e ∈ findEntities g none (some c.mention.candidateType) c.order, Named L e c.surface ∧
      c.result L g = (some e, g) := by
  obtain ⟨e, he, name, hname, hlower⟩ := h
  have hone : stringSimilarity L c.surface name = 1 := stringSimilarity_eq_one_iff.mpr hlower
  have hmem : (e, (1 : Rat)) ∈ EntityResolutionService.findCandidates {} L g c.order c.surface
      c.mention.candidateType := by
    refine (mem_findCandidates rfl).mpr ⟨he, name, hname, ?_, hone.symm⟩
    rw [hone]
    norm_num [minCandidateSimilarity]
  cases hcandidates : EntityResolutionService.findCandidates {} L g c.order c.surface
      c.mention.candidateType with
  | nil =>
    rw [hcandidates] at hmem
    cases hmem
  | cons p rest =>
    have hbest := firstMax_mem Prod.snd p rest
    have hle := le_firstMax Prod.snd p rest (e, 1) (hcandidates ▸ hmem)
    generalize hb : firstMax Prod.snd p rest = best at hbest hle
    rw [← hcandidates] at hbest
    obtain ⟨hfetched, name', hname', -, hscore⟩ := (mem_findCandidates rfl).mp hbest
    have hbestone : best.2 = 1 := by
      refine le_antisymm ?_ hle
      rw [hscore]
      exact stringSimilarity_le_one L c.surface name'
    refine ⟨best.1, hfetched, ⟨name', hname', ?_⟩, ?_⟩
    · exact stringSimilarity_eq_one_iff.mp (hscore.symm.trans hbestone)
    · have hfuzzy : (85 / 100 : Rat) ≤ best.2 := by
        rw [hbestone]
        norm_num
      rw [result_eq hsurface, hcandidates]
      simp only [hb, hfuzzy, if_true]

theorem result_of_not_fetched (hsurface : c.surface ≠ [])
    (h : ∀ e ∈ findEntities g none (some c.mention.candidateType) c.order,
      ¬ Named L e c.surface) :
    (∃ r, c.result L g = (r, g) ∧ ∀ e, r = some e → ¬ Named L e c.surface) ∨
      c.result L g = (some c.created, (createEntity c.created).apply g) := by
  rw [result_eq hsurface]
  cases hcandidates : EntityResolutionService.findCandidates {} L g c.order c.surface
      c.mention.candidateType with
  | nil => exact Or.inr rfl
  | cons p rest =>
    have hbest := firstMax_mem Prod.snd p rest
    rw [← hcandidates] at hbest
    have hfetched := ((mem_findCandidates rfl).mp hbest).1
    simp only
    split
    · refine Or.inl ⟨_, rfl, ?_⟩
      rintro e he
      obtain rfl := Option.some.inj he
      exact h _ hfetched
    · split
      · exact Or.inl ⟨none, rfl, nofun⟩
      · exact Or.inr rfl

theorem surface_ne_nil_of_meant (hg : NamesNonempty g) {e : CanonicalEntity}
    (he : Meant L g c e) : c.surface ≠ [] := by
  obtain ⟨hmem, -, name, hname, hlower⟩ := he
  intro hsurface
  rw [hsurface, (L.lower_eq_nil_iff []).mpr rfl] at hlower
  exact hg e hmem name hname ((L.lower_eq_nil_iff name).mp hlower.symm)

theorem get?_created (g : Graph) (c : ResolveCall) :
    ((createEntity c.created).apply g).entities.get? c.newId = some c.created := by
  change (g.entities.upsert c.created).get? c.newId = some c.created
  rw [KeyedTable.get?_upsert]
  exact if_pos rfl

/-- A call whose `uuid4()` is new keeps to the names exactly when the query returns an entity
that the mention means. -/
theorem resolves_iff_fetched (hg : NamesNonempty g) (hnew : g.hasEntity c.newId = false) :
    Resolves L g c ↔ Fetched L g c := by
  constructor
  · rintro h ⟨e, he⟩
    have hsurface := surface_ne_nil_of_meant hg he
    obtain ⟨e', hresult, -, -, hnamed⟩ := h ⟨e, he⟩
    by_contra hnot
    simp only [not_exists, not_and] at hnot
    rcases result_of_not_fetched hsurface hnot with ⟨r, hr, hother⟩ | hcreated
    · rw [hresult] at hr
      exact hother e' (Prod.mk.inj hr).1.symm hnamed
    · have hsame : (createEntity c.created).apply g = g :=
        (Prod.mk.inj (hcreated.symm.trans hresult)).2
      have hget := get?_created g c
      rw [hsame] at hget
      rw [Graph.hasEntity, hget] at hnew
      cases hnew
  · rintro h ⟨e, he⟩
    obtain ⟨e', he', hnamed, hresult⟩ :=
      result_of_fetched (surface_ne_nil_of_meant hg he) (h ⟨e, he⟩)
    obtain ⟨hmem, htype⟩ := mem_findEntities he'
    exact ⟨e', hresult, hmem, htype, hnamed⟩

/-- What a step leaves: the graph as it was, or with an entity that no fetched one is named as. -/
theorem resolveStep_cases (h : resolveStep L g c = some g') :
    g.hasEntity c.newId = false ∧
      (g' = g ∨
        c.surface ≠ [] ∧ g' = (createEntity c.created).apply g ∧
          ∀ e ∈ findEntities g none (some c.mention.candidateType) c.order,
            ¬ Named L e c.surface) := by
  unfold resolveStep at h
  split at h
  · cases h
  · rename_i hnew
    obtain rfl := Option.some.inj h
    refine ⟨by simpa using hnew, ?_⟩
    by_cases hsurface : c.surface = []
    · rw [result_of_blank hsurface]
      exact Or.inl rfl
    · by_cases hfetched : ∃ e ∈ findEntities g none (some c.mention.candidateType) c.order,
        Named L e c.surface
      · obtain ⟨e, -, -, hresult⟩ := result_of_fetched hsurface hfetched
        rw [hresult]
        exact Or.inl rfl
      · simp only [not_exists, not_and] at hfetched
        rcases result_of_not_fetched hsurface hfetched with ⟨r, hr, -⟩ | hcreated
        · rw [hr]
          exact Or.inl rfl
        · rw [hcreated]
          exact Or.inr ⟨hsurface, rfl, hfetched⟩

theorem mem_created_rows (hnew : g.hasEntity c.newId = false) {e : CanonicalEntity} :
    e ∈ ((createEntity c.created).apply g).entities.rows ↔ e ∈ g.entities.rows ∨ e = c.created := by
  constructor
  · exact KeyedTable.mem_upsert
  · rintro (he | rfl)
    · have hne : e.entityId ≠ c.newId := by
        intro hid
        have hget := g.entities.mem_rows_iff.mp he
        rw [hid] at hget
        rw [Graph.hasEntity, hget] at hnew
        cases hnew
      rw [KeyedTable.mem_rows_iff]
      change (g.entities.upsert c.created).get? e.entityId = some e
      rw [KeyedTable.get?_upsert]
      exact (if_neg hne).trans (g.entities.mem_rows_iff.mp he)
    · rw [KeyedTable.mem_rows_iff]
      exact get?_created g c

theorem NamesNonempty.step (hg : NamesNonempty g) (h : resolveStep L g c = some g') :
    NamesNonempty g' := by
  obtain ⟨hnew, rfl | ⟨hsurface, rfl, -⟩⟩ := resolveStep_cases h
  · exact hg
  · intro e he name hname
    rcases (mem_created_rows hnew).mp he with he | rfl
    · exact hg e he name hname
    · have hnames : name = c.surface := by
        simpa [CanonicalEntity.names, ResolveCall.created, newEntity] using hname
      rw [hnames]
      exact hsurface

theorem Unduplicated.step (hg : Unduplicated L g) (hfetched : Fetched L g c)
    (h : resolveStep L g c = some g') : Unduplicated L g' := by
  obtain ⟨hnew, rfl | ⟨-, rfl, hnone⟩⟩ := resolveStep_cases h
  · exact hg
  · -- an old entity with the new one's name would have been meant, so fetched
    have hother : ∀ e ∈ g.entities.rows, e.entityType = c.created.entityType →
        L.lower e.canonicalName.toList ≠ L.lower c.created.canonicalName.toList := by
      intro e he htype hlower
      have hnamed : Named L e c.surface := by
        refine ⟨e.canonicalName.toList, List.mem_cons_self, ?_⟩
        simpa [ResolveCall.created, newEntity] using hlower.symm
      obtain ⟨e', he', hnamed'⟩ := hfetched ⟨e, he, htype, hnamed⟩
      exact hnone e' he' hnamed'
    intro e he e' he' htype hlower
    rcases (mem_created_rows hnew).mp he with he | rfl
    · rcases (mem_created_rows hnew).mp he' with he' | rfl
      · exact hg e he e' he' htype hlower
      · exact absurd hlower (hother e he htype)
    · rcases (mem_created_rows hnew).mp he' with he' | rfl
      · exact absurd hlower.symm (hother e' he' htype.symm)
      · rfl

theorem resolves_along_iff {t : Graph} {as : List ResolveCall} (hg : NamesNonempty g)
    (hu : Unduplicated L g) (h : (resolutionSystem L).run g as = some t) :
    ((∀ g' ∈ (resolutionSystem L).states g as, Unduplicated L g') ∧
      (resolutionSystem L).Along (Resolves L) g as) ↔
        (resolutionSystem L).Along (Fetched L) g as := by
  induction as generalizing g with
  | nil => simp [LabelledSystem.states, LabelledSystem.Along, hu]
  | cons c as ih =>
    obtain ⟨m, hm, hrest⟩ := (resolutionSystem L).run_cons_iff.mp h
    have hstep : resolveStep L g c = some m := hm
    have hiff := resolves_iff_fetched hg (resolveStep_cases hstep).1 (L := L)
    have hih : Fetched L g c → (((∀ g' ∈ (resolutionSystem L).states m as, Unduplicated L g') ∧
        (resolutionSystem L).Along (Resolves L) m as) ↔
          (resolutionSystem L).Along (Fetched L) m as) :=
      fun hfetched => ih (hg.step hstep) (hu.step hfetched hstep) hrest
    simp only [LabelledSystem.states, LabelledSystem.Along, hm, List.mem_cons, forall_eq_or_imp, hu,
      true_and, Option.some.injEq, forall_eq', hiff]
    constructor
    · rintro ⟨hall, hfetched, halong⟩
      exact ⟨hfetched, (hih hfetched).mp ⟨hall, halong⟩⟩
    · rintro ⟨hfetched, halong⟩
      obtain ⟨hall, hresolves⟩ := (hih hfetched).mpr halong
      exact ⟨hall, hfetched, hresolves⟩

/-- In a run from the empty graph no name is given twice and every mention that means an entity
is resolved to one, exactly when each call's query returns an entity that the mention means
whenever there is one. -/
theorem no_duplicates_iff {as : List ResolveCall} {t : Graph}
    (h : (resolutionSystem L).run (.empty []) as = some t) :
    ((∀ g ∈ (resolutionSystem L).states (.empty []) as, Unduplicated L g) ∧
      (resolutionSystem L).Along (Resolves L) (.empty []) as) ↔
        (resolutionSystem L).Along (Fetched L) (.empty []) as :=
  resolves_along_iff (List.forall_mem_nil _) (List.forall_mem_nil _) h

theorem fetched_of_few
    (hfew : (g.entities.rows.filter fun e =>
      decide (e.entityType = c.mention.candidateType)).length ≤ findEntitiesLimit) :
    Fetched L g c := by
  rintro ⟨e, he, htype, hnamed⟩
  exact ⟨e, mem_findEntities_of_few hfew he htype, hnamed⟩

end

/-! Entities named by one character each, which has no case. -/

def caseless : Lowercase := ⟨id, fun _ => Iff.rfl⟩

def charEntity (p : Char × UUID) : CanonicalEntity := newEntity p.2 [p.1] "Concept"

def insertionOrder : EntityOrder := ⟨id, fun _ => .refl _⟩

def newestFirst : EntityOrder := ⟨List.reverse, List.reverse_perm⟩

def charCall (order : EntityOrder) (p : Char × UUID) : ResolveCall where
  mention :=
    { mentionId := 0
      chunkId := 0
      surfaceForm := String.ofList [p.1]
      candidateType := "Concept"
      extractionConfidence := half
      confidence_unit := half_unit }
  order := order
  newId := p.2

theorem similarity_of_chars {x y : Char} (h : x ≠ y) :
    stringSimilarity caseless [x] [y] = 0 := by
  have hinfix : ∀ a b : Char, a ≠ b → ¬ [a] <:+: [b] := by
    intro a b hne hab
    exact hne (List.singleton_inj.mp (hab.eq_of_length rfl))
  simp [stringSimilarity, caseless, h, hinfix x y h, hinfix y x h.symm, levenshtein,
    levenshteinRows, EditDistance.lastRow, EditDistance.nextCells, EditDistance.substitution,
    List.range_succ]

theorem surface_charCall {order : EntityOrder} {p : Char × UUID}
    (hspace : PyText.isSpace p.1 = false) : (charCall order p).surface = [p.1] := by
  simp [ResolveCall.surface, charCall, PyText.strip, PyText.lstrip, PyText.rstrip, hspace,
    List.rdropWhile]

/-- A character that no fetched entity is named by gets a new entity. -/
theorem step_charCall {g : Graph} {order : EntityOrder} {p : Char × UUID}
    (hspace : PyText.isSpace p.1 = false) (hnew : g.hasEntity p.2 = false)
    (hother : ∀ e ∈ findEntities g none (some "Concept") order,
      ∃ q : Char × UUID, q.1 ≠ p.1 ∧ e = charEntity q) :
    resolveStep caseless g (charCall order p) = some ((createEntity (charEntity p)).apply g) := by
  have hsurface : (charCall order p).surface = [p.1] := surface_charCall hspace
  have hnone : EntityResolutionService.findCandidates {} caseless g order [p.1] "Concept" = [] := by
    refine List.eq_nil_iff_forall_not_mem.mpr fun c hc => ?_
    obtain ⟨hfetched, name, hname, hscore, -⟩ := (mem_findCandidates rfl).mp hc
    obtain ⟨q, hne, hq⟩ := hother _ hfetched
    have hname' : name = [q.1] := by
      simpa [hq, charEntity, newEntity, CanonicalEntity.names] using hname
    rw [hname', similarity_of_chars hne.symm] at hscore
    norm_num [minCandidateSimilarity] at hscore
  have hresult : (charCall order p).result caseless g =
      (some (charCall order p).created, (createEntity (charCall order p).created).apply g) := by
    rw [result_eq (by simp [hsurface]), hsurface]
    change (match EntityResolutionService.findCandidates {} caseless g order [p.1] "Concept" with
      | [] => _
      | q :: rest => _) = _
    rw [hnone]
  have hcreated : (charCall order p).created = charEntity p := by
    rw [ResolveCall.created, hsurface]
    rfl
  have hfresh : g.hasEntity (charCall order p).newId = false := hnew
  unfold resolveStep
  rw [hfresh, hresult, hcreated]
  rfl

theorem rows_charEntity {g : Graph} {p : Char × UUID} (hnew : g.hasEntity p.2 = false) :
    ((createEntity (charEntity p)).apply g).entities.rows = g.entities.rows ++ [charEntity p] := by
  have hget : g.entities.get? p.2 = none := by simpa [Graph.hasEntity] using hnew
  have hkey : (charEntity p).entityId ∉ g.entities.rows.map CanonicalEntity.entityId :=
    g.entities.get?_none_iff.mp hget
  change (g.entities.upsert (charEntity p)).rows = _
  rw [KeyedTable.upsert, dif_neg hkey, KeyedTable.rows_append]

theorem hasEntity_false_of_rows {g : Graph} {ps : List (Char × UUID)} {p : Char × UUID}
    (hrows : g.entities.rows = ps.map charEntity) (hid : p.2 ∉ ps.map Prod.snd) :
    g.hasEntity p.2 = false := by
  have hkey : p.2 ∉ g.entities.rows.map CanonicalEntity.entityId := by
    rw [hrows, List.map_map]
    exact hid
  rw [Graph.hasEntity, g.entities.get?_none_iff.mpr hkey, Option.isSome_none]

/-- Different characters get an entity each. -/
theorem run_charCalls {g : Graph} {done ps : List (Char × UUID)}
    (hrows : g.entities.rows = done.map charEntity)
    (hchars : ((done ++ ps).map Prod.fst).Nodup) (hids : ((done ++ ps).map Prod.snd).Nodup)
    (hspace : ∀ p ∈ ps, PyText.isSpace p.1 = false) :
    ∃ t, (resolutionSystem caseless).run g (ps.map (charCall insertionOrder)) = some t ∧
      t.entities.rows = (done ++ ps).map charEntity := by
  induction ps generalizing g done with
  | nil => exact ⟨g, rfl, by rw [hrows, List.append_nil]⟩
  | cons p ps ih =>
    have hsplit : done ++ p :: ps = (done ++ [p]) ++ ps := by simp
    have hfresh : ∀ {β : Type} (f : Char × UUID → β), ((done ++ p :: ps).map f).Nodup →
        f p ∉ done.map f := by
      intro β f hnodup hmem
      rw [List.map_append, List.map_cons] at hnodup
      exact List.disjoint_of_nodup_append hnodup hmem List.mem_cons_self
    have hnew := hasEntity_false_of_rows hrows (hfresh Prod.snd hids)
    have hstep : resolveStep caseless g (charCall insertionOrder p) =
        some ((createEntity (charEntity p)).apply g) := by
      refine step_charCall (hspace p List.mem_cons_self) hnew fun e he => ?_
      obtain ⟨q, hq, rfl⟩ := List.mem_map.mp (hrows ▸ (mem_findEntities he).1)
      refine ⟨q, fun heq => ?_, rfl⟩
      exact hfresh Prod.fst hchars (heq ▸ List.mem_map_of_mem hq)
    have hrows' := rows_charEntity hnew
    rw [hrows, ← List.map_singleton, ← List.map_append] at hrows'
    rw [hsplit] at hchars hids
    obtain ⟨t, ht, htrows⟩ := ih hrows' hchars hids fun q hq => hspace q (List.mem_cons_of_mem _ hq)
    refine ⟨t, ?_, by rw [htrows, hsplit]⟩
    rw [List.map_cons]
    exact (resolutionSystem caseless).run_cons_iff.mpr ⟨_, hstep, ht⟩

/-- Each resolved once: a character of its own and an id of its own. -/
def manyNames : List (Char × UUID) :=
  (List.range 101).map fun i => (Char.ofNat (0x4E00 + i), BitVec.ofNat 128 i)

/-- The first of them again, when the database returns the newest nodes first. -/
def firstAgain : ResolveCall := charCall newestFirst (Char.ofNat 0x4E00, 101)

theorem manyNames_chars : (manyNames.map Prod.fst).Nodup := by decide +kernel

theorem manyNames_ids : (manyNames.map Prod.snd).Nodup := by decide +kernel

theorem manyNames_space : ∀ p ∈ manyNames, PyText.isSpace p.1 = false := by decide +kernel

theorem run_manyNames : ∃ t, (resolutionSystem caseless).run (.empty [])
    (manyNames.map (charCall insertionOrder)) = some t ∧
      t.entities.rows = manyNames.map charEntity :=
  @run_charCalls (.empty []) [] manyNames rfl manyNames_chars manyNames_ids manyNames_space

/-- A hundred and one names, each resolved once. -/
theorem no_duplicates_iff_manyNames :
    ((∀ g ∈ (resolutionSystem caseless).states (.empty [])
        (manyNames.map (charCall insertionOrder)), Unduplicated caseless g) ∧
      (resolutionSystem caseless).Along (Resolves caseless) (.empty [])
        (manyNames.map (charCall insertionOrder))) ↔
      (resolutionSystem caseless).Along (Fetched caseless) (.empty [])
        (manyNames.map (charCall insertionOrder)) := by
  obtain ⟨t, ht, -⟩ := run_manyNames
  exact no_duplicates_iff ht

theorem newest_fetched {g : Graph} {p : Char × UUID} {ps : List (Char × UUID)}
    (hrows : g.entities.rows = (p :: ps).map charEntity) (hlength : ps.length = 100) :
    findEntities g none (some "Concept") newestFirst = (ps.map charEntity).reverse := by
  have hall : (g.entities.rows.filter fun e =>
      nullOrEqual none e.canonicalName && nullOrEqual (some "Concept") e.entityType) =
        g.entities.rows := by
    refine List.filter_eq_self.mpr fun e he => ?_
    obtain ⟨q, -, rfl⟩ := List.mem_map.mp (hrows ▸ he)
    rfl
  rw [findEntities, hall, hrows, List.map_cons]
  change ((charEntity p :: ps.map charEntity).reverse).take findEntitiesLimit = _
  rw [List.reverse_cons]
  exact List.take_left' (by simp [hlength, findEntitiesLimit])

/-- The hundred and second call gives the first name once more. -/
theorem not_no_duplicates : ¬ ∀ (L : Lowercase) (as : List ResolveCall) (t : Graph),
    (resolutionSystem L).run (.empty []) as = some t →
    (∀ g ∈ (resolutionSystem L).states (.empty []) as, Unduplicated L g) ∧
      (resolutionSystem L).Along (Resolves L) (.empty []) as := by
  intro h
  obtain ⟨t, ht, hrows⟩ := run_manyNames
  obtain ⟨ps, hps⟩ : ∃ ps, manyNames = (Char.ofNat 0x4E00, 0) :: ps := ⟨_, rfl⟩
  have hlength : ps.length = 100 := by
    have hall : manyNames.length = 101 := by decide
    rw [hps] at hall
    exact Nat.succ.inj hall
  have hnew : t.hasEntity (101 : UUID) = false :=
    hasEntity_false_of_rows (p := (Char.ofNat 0x4E00, 101)) hrows (by decide +kernel)
  have hstep : resolveStep caseless t firstAgain =
      some ((createEntity (charEntity (Char.ofNat 0x4E00, 101))).apply t) := by
    refine step_charCall (by decide) hnew fun e he => ?_
    rw [hps] at hrows
    rw [newest_fetched hrows hlength, List.mem_reverse] at he
    obtain ⟨q, hq, rfl⟩ := List.mem_map.mp he
    refine ⟨q, fun heq => ?_, rfl⟩
    have hchars := manyNames_chars
    rw [hps, List.map_cons, List.nodup_cons] at hchars
    exact hchars.1 (heq ▸ List.mem_map_of_mem hq)
  have hrun := (resolutionSystem caseless).run_append_iff.mpr
    ⟨t, ht, (resolutionSystem caseless).run_single hstep⟩
  have hdistinct := (h caseless _ _ hrun).1 _ ((resolutionSystem caseless).mem_states_of_run hrun)
  have hmem := rows_charEntity (p := (Char.ofNat 0x4E00, 101)) hnew
  have hsame := hdistinct (charEntity (Char.ofNat 0x4E00, 0)) (by rw [hmem, hrows, hps]; simp)
    (charEntity (Char.ofNat 0x4E00, 101)) (by rw [hmem]; simp) rfl rfl
  exact absurd (congrArg CanonicalEntity.entityId hsame) (by decide)

end GroundGraph.Extraction

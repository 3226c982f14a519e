import GroundGraph.Library.OptionalBounds
import GroundGraph.Retrieval.HybridEntries
import Mathlib.Order.OrderDual

/-! Graph evidence in the fusion. An entry is that of a chunk, or it is merged from the pieces of
evidence with one id. The merged interval starts at the earliest start and ends at the latest
end that are there; where a bound is absent from one piece and not from another it is narrower
than the piece without it, and it may be empty.
-/

set_option autoImplicit false

namespace GroundGraph.Retrieval

open OptionalBounds OrderDual

def NoClash (chunks : List RetrievedChunk) (graphEvidence : List Evidence) : Prop :=
  ∀ ev ∈ graphEvidence, ∀ c ∈ chunks, c.chunkId ≠ ev.evidenceId

def scoreTable (uuid4 : Nat → UUID) (order : SetOrder)
    (vectorResults keywordResults : List RetrievedChunk) (graphEvidence : List Evidence) :
    Except FusionError HybridTable :=
  (ranked graphEvidence).foldlM (addGraphEvidence order)
    (chunkTable uuid4 vectorResults keywordResults)

/-- `_merge_temporal` on an entry that has a graph score. -/
def mergeInto (order : SetOrder) (e : HybridEntry) (r : Evidence × Nat) : HybridEntry :=
  { e with
    rrfScore := e.rrfScore + graphScoreAt r.2
    graphScore := e.graphScore.map fun score => score + graphScoreAt r.2
    graphPathFactIds := order.arrange (e.graphPathFactIds ++ r.1.graphPathFactIds).dedup
    validFrom := earlier r.1.validFrom e.validFrom
    validTo := later r.1.validTo e.validTo }

def piecesOf (id : UUID) (gs : List (Evidence × Nat)) : List (Evidence × Nat) :=
  gs.filter fun r => decide (r.1.evidenceId = id)

def mergedEntry (order : SetOrder) (pieces : List (Evidence × Nat)) : Option HybridEntry :=
  match pieces with
  | [] => none
  | r :: rs => some (rs.foldl (mergeInto order) (graphEntry r.1 r.2))

def graphSum (pieces : List (Evidence × Nat)) : Rat :=
  (pieces.map fun r => graphScoreAt r.2).sum

structure MergedFrom (pieces : List (Evidence × Nat)) (e : HybridEntry) : Prop where
  first : ∃ r, pieces.head? = some r ∧ e.key = r.1.evidenceId ∧ e.evidenceId = r.1.evidenceId ∧
    e.sourceId = r.1.sourceId ∧ e.chunkId = none
  graphScore : e.graphScore = some (graphSum pieces)
  rrfScore : e.rrfScore = graphSum pieces
  validFrom : LeastOf (pieces.map fun r => r.1.validFrom) e.validFrom
  validTo : LeastOf (pieces.map fun r => r.1.validTo.map toDual) (e.validTo.map toDual)

theorem earlier_eq_outer (a b : Option Instant) : earlier a b = outer a b := by
  cases a <;> cases b <;> rfl

theorem later_eq_outer (a b : Option Instant) :
    (later a b).map toDual = outer (a.map toDual) (b.map toDual) := by
  cases a with
  | none => cases b <;> rfl
  | some x =>
    cases b with
    | none => rfl
    | some y => exact apply_ite (Option.map toDual) _ _ _

section
variable {order : SetOrder} {pieces : List (Evidence × Nat)} {e : HybridEntry}

theorem MergedFrom.start (r : Evidence × Nat) : MergedFrom [r] (graphEntry r.1 r.2) := by
  have hsum : graphSum [r] = graphScoreAt r.2 := List.sum_singleton
  refine ⟨⟨r, rfl, rfl, rfl, rfl, rfl⟩, ?_, ?_, LeastOf.singleton _, LeastOf.singleton _⟩
  · rw [hsum]
    rfl
  · rw [hsum]
    rfl

theorem MergedFrom.mergeInto (h : MergedFrom pieces e) (r : Evidence × Nat) :
    MergedFrom (pieces ++ [r]) (mergeInto order e r) := by
  have hsum : graphSum (pieces ++ [r]) = graphSum pieces + graphScoreAt r.2 := by
    unfold graphSum
    rw [List.map_append, List.sum_append, List.map_singleton, List.sum_singleton]
  obtain ⟨first, hfirst, hfields⟩ := h.first
  refine ⟨⟨first, ?_, hfields⟩, ?_, ?_, ?_, ?_⟩
  · rw [List.head?_append, hfirst, Option.some_or]
  · change e.graphScore.map _ = _
    rw [h.graphScore, hsum]
    rfl
  · change e.rrfScore + _ = _
    rw [h.rrfScore, hsum]
  · change LeastOf _ (earlier _ _)
    rw [List.map_append, earlier_eq_outer]
    exact h.validFrom.outer r.1.validFrom
  · change LeastOf _ ((later _ _).map _)
    rw [List.map_append, later_eq_outer]
    exact h.validTo.outer (r.1.validTo.map toDual)

theorem mergedFrom_of_mergedEntry (h : mergedEntry order pieces = some e) : MergedFrom pieces e := by
  cases pieces with
  | nil => cases h
  | cons r rs =>
    obtain rfl := Option.some.inj h
    induction rs using List.reverseRecOn with
    | nil => exact MergedFrom.start r
    | append_singleton rs r' ih =>
      rw [List.foldl_concat, ← List.cons_append]
      exact (ih rfl).mergeInto r'

theorem mergedEntry_concat (r : Evidence × Nat) :
    mergedEntry order (pieces ++ [r]) =
      some (((mergedEntry order pieces).map fun e => Retrieval.mergeInto order e r).getD
        (graphEntry r.1 r.2)) := by
  cases pieces with
  | nil => rfl
  | cons r' rs => exact congrArg some (List.foldl_concat _ _ _ _)

theorem mergeTemporal_eq {score : Rat} (h : e.graphScore = some score) (r : Evidence × Nat) :
    mergeTemporal order e r.1 r.2 = .ok (Retrieval.mergeInto order e r) := by
  unfold mergeTemporal Retrieval.mergeInto
  rw [h]
  rfl

end

theorem piecesOf_concat (id : UUID) (gs : List (Evidence × Nat)) (r : Evidence × Nat) :
    piecesOf id (gs ++ [r]) = piecesOf id gs ++ if r.1.evidenceId = id then [r] else [] := by
  unfold piecesOf
  rw [List.filter_append]
  by_cases hid : r.1.evidenceId = id
  · rw [if_pos hid, List.filter_cons_of_pos (by simpa using hid), List.filter_nil]
  · rw [if_neg hid, List.filter_cons_of_neg (by simpa using hid), List.filter_nil]

section
variable {order : SetOrder} {t t' : HybridTable} {gs : List (Evidence × Nat)} {r : Evidence × Nat}

/-- The entries of `t`, and those merged from the pieces of evidence. -/
def Merges (order : SetOrder) (t : HybridTable) (gs : List (Evidence × Nat)) (t' : HybridTable) :
    Prop :=
  ∀ k, t'.get? k = (t.get? k).or (mergedEntry order (piecesOf k gs))

/-- The id of a chunk: the entry has no graph score to add to. -/
theorem addGraphEvidence_chunk (h : Merges order t gs t') {e : HybridEntry}
    (hget : t.get? r.1.evidenceId = some e) (hscore : e.graphScore = none) :
    addGraphEvidence order t' r = .error .typeError := by
  have hget' : t'.get? r.1.evidenceId = some e := by
    rw [h, hget, Option.some_or]
  unfold addGraphEvidence mergeTemporal
  simp only [hget', hscore]
  rfl

theorem addGraphEvidence_other (h : Merges order t gs t') (hget : t.get? r.1.evidenceId = none) :
    ∃ t'', addGraphEvidence order t' r = .ok t'' ∧ Merges order t (gs ++ [r]) t'' := by
  have hget' : t'.get? r.1.evidenceId = mergedEntry order (piecesOf r.1.evidenceId gs) := by
    rw [h, hget, Option.none_or]
  have hpieces : mergedEntry order (piecesOf r.1.evidenceId (gs ++ [r])) =
      some (((t'.get? r.1.evidenceId).map fun e => mergeInto order e r).getD
        (graphEntry r.1 r.2)) := by
    rw [piecesOf_concat, if_pos rfl, mergedEntry_concat, hget']
  have hupsert : ∀ e : HybridEntry, e.key = r.1.evidenceId →
      mergedEntry order (piecesOf r.1.evidenceId (gs ++ [r])) = some e →
      Merges order t (gs ++ [r]) (t'.upsert e) := by
    intro e hkey hentry k
    rw [KeyedTable.get?_upsert, hkey]
    split
    · rename_i hk
      rw [hk, hget, Option.none_or, hentry]
    · rename_i hk
      rw [h, piecesOf_concat, if_neg (Ne.symm hk), List.append_nil]
  unfold addGraphEvidence
  cases hold : t'.get? r.1.evidenceId with
  | none =>
    rw [hold] at hpieces
    exact ⟨_, rfl, hupsert _ rfl hpieces⟩
  | some e =>
    rw [hold] at hpieces hget'
    have hmerged := mergedFrom_of_mergedEntry hget'.symm
    have hkey : (mergeInto order e r).key = r.1.evidenceId := (t'.get?_some_iff.mp hold).2
    simp only [mergeTemporal_eq hmerged.graphScore]
    exact ⟨_, rfl, hupsert _ hkey hpieces⟩

theorem foldlM_addGraphEvidence (order : SetOrder)
    (hchunks : ∀ k e, t.get? k = some e → e.graphScore = none) (gs : List (Evidence × Nat)) :
    match gs.foldlM (addGraphEvidence order) t with
    | .ok t' => (∀ r ∈ gs, t.get? r.1.evidenceId = none) ∧ Merges order t gs t'
    | .error err => err = .typeError ∧ ∃ r ∈ gs, t.get? r.1.evidenceId ≠ none := by
  induction gs using List.reverseRecOn with
  | nil => exact ⟨List.forall_mem_nil _, fun k => (Option.or_none).symm⟩
  | append_singleton gs r ih =>
    rw [List.foldlM_append]
    cases hfold : gs.foldlM (addGraphEvidence order) t with
    | error err =>
      rw [hfold] at ih
      obtain ⟨rfl, r', hr', hne⟩ := ih
      exact ⟨rfl, r', List.mem_append_left _ hr', hne⟩
    | ok t' =>
      rw [hfold] at ih
      obtain ⟨hnone, hmerges⟩ := ih
      have hone : (Except.ok t' >>= fun t' => [r].foldlM (addGraphEvidence order) t') =
          addGraphEvidence order t' r := by
        change ([r].foldlM (addGraphEvidence order) t') = _
        rw [List.foldlM_cons]
        cases addGraphEvidence order t' r <;> rfl
      rw [hone]
      cases hget : t.get? r.1.evidenceId with
      | some e =>
        rw [addGraphEvidence_chunk hmerges hget (hchunks _ _ hget)]
        exact ⟨rfl, r, by simp, by simp [hget]⟩
      | none =>
        obtain ⟨t'', hadd, hmerges'⟩ := addGraphEvidence_other hmerges hget
        rw [hadd]
        refine ⟨?_, hmerges'⟩
        intro r' hr'
        rcases List.mem_append.mp hr' with hold | hnew
        · exact hnone r' hold
        · rw [List.mem_singleton.mp hnew]
          exact hget

end

section
variable {uuid4 : Nat → UUID} {order : SetOrder} {vectorResults keywordResults : List RetrievedChunk}
  {graphEvidence : List Evidence}

/-- The loops raise exactly where a piece of evidence has the id of a chunk. -/
theorem scoreTable_spec :
    match scoreTable uuid4 order vectorResults keywordResults graphEvidence with
    | .ok t => NoClash (vectorResults ++ keywordResults) graphEvidence ∧
        Merges order (chunkTable uuid4 vectorResults keywordResults) (ranked graphEvidence) t
    | .error err => err = .typeError ∧ ¬ NoClash (vectorResults ++ keywordResults) graphEvidence := by
  have hloop := foldlM_addGraphEvidence order
    (fun _ _ => @graphScore_of_get?_chunkTable uuid4 vectorResults keywordResults _ _)
    (ranked graphEvidence)
  have hclash : (∀ r ∈ ranked graphEvidence,
      (chunkTable uuid4 vectorResults keywordResults).get? r.1.evidenceId = none) ↔
        NoClash (vectorResults ++ keywordResults) graphEvidence := by
    simp only [get?_chunkTable_none_iff]
    exact @forall_mem_ranked _ graphEvidence fun ev =>
      ∀ c ∈ vectorResults ++ keywordResults, c.chunkId ≠ ev.evidenceId
  unfold scoreTable
  cases hfold : (ranked graphEvidence).foldlM (addGraphEvidence order)
      (chunkTable uuid4 vectorResults keywordResults) with
  | ok t =>
    rw [hfold] at hloop
    exact ⟨hclash.mp hloop.1, hloop.2⟩
  | error err =>
    rw [hfold] at hloop
    obtain ⟨herr, r, hr, hne⟩ := hloop
    exact ⟨herr, fun hno => hne (hclash.mpr hno r hr)⟩

def SameBounds (graphEvidence : List Evidence) : Prop :=
  ∀ ev ∈ graphEvidence, ∀ ev' ∈ graphEvidence, ev.evidenceId = ev'.evidenceId →
    ev.validFrom.isSome = ev'.validFrom.isSome ∧ ev.validTo.isSome = ev'.validTo.isSome

/-- The interval of an entry contains that of a piece of evidence; an absent bound is none. -/
structure Spans (e : HybridEntry) (ev : Evidence) : Prop where
  start : ∀ x, e.validFrom = some x → ∃ y, ev.validFrom = some y ∧ x ≤ y
  stop : ∀ x, e.validTo = some x → ∃ y, ev.validTo = some y ∧ y ≤ x

theorem spans_iff {e : HybridEntry} {ev : Evidence} :
    Spans e ev ↔ Reaches e.validFrom ev.validFrom ∧
      Reaches (e.validTo.map toDual) (ev.validTo.map toDual) := by
  have hstop : Reaches (e.validTo.map toDual) (ev.validTo.map toDual) ↔
      ∀ x, e.validTo = some x → ∃ y, ev.validTo = some y ∧ y ≤ x := by
    constructor
    · intro h x hx
      obtain ⟨_, hdual, hle⟩ := h (toDual x) (congrArg (Option.map toDual) hx)
      obtain ⟨y, hy, rfl⟩ := Option.map_eq_some_iff.mp hdual
      exact ⟨y, hy, hle⟩
    · intro h _ hdual
      obtain ⟨x, hx, rfl⟩ := Option.map_eq_some_iff.mp hdual
      obtain ⟨y, hy, hle⟩ := h x hx
      exact ⟨toDual y, congrArg (Option.map toDual) hy, hle⟩
  rw [hstop]
  exact ⟨fun h => ⟨h.start, h.stop⟩, fun h => ⟨h.1, h.2⟩⟩

theorem MergedFrom.spans_iff {pieces : List (Evidence × Nat)} {e : HybridEntry}
    (h : MergedFrom pieces e) :
    (∀ r ∈ pieces, Spans e r.1) ↔ ∀ r ∈ pieces, ∀ r' ∈ pieces,
      r.1.validFrom.isSome = r'.1.validFrom.isSome ∧ r.1.validTo.isSome = r'.1.validTo.isSome := by
  have hfrom := h.validFrom.reaches_iff
  have hto := h.validTo.reaches_iff
  simp only [List.forall_mem_map, Option.isSome_map] at hfrom hto
  simp only [Retrieval.spans_iff]
  rw [forall₂_and, hfrom, hto]
  simp only [forall_and]

theorem MergedFrom.bounded {pieces : List (Evidence × Nat)} {e : HybridEntry}
    (h : MergedFrom pieces e) (hspans : ∀ r ∈ pieces, Spans e r.1) :
    ∀ f t, e.validFrom = some f → e.validTo = some t → f < t := by
  intro f t hf ht
  have hleast : some f ∈ pieces.map fun r => r.1.validFrom := (h.validFrom.least f hf).1
  obtain ⟨r, hr, hrf⟩ := List.mem_map.mp hleast
  obtain ⟨y, hy, hle⟩ := (hspans r hr).stop t ht
  exact (r.1.temporalBounds f y hrf hy).trans_le hle

theorem mem_piecesOf {id : UUID} {gs : List (Evidence × Nat)} {r : Evidence × Nat} :
    r ∈ piecesOf id gs ↔ r ∈ gs ∧ r.1.evidenceId = id := by
  unfold piecesOf
  rw [List.mem_filter, decide_eq_true_eq]

theorem Merges.cases {t : HybridTable} {gs : List (Evidence × Nat)}
    (h : Merges order (chunkTable uuid4 vectorResults keywordResults) gs t) {k : UUID}
    {e : HybridEntry} (hget : t.get? k = some e) :
    (chunkTable uuid4 vectorResults keywordResults).get? k = some e ∨
      (chunkTable uuid4 vectorResults keywordResults).get? k = none ∧ MergedFrom (piecesOf k gs) e := by
  rw [h] at hget
  rcases Option.or_eq_some_iff.mp hget with hchunk | ⟨hnone, hmerged⟩
  · exact Or.inl hchunk
  · exact Or.inr ⟨hnone, mergedFrom_of_mergedEntry hmerged⟩

theorem Merges.exists_merged {gs : List (Evidence × Nat)} {t t' : HybridTable}
    (h : Merges order t gs t') {r : Evidence × Nat} (hr : r ∈ gs)
    (hnone : t.get? r.1.evidenceId = none) :
    ∃ e, t'.get? r.1.evidenceId = some e ∧ MergedFrom (piecesOf r.1.evidenceId gs) e := by
  have hmem := mem_piecesOf.mpr ⟨hr, rfl⟩
  cases hmerged : mergedEntry order (piecesOf r.1.evidenceId gs) with
  | none =>
    cases hpieces : piecesOf r.1.evidenceId gs with
    | nil =>
      rw [hpieces] at hmem
      cases hmem
    | cons r' rs =>
      rw [hpieces] at hmerged
      cases hmerged
  | some e =>
    refine ⟨e, ?_, mergedFrom_of_mergedEntry hmerged⟩
    rw [h, hnone, Option.none_or, hmerged]

theorem exists_ranked {ev : Evidence} (h : ev ∈ graphEvidence) :
    ∃ r ∈ ranked graphEvidence, r.1 = ev := by
  rw [← ranked_map_fst graphEvidence] at h
  exact List.mem_map.mp h

theorem mem_of_mem_ranked {r : Evidence × Nat} (h : r ∈ ranked graphEvidence) :
    r.1 ∈ graphEvidence := by
  rw [← ranked_map_fst graphEvidence]
  exact List.mem_map_of_mem h

/-- The entry of each piece spans it where the pieces of one id have the same bounds. -/
theorem Merges.spans_iff {t : HybridTable}
    (h : Merges order (chunkTable uuid4 vectorResults keywordResults) (ranked graphEvidence) t)
    (hno : NoClash (vectorResults ++ keywordResults) graphEvidence) :
    (∀ ev ∈ graphEvidence, ∃ e, t.get? ev.evidenceId = some e ∧ Spans e ev) ↔
      SameBounds graphEvidence := by
  have hmerged : ∀ ev ∈ graphEvidence, ∃ e, t.get? ev.evidenceId = some e ∧
      MergedFrom (piecesOf ev.evidenceId (ranked graphEvidence)) e := by
    intro ev hev
    obtain ⟨r, hr, rfl⟩ := exists_ranked hev
    exact h.exists_merged hr (get?_chunkTable_none_iff.mpr (hno r.1 hev))
  have hpiece : ∀ ev ∈ graphEvidence, ∀ id, ev.evidenceId = id →
      ∃ r ∈ piecesOf id (ranked graphEvidence), r.1 = ev := by
    intro ev hev id hid
    obtain ⟨r, hr, rfl⟩ := exists_ranked hev
    exact ⟨r, mem_piecesOf.mpr ⟨hr, hid⟩, rfl⟩
  constructor
  · intro hspans ev hev ev' hev' hid
    obtain ⟨e, hget, hfrom⟩ := hmerged ev hev
    have hall : ∀ r ∈ piecesOf ev.evidenceId (ranked graphEvidence), Spans e r.1 := by
      intro r hr
      obtain ⟨hrank, hrid⟩ := mem_piecesOf.mp hr
      obtain ⟨e', hget', hspan⟩ := hspans r.1 (mem_of_mem_ranked hrank)
      rw [hrid, hget] at hget'
      obtain rfl := Option.some.inj hget'
      exact hspan
    obtain ⟨r, hr, rfl⟩ := hpiece ev hev _ rfl
    obtain ⟨r', hr', rfl⟩ := hpiece ev' hev' _ hid.symm
    exact hfrom.spans_iff.mp hall r hr r' hr'
  · intro hsame ev hev
    obtain ⟨e, hget, hfrom⟩ := hmerged ev hev
    obtain ⟨r, hr, rfl⟩ := hpiece ev hev _ rfl
    refine ⟨e, hget, hfrom.spans_iff.mpr ?_ r hr⟩
    intro r₁ h₁ r₂ h₂
    obtain ⟨hrank₁, hid₁⟩ := mem_piecesOf.mp h₁
    obtain ⟨hrank₂, hid₂⟩ := mem_piecesOf.mp h₂
    exact hsame r₁.1 (mem_of_mem_ranked hrank₁) r₂.1 (mem_of_mem_ranked hrank₂)
      (hid₁.trans hid₂.symm)

theorem hybridRrfFusion_of_ok {t : HybridTable}
    (h : scoreTable uuid4 order vectorResults keywordResults graphEvidence = .ok t) :
    hybridRrfFusion uuid4 order vectorResults keywordResults graphEvidence =
      (firstPerKey HybridEntry.sourceId [] (byScore t)).mapM HybridEntry.toEvidence := by
  change scoreTable uuid4 order vectorResults keywordResults graphEvidence >>= _ = _
  rw [h]
  rfl

theorem hybridRrfFusion_of_error {err : FusionError}
    (h : scoreTable uuid4 order vectorResults keywordResults graphEvidence = .error err) :
    hybridRrfFusion uuid4 order vectorResults keywordResults graphEvidence = .error err := by
  change scoreTable uuid4 order vectorResults keywordResults graphEvidence >>= _ = _
  rw [h]
  rfl

theorem Merges.exists_out {t : HybridTable}
    (h : Merges order (chunkTable uuid4 vectorResults keywordResults) (ranked graphEvidence) t)
    (hspans : ∀ ev ∈ graphEvidence, ∃ e, t.get? ev.evidenceId = some e ∧ Spans e ev) :
    ∃ out, (firstPerKey HybridEntry.sourceId [] (byScore t)).mapM HybridEntry.toEvidence = .ok out := by
  have hitems : ∀ e ∈ firstPerKey HybridEntry.sourceId [] (byScore t),
      ∃ item, e.toEvidence = .ok item ∧ ItemOf e item := by
    intro e he
    have hget := mem_kept_get? he
    apply exists_toEvidence
    rcases h.cases hget with hchunk | ⟨-, hfrom⟩
    · obtain ⟨o, -, heq⟩ := exists_of_get?_chunkTable hchunk
      have habsent : e.validFrom = none := by
        rw [← heq]
        exact hybridEntry_frame (fun _ _ => rfl) _ o
      intro f t hf
      rw [habsent] at hf
      cases hf
    · refine hfrom.bounded ?_
      intro r hr
      obtain ⟨hrank, hid⟩ := mem_piecesOf.mp hr
      obtain ⟨e', hget', hspan⟩ := hspans r.1 (mem_of_mem_ranked hrank)
      rw [hid, hget] at hget'
      obtain rfl := Option.some.inj hget'
      exact hspan
  obtain ⟨out, hout, -⟩ := exists_mapM_toEvidence hitems
  exact ⟨out, hout⟩

/-- Nothing is raised, and each piece of graph evidence is within the interval it is merged into. -/
def MergesSafely (uuid4 : Nat → UUID) (order : SetOrder)
    (vectorResults keywordResults : List RetrievedChunk) (graphEvidence : List Evidence) : Prop :=
  ∃ scores out, scoreTable uuid4 order vectorResults keywordResults graphEvidence = .ok scores ∧
    hybridRrfFusion uuid4 order vectorResults keywordResults graphEvidence = .ok out ∧
    ∀ ev ∈ graphEvidence, ∃ e, scores.get? ev.evidenceId = some e ∧ Spans e ev

end

def bushResult (chunkId sourceId : UUID) (vectorScore keywordScore : Option PyFloat) :
    RetrievedChunk where
  chunkId := chunkId
  sourceId := sourceId
  content := "Bush 4.".toList
  vectorScore := vectorScore
  keywordScore := keywordScore
  allowedPrincipals := ["ada"]

def bushEvidence (evidenceId : UUID) (chunkId : Option UUID) (validFrom validTo : Option Instant)
    (h : ∀ f t, validFrom = some f → validTo = some t → f < t) : Evidence where
  evidenceId := evidenceId
  sourceId := 10
  chunkId := chunkId
  content := "Bush 4 wears.".toList
  retrievalMethod := .graph
  graphPathFactIds := [7]
  validFrom := validFrom
  validTo := validTo
  allowedPrincipals := ["ada"]
  temporalBounds := h

theorem mergesSafely_iff (uuid4 : Nat → UUID) (order : SetOrder)
    (vectorResults keywordResults : List RetrievedChunk) (graphEvidence : List Evidence) :
    MergesSafely uuid4 order vectorResults keywordResults graphEvidence ↔
      NoClash (vectorResults ++ keywordResults) graphEvidence ∧ SameBounds graphEvidence := by
  have hspec := @scoreTable_spec uuid4 order vectorResults keywordResults graphEvidence
  unfold MergesSafely
  cases hscores : scoreTable uuid4 order vectorResults keywordResults graphEvidence with
  | error err =>
    rw [hscores] at hspec
    constructor
    · rintro ⟨_, _, hok, -⟩
      cases hok
    · rintro ⟨hno, -⟩
      exact absurd hno hspec.2
  | ok t =>
    rw [hscores] at hspec
    obtain ⟨hno, hmerges⟩ := hspec
    constructor
    · rintro ⟨_, _, hok, -, hspans⟩
      obtain rfl := Except.ok.inj hok
      exact ⟨hno, (hmerges.spans_iff hno).mp hspans⟩
    · rintro ⟨-, hsame⟩
      have hspans := (hmerges.spans_iff hno).mpr hsame
      obtain ⟨out, hout⟩ := hmerges.exists_out hspans
      exact ⟨t, out, rfl, (hybridRrfFusion_of_ok hscores).trans hout, hspans⟩

theorem bounds_from_absent (a : Option Instant) : ∀ f t, none = some f → a = some t → f < t := by
  intro f t hf
  cases hf

theorem bounds_to_absent (a : Option Instant) : ∀ f t, a = some f → none = some t → f < t := by
  intro f t _ ht
  cases ht

/-- The id of a chunk, a start beside none, and an end before the start of another. -/
theorem merge_fails :
    hybridRrfFusion (BitVec.ofNat 128) listedSet [bushResult 1 10 (some 0x3FE0000000000000) none] []
        [bushEvidence 1 none none none absent_bounds] = .error .typeError ∧
      (∃ scores e, scoreTable (BitVec.ofNat 128) listedSet [] []
          [bushEvidence 5 none none none absent_bounds,
            bushEvidence 5 none (some 3) none (bounds_to_absent _)] = .ok scores ∧
        scores.get? 5 = some e ∧ ¬ Spans e (bushEvidence 5 none none none absent_bounds)) ∧
      hybridRrfFusion (BitVec.ofNat 128) listedSet [] []
        [bushEvidence 5 none none (some 4) (bounds_from_absent _),
          bushEvidence 5 none (some 6) none (bounds_to_absent _)] = .error .validation := by
  refine ⟨rfl, ⟨_, _, rfl, rfl, ?_⟩, rfl⟩
  intro h
  obtain ⟨y, hy, -⟩ := h.start 3 rfl
  cases hy

end GroundGraph.Retrieval

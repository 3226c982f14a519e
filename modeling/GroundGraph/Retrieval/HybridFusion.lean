import GroundGraph.Retrieval.GraphMerge
import Mathlib.Tactic.Positivity

/-! What the fusion keeps of its inputs: an entry for each chunk and each piece of graph
evidence, and after it one item for each `source_id` among them. Graph evidence with the id of
a retrieved chunk makes it raise.
-/

set_option autoImplicit false

namespace GroundGraph.Retrieval

structure FromChunk (c : RetrievedChunk) (e : HybridEntry) : Prop where
  key : e.key = c.chunkId
  sourceId : e.sourceId = c.sourceId
  graphScore : e.graphScore = none
  validFrom : e.validFrom = none
  validTo : e.validTo = none

structure FromGraph (ev : Evidence) (e : HybridEntry) : Prop where
  key : e.key = ev.evidenceId
  evidenceId : e.evidenceId = ev.evidenceId
  sourceId : e.sourceId = ev.sourceId
  graphScore : ∃ score, e.graphScore = some score ∧ score ≠ 0
  validFrom : e.validFrom = ev.validFrom
  validTo : e.validTo = ev.validTo

structure EntriesOf (chunks : List RetrievedChunk) (graphEvidence : List Evidence)
    (t : HybridTable) : Prop where
  origin : ∀ k e, t.get? k = some e →
    (∃ c ∈ chunks, FromChunk c e) ∨ ∃ ev ∈ graphEvidence, FromGraph ev e
  chunk : ∀ c ∈ chunks, ∃ e, t.get? c.chunkId = some e ∧ ∃ c' ∈ chunks, FromChunk c' e
  graph : ∀ ev ∈ graphEvidence, ∃ e, t.get? ev.evidenceId = some e ∧ FromGraph ev e

section
variable {chunks : List RetrievedChunk} {graphEvidence : List Evidence} {t : HybridTable}

theorem graphScoreAt_ne_zero (rank : Nat) : graphScoreAt rank ≠ 0 := by
  have hpos : 0 < graphScoreAt rank := by
    unfold graphScoreAt reciprocalRank graphWeight rrfK
    positivity
  exact ne_of_gt hpos

/-- With distinct ids nothing is merged. -/
theorem piecesOf_eq_singleton {gs : List (Evidence × Nat)} {r : Evidence × Nat}
    (hids : (gs.map fun r => r.1.evidenceId).Nodup) (hr : r ∈ gs) :
    piecesOf r.1.evidenceId gs = [r] := by
  induction gs with
  | nil => cases hr
  | cons r' gs ih =>
    obtain ⟨hnew, hrest⟩ := List.nodup_cons.mp hids
    unfold piecesOf at ih ⊢
    rcases List.mem_cons.mp hr with rfl | hr
    · have hnone : gs.filter (fun r' => decide (r'.1.evidenceId = r.1.evidenceId)) = [] := by
        rw [List.filter_eq_nil_iff]
        intro r' hr' hid
        exact hnew (List.mem_map.mpr ⟨r', hr', of_decide_eq_true hid⟩)
      rw [List.filter_cons_of_pos (by simp), hnone]
    · have hne : r'.1.evidenceId ≠ r.1.evidenceId := by
        intro hid
        exact hnew (List.mem_map.mpr ⟨r, hr, hid.symm⟩)
      rw [List.filter_cons_of_neg (by simpa using hne)]
      exact ih hrest hr

theorem fromGraph_graphEntry (ev : Evidence) (rank : Nat) : FromGraph ev (graphEntry ev rank) :=
  ⟨rfl, rfl, rfl, ⟨_, rfl, graphScoreAt_ne_zero rank⟩, rfl, rfl⟩

section
variable {uuid4 : Nat → UUID} {order : SetOrder} {vectorResults keywordResults : List RetrievedChunk}
  {k : UUID} {e : HybridEntry}

theorem exists_fromChunk
    (h : (chunkTable uuid4 vectorResults keywordResults).get? k = some e) :
    ∃ c ∈ vectorResults ++ keywordResults, FromChunk c e := by
  obtain ⟨o, ho, heq⟩ := exists_of_get?_chunkTable h
  refine ⟨o.chunk, ?_, ?_⟩
  · rw [← occurrences_map_chunk]
    exact List.mem_map_of_mem (FirstPerKey.mem_imp ho).1
  · rw [← heq]
    exact ⟨hybridEntry_key _ o, hybridEntry_sourceId _ o, hybridEntry_frame (fun _ _ => rfl) _ o,
      hybridEntry_frame (fun _ _ => rfl) _ o, hybridEntry_frame (fun _ _ => rfl) _ o⟩

theorem mergedEntry_ranked (hids : (graphEvidence.map Evidence.evidenceId).Nodup)
    {r : Evidence × Nat} (hr : r ∈ ranked graphEvidence) :
    mergedEntry order (piecesOf r.1.evidenceId (ranked graphEvidence)) =
      some (graphEntry r.1 r.2) := by
  have hranked : ((ranked graphEvidence).map fun r => r.1.evidenceId).Nodup := by
    have hmap := congrArg (List.map Evidence.evidenceId) (ranked_map_fst graphEvidence)
    rw [List.map_map] at hmap
    exact hmap ▸ hids
  rw [piecesOf_eq_singleton hranked hr]
  rfl

theorem Merges.exists_graphEntry
    (h : Merges order (chunkTable uuid4 vectorResults keywordResults) (ranked graphEvidence) t)
    (hids : (graphEvidence.map Evidence.evidenceId).Nodup) (hget : t.get? k = some e)
    (hnone : (chunkTable uuid4 vectorResults keywordResults).get? k = none) :
    ∃ ev ∈ graphEvidence, ∃ rank, e = graphEntry ev rank := by
  have hfrom : MergedFrom (piecesOf k (ranked graphEvidence)) e := by
    rcases h.cases hget with hchunk | ⟨-, hfrom⟩
    · rw [hnone] at hchunk
      cases hchunk
    · exact hfrom
  obtain ⟨r, hhead, -⟩ := hfrom.first
  obtain ⟨hr, hid⟩ := mem_piecesOf.mp (List.mem_of_head? hhead)
  rw [h, hnone, Option.none_or, ← hid, mergedEntry_ranked hids hr] at hget
  exact ⟨r.1, mem_of_mem_ranked hr, r.2, (Option.some.inj hget).symm⟩

theorem Merges.entriesOf
    (h : Merges order (chunkTable uuid4 vectorResults keywordResults) (ranked graphEvidence) t)
    (hids : (graphEvidence.map Evidence.evidenceId).Nodup)
    (hno : NoClash (vectorResults ++ keywordResults) graphEvidence) :
    EntriesOf (vectorResults ++ keywordResults) graphEvidence t := by
  refine ⟨?_, ?_, ?_⟩
  · intro k e hget
    cases hchunk : (chunkTable uuid4 vectorResults keywordResults).get? k with
    | none =>
      obtain ⟨ev, hev, rank, rfl⟩ := h.exists_graphEntry hids hget hchunk
      exact Or.inr ⟨ev, hev, fromGraph_graphEntry ev rank⟩
    | some e' =>
      rw [h, hchunk, Option.some_or] at hget
      obtain rfl := Option.some.inj hget
      exact Or.inl (exists_fromChunk hchunk)
  · intro c hc
    cases hchunk : (chunkTable uuid4 vectorResults keywordResults).get? c.chunkId with
    | none => exact absurd rfl (get?_chunkTable_none_iff.mp hchunk c hc)
    | some e =>
      refine ⟨e, ?_, exists_fromChunk hchunk⟩
      rw [h, hchunk, Option.some_or]
  · intro ev hev
    obtain ⟨r, hr, rfl⟩ := exists_ranked hev
    refine ⟨graphEntry r.1 r.2, ?_, fromGraph_graphEntry r.1 r.2⟩
    rw [h, get?_chunkTable_none_iff.mpr (hno r.1 hev), Option.none_or, mergedEntry_ranked hids hr]

end

theorem FromChunk.bounds {c : RetrievedChunk} {e : HybridEntry} (h : FromChunk c e) :
    ∀ f t, e.validFrom = some f → e.validTo = some t → f < t := by
  intro f t hf
  rw [h.validFrom] at hf
  cases hf

theorem FromGraph.bounds {ev : Evidence} {e : HybridEntry} (h : FromGraph ev e) :
    ∀ f t, e.validFrom = some f → e.validTo = some t → f < t := by
  intro f t hf ht
  rw [h.validFrom] at hf
  rw [h.validTo] at ht
  exact ev.temporalBounds f t hf ht

theorem FromChunk.method_ne_graph {c : RetrievedChunk} {e : HybridEntry} (h : FromChunk c e) :
    determineRetrievalMethod e ≠ .graph := by
  unfold determineRetrievalMethod
  rw [h.graphScore]
  split
  · rename_i hscore
    cases hscore
  · split <;> decide

theorem FromGraph.method_eq_graph {ev : Evidence} {e : HybridEntry} (h : FromGraph ev e) :
    determineRetrievalMethod e = .graph := by
  obtain ⟨score, hscore, hne⟩ := h.graphScore
  unfold determineRetrievalMethod
  rw [hscore, if_pos (by simpa using hne)]

structure FusedFrom (chunks : List RetrievedChunk) (graphEvidence out : List Evidence) : Prop where
  origin : ∀ e ∈ out, (∃ c ∈ chunks, e.sourceId = c.sourceId ∧ e.retrievalMethod ≠ .graph) ∨
    ∃ ev ∈ graphEvidence, e.evidenceId = ev.evidenceId ∧ e.sourceId = ev.sourceId ∧
      e.retrievalMethod = .graph
  oneEach : (out.map Evidence.sourceId).Nodup
  chunk : ∀ c ∈ chunks, ∃ e ∈ out, ∃ c' ∈ chunks, c'.chunkId = c.chunkId ∧ e.sourceId = c'.sourceId
  graph : ∀ ev ∈ graphEvidence, ∃ e ∈ out, e.sourceId = ev.sourceId

theorem EntriesOf.fused (h : EntriesOf chunks graphEvidence t) {out : List Evidence}
    (hout : ItemsOf (firstPerKey HybridEntry.sourceId [] (byScore t)) out) :
    FusedFrom chunks graphEvidence out := by
  have hkeep : ∀ k e, t.get? k = some e → ∃ item ∈ out, item.sourceId = e.sourceId := by
    intro k e hget
    have hrow := mem_byScore.mpr (t.get?_some_iff.mp hget).1
    obtain ⟨e', he', hsource⟩ := FirstPerKey.exists_of_mem hrow (List.not_mem_nil (a := e.sourceId))
    have hmem : e.sourceId ∈ out.map Evidence.sourceId := by
      rw [hout.sources, ← hsource]
      exact List.mem_map_of_mem he'
    exact List.mem_map.mp hmem
  refine ⟨?_, ?_, ?_, ?_⟩
  · intro item hitem
    obtain ⟨e, he, hof⟩ := hout.origin item hitem
    obtain ⟨c, hc, hfrom⟩ | ⟨ev, hev, hfrom⟩ := h.origin e.key e (mem_kept_get? he)
    · left
      refine ⟨c, hc, hof.sourceId.trans hfrom.sourceId, ?_⟩
      rw [hof.method]
      exact hfrom.method_ne_graph
    · right
      exact ⟨ev, hev, hof.evidenceId.trans hfrom.evidenceId, hof.sourceId.trans hfrom.sourceId,
        hof.method.trans hfrom.method_eq_graph⟩
  · rw [hout.sources]
    exact FirstPerKey.keys_nodup _ _ _
  · intro c hc
    obtain ⟨e, hget, c', hc', hfrom⟩ := h.chunk c hc
    obtain ⟨item, hitem, hsource⟩ := hkeep _ e hget
    have hid : c'.chunkId = c.chunkId := hfrom.key.symm.trans (t.get?_some_iff.mp hget).2
    exact ⟨item, hitem, c', hc', hid, hsource.trans hfrom.sourceId⟩
  · intro ev hev
    obtain ⟨e, hget, hfrom⟩ := h.graph ev hev
    obtain ⟨item, hitem, hsource⟩ := hkeep _ e hget
    exact ⟨item, hitem, hsource.trans hfrom.sourceId⟩

end

/-- The fusion of chunks with graph evidence whose ids are distinct. -/
theorem hybridRrfFusion_spec (uuid4 : Nat → UUID) (order : SetOrder)
    (vectorResults keywordResults : List RetrievedChunk) {graphEvidence : List Evidence}
    (hids : (graphEvidence.map Evidence.evidenceId).Nodup) :
    match hybridRrfFusion uuid4 order vectorResults keywordResults graphEvidence with
    | .ok out => FusedFrom (vectorResults ++ keywordResults) graphEvidence out ∧
        NoClash (vectorResults ++ keywordResults) graphEvidence
    | .error _ => ¬ NoClash (vectorResults ++ keywordResults) graphEvidence := by
  have hspec := @scoreTable_spec uuid4 order vectorResults keywordResults graphEvidence
  cases hscores : scoreTable uuid4 order vectorResults keywordResults graphEvidence with
  | error err =>
    rw [hscores] at hspec
    rw [hybridRrfFusion_of_error hscores]
    exact hspec.2
  | ok scores =>
    rw [hscores] at hspec
    obtain ⟨hno, hmerges⟩ := hspec
    have hentries := hmerges.entriesOf hids hno
    have hitems : ∀ e ∈ firstPerKey HybridEntry.sourceId [] (byScore scores),
        ∃ item, e.toEvidence = .ok item ∧ ItemOf e item := by
      intro e he
      obtain ⟨c, -, hfrom⟩ | ⟨ev, -, hfrom⟩ := hentries.origin e.key e (mem_kept_get? he)
      · exact exists_toEvidence hfrom.bounds
      · exact exists_toEvidence hfrom.bounds
    obtain ⟨out, hout, hof⟩ := exists_mapM_toEvidence hitems
    rw [hybridRrfFusion_of_ok hscores, hout]
    exact ⟨hentries.fused hof, hno⟩

end GroundGraph.Retrieval

import GroundGraph.Library.Correspondence
import GroundGraph.Retrieval.HybridFusion
import Mathlib.Algebra.Order.BigOperators.Group.List

/-! The items that the fusion returns, one for each source. The entries are sorted by the fused
score before those of a source already taken are dropped, so the one that is left has the best
score. An item is built from its entry field by field, and the entry of a piece of graph
evidence has no chunk.
-/

set_option autoImplicit false

namespace GroundGraph.Retrieval

structure BuiltFrom (e : HybridEntry) (item : Evidence) : Prop where
  evidenceId : item.evidenceId = e.evidenceId
  sourceId : item.sourceId = e.sourceId
  chunkId : item.chunkId = e.chunkId
  content : item.content = e.content
  method : item.retrievalMethod = determineRetrievalMethod e
  vectorScore : item.vectorScore = e.vectorScore
  graphPathFactIds : item.graphPathFactIds = e.graphPathFactIds
  validFrom : item.validFrom = e.validFrom
  validTo : item.validTo = e.validTo
  allowedPrincipals : item.allowedPrincipals = e.allowedPrincipals

theorem builtFrom_of_toEvidence {e : HybridEntry} {item : Evidence} (h : e.toEvidence = .ok item) :
    BuiltFrom e item := by
  unfold HybridEntry.toEvidence at h
  split at h
  · obtain rfl := Except.ok.inj h
    exact ⟨rfl, rfl, rfl, rfl, rfl, rfl, rfl, rfl, rfl, rfl⟩
  · cases h

section
variable {uuid4 : Nat → UUID} {order : SetOrder} {vectorResults keywordResults : List RetrievedChunk}
  {graphEvidence : List Evidence} {out : List Evidence}

theorem exists_entries
    (h : hybridRrfFusion uuid4 order vectorResults keywordResults graphEvidence = .ok out) :
    ∃ t, NoClash (vectorResults ++ keywordResults) graphEvidence ∧
      Merges order (chunkTable uuid4 vectorResults keywordResults) (ranked graphEvidence) t ∧
      List.Forall₂ BuiltFrom (firstPerKey HybridEntry.sourceId [] (byScore t)) out := by
  have hspec := @scoreTable_spec uuid4 order vectorResults keywordResults graphEvidence
  cases hscores : scoreTable uuid4 order vectorResults keywordResults graphEvidence with
  | error err =>
    rw [hybridRrfFusion_of_error hscores] at h
    cases h
  | ok t =>
    rw [hscores] at hspec
    rw [hybridRrfFusion_of_ok hscores] at h
    refine ⟨t, hspec.1, hspec.2, (Correspondence.of_mapM h).imp ?_⟩
    exact fun _ _ => builtFrom_of_toEvidence

end

inductive Candidate where
  | chunk (c : RetrievedChunk)
  | fact (ev : Evidence)

def candidates (vectorResults keywordResults : List RetrievedChunk) (graphEvidence : List Evidence) :
    List Candidate :=
  (firstPerKey RetrievedChunk.chunkId [] (vectorResults ++ keywordResults)).map .chunk ++
    graphEvidence.map .fact

def Candidate.sourceId (c : Candidate) : UUID :=
  match c with
  | .chunk c => c.sourceId
  | .fact ev => ev.sourceId

/-- The sum over the places of the chunk in both lists, or of the evidence in its list. -/
def Candidate.score (vectorResults keywordResults : List RetrievedChunk)
    (graphEvidence : List Evidence) (c : Candidate) : Rat :=
  match c with
  | .chunk c => rrfSum rrfK vectorResults keywordResults c.chunkId
  | .fact ev => graphSum (piecesOf ev.evidenceId (ranked graphEvidence))

def Candidate.Gives (c : Candidate) (item : Evidence) : Prop :=
  item.sourceId = c.sourceId ∧
    match c with
    | .chunk c => item.chunkId = some c.chunkId
    | .fact ev => item.chunkId = none ∧ item.evidenceId = ev.evidenceId

/-- The score of the item, by the places of its chunk or of its evidence. -/
def fusedScore (vectorResults keywordResults : List RetrievedChunk) (graphEvidence : List Evidence)
    (item : Evidence) : Rat :=
  match item.chunkId with
  | some id => rrfSum rrfK vectorResults keywordResults id
  | none => graphSum (piecesOf item.evidenceId (ranked graphEvidence))

theorem firstOccurrences_map_chunk (vectorResults keywordResults : List RetrievedChunk) :
    (firstOccurrences vectorResults keywordResults).map Occurrence.chunk =
      firstPerKey RetrievedChunk.chunkId [] (vectorResults ++ keywordResults) := by
  rw [← occurrences_map_chunk, FirstPerKey.map]
  rfl

section
variable {uuid4 : Nat → UUID} {order : SetOrder} {vectorResults keywordResults : List RetrievedChunk}
  {graphEvidence : List Evidence} {t : HybridTable} {k : UUID} {e : HybridEntry}

theorem exists_candidate
    (h : Merges order (chunkTable uuid4 vectorResults keywordResults) (ranked graphEvidence) t)
    (hget : t.get? k = some e) :
    ∃ c ∈ candidates vectorResults keywordResults graphEvidence,
      c.sourceId = e.sourceId ∧ ∀ item, BuiltFrom e item → c.Gives item ∧
        fusedScore vectorResults keywordResults graphEvidence item = e.rrfScore := by
  rcases h.cases hget with hchunk | ⟨-, hfrom⟩
  · obtain ⟨o, ho, heq⟩ := exists_of_get?_chunkTable hchunk
    have hscore : rrfSum rrfK vectorResults keywordResults o.id = e.rrfScore := by
      rw [← heq]
      exact (hybridEntry_rrfScore _ o).symm
    have hsource : e.sourceId = o.chunk.sourceId := by
      rw [← heq]
      exact hybridEntry_sourceId _ o
    have hid : e.chunkId = some o.id := by
      rw [← heq]
      exact hybridEntry_frame (fun _ _ => rfl) _ o
    refine ⟨.chunk o.chunk, List.mem_append_left _ ?_, hsource.symm, ?_⟩
    · rw [← firstOccurrences_map_chunk]
      exact List.mem_map_of_mem (List.mem_map_of_mem ho)
    · intro item hitem
      refine ⟨⟨hitem.sourceId.trans hsource, hitem.chunkId.trans hid⟩, ?_⟩
      rw [fusedScore, hitem.chunkId, hid]
      exact hscore
  · obtain ⟨r, hhead, -, hid, hsource, hnone⟩ := hfrom.first
    obtain ⟨hr, hkey⟩ := mem_piecesOf.mp (List.mem_of_head? hhead)
    have hscore : graphSum (piecesOf r.1.evidenceId (ranked graphEvidence)) = e.rrfScore := by
      rw [hkey]
      exact hfrom.rrfScore.symm
    have hev : r.1 ∈ graphEvidence := mem_of_mem_ranked hr
    refine ⟨.fact r.1, List.mem_append_right _ (List.mem_map_of_mem hev), hsource.symm, ?_⟩
    intro item hitem
    refine ⟨⟨hitem.sourceId.trans hsource, hitem.chunkId.trans hnone, hitem.evidenceId.trans hid⟩, ?_⟩
    rw [fusedScore, hitem.chunkId, hnone, hitem.evidenceId, hid]
    exact hscore

theorem eq_of_evidenceId (hids : (graphEvidence.map Evidence.evidenceId).Nodup)
    {ev ev' : Evidence} (hev : ev ∈ graphEvidence) (hev' : ev' ∈ graphEvidence)
    (h : ev.evidenceId = ev'.evidenceId) : ev = ev' :=
  List.inj_on_of_nodup_map hids hev hev' h

theorem exists_entry
    (h : Merges order (chunkTable uuid4 vectorResults keywordResults) (ranked graphEvidence) t)
    (hno : NoClash (vectorResults ++ keywordResults) graphEvidence)
    (hids : (graphEvidence.map Evidence.evidenceId).Nodup) {c : Candidate}
    (hc : c ∈ candidates vectorResults keywordResults graphEvidence) :
    ∃ e ∈ t.rows, e.sourceId = c.sourceId ∧
      e.rrfScore = c.score vectorResults keywordResults graphEvidence := by
  rcases List.mem_append.mp hc with hchunk | hfact
  · rw [← firstOccurrences_map_chunk, List.map_map] at hchunk
    obtain ⟨o, ho, rfl⟩ := List.mem_map.mp hchunk
    have hmem : hybridEntry vectorResults keywordResults 0 o ∈
        (chunkTable uuid4 vectorResults keywordResults).rows.map (HybridEntry.withId 0) := by
      rw [rows_chunkTable]
      exact List.mem_map_of_mem ho
    obtain ⟨e, he, heq⟩ := List.mem_map.mp hmem
    have hget : t.get? e.key = some e := by
      rw [h, ((chunkTable uuid4 vectorResults keywordResults).mem_rows_iff).mp he, Option.some_or]
    refine ⟨e, (t.get?_some_iff.mp hget).1, ?_, ?_⟩
    · exact (congrArg HybridEntry.sourceId heq).trans (hybridEntry_sourceId 0 o)
    · exact (congrArg HybridEntry.rrfScore heq).trans (hybridEntry_rrfScore 0 o)
  · obtain ⟨ev, hev, rfl⟩ := List.mem_map.mp hfact
    obtain ⟨r, hr, rfl⟩ := exists_ranked hev
    obtain ⟨e, hget, hfrom⟩ := h.exists_merged hr (get?_chunkTable_none_iff.mpr (hno r.1 hev))
    obtain ⟨r', hhead, -, -, hsource, -⟩ := hfrom.first
    obtain ⟨hr', hid⟩ := mem_piecesOf.mp (List.mem_of_head? hhead)
    rw [eq_of_evidenceId hids (mem_of_mem_ranked hr') hev hid] at hsource
    exact ⟨e, (t.get?_some_iff.mp hget).1, hsource, hfrom.rrfScore⟩

end

/-- Results for one chunk have one source. -/
def SourcePerChunk (chunks : List RetrievedChunk) : Prop :=
  ∀ c ∈ chunks, ∀ c' ∈ chunks, c.chunkId = c'.chunkId → c.sourceId = c'.sourceId

theorem mem_candidate_sources {vectorResults keywordResults : List RetrievedChunk}
    {graphEvidence : List Evidence} (h : SourcePerChunk (vectorResults ++ keywordResults)) (s : UUID) :
    s ∈ (candidates vectorResults keywordResults graphEvidence).map Candidate.sourceId ↔
      s ∈ (vectorResults ++ keywordResults).map RetrievedChunk.sourceId ∨
        s ∈ graphEvidence.map Evidence.sourceId := by
  have hchunks : s ∈ (firstPerKey RetrievedChunk.chunkId [] (vectorResults ++ keywordResults)).map
      RetrievedChunk.sourceId ↔ s ∈ (vectorResults ++ keywordResults).map RetrievedChunk.sourceId := by
    constructor
    · intro hs
      exact ((FirstPerKey.sublist _ _ _).map _).subset hs
    · intro hs
      obtain ⟨c, hc, rfl⟩ := List.mem_map.mp hs
      obtain ⟨c', hc', hid⟩ := FirstPerKey.exists_of_mem hc (List.not_mem_nil (a := c.chunkId))
      rw [h c hc c' (FirstPerKey.mem_imp hc').1 hid.symm]
      exact List.mem_map_of_mem hc'
  rw [candidates, List.map_append, List.mem_append, List.map_map, List.map_map]
  exact or_congr hchunks Iff.rfl

/-- One item for each source of a candidate, the best of them, and the best first. -/
structure BestPerSource (vectorResults keywordResults : List RetrievedChunk)
    (graphEvidence out : List Evidence) : Prop where
  once : (out.map Evidence.sourceId).Nodup
  sources : ∀ s, s ∈ out.map Evidence.sourceId ↔
    s ∈ (candidates vectorResults keywordResults graphEvidence).map Candidate.sourceId
  kept : ∀ item ∈ out, ∃ c ∈ candidates vectorResults keywordResults graphEvidence, c.Gives item
  best : ∀ item ∈ out, ∀ c ∈ candidates vectorResults keywordResults graphEvidence,
    c.sourceId = item.sourceId → c.score vectorResults keywordResults graphEvidence ≤
      fusedScore vectorResults keywordResults graphEvidence item
  order : out.Pairwise fun a b => fusedScore vectorResults keywordResults graphEvidence b ≤
    fusedScore vectorResults keywordResults graphEvidence a

section
variable {uuid4 : Nat → UUID} {order : SetOrder} {vectorResults keywordResults : List RetrievedChunk}
  {graphEvidence : List Evidence} {t : HybridTable}

theorem byScore_sorted (t : HybridTable) :
    (byScore t).Pairwise fun a b => b.rrfScore ≤ a.rrfScore :=
  StableSort.pairwise_score HybridEntry.rrfScore t.rows

theorem mem_kept_sources
    (h : Merges order (chunkTable uuid4 vectorResults keywordResults) (ranked graphEvidence) t)
    (hno : NoClash (vectorResults ++ keywordResults) graphEvidence)
    (hids : (graphEvidence.map Evidence.evidenceId).Nodup) (s : UUID) :
    s ∈ (firstPerKey HybridEntry.sourceId [] (byScore t)).map HybridEntry.sourceId ↔
      s ∈ (candidates vectorResults keywordResults graphEvidence).map Candidate.sourceId := by
  rw [FirstPerKey.mem_map_key_iff]
  constructor
  · intro hs
    obtain ⟨e, he, rfl⟩ := List.mem_map.mp hs
    obtain ⟨c, hc, hsource, -⟩ := exists_candidate h ((t.mem_rows_iff).mp (mem_byScore.mp he))
    rw [← hsource]
    exact List.mem_map_of_mem hc
  · intro hs
    obtain ⟨c, hc, rfl⟩ := List.mem_map.mp hs
    obtain ⟨e, he, hsource, -⟩ := exists_entry h hno hids hc
    rw [← hsource]
    exact List.mem_map_of_mem (mem_byScore.mpr he)

theorem score_le_of_kept
    (h : Merges order (chunkTable uuid4 vectorResults keywordResults) (ranked graphEvidence) t)
    (hno : NoClash (vectorResults ++ keywordResults) graphEvidence)
    (hids : (graphEvidence.map Evidence.evidenceId).Nodup) {e : HybridEntry}
    (he : e ∈ firstPerKey HybridEntry.sourceId [] (byScore t)) {c : Candidate}
    (hc : c ∈ candidates vectorResults keywordResults graphEvidence)
    (hsource : c.sourceId = e.sourceId) :
    c.score vectorResults keywordResults graphEvidence ≤ e.rrfScore := by
  obtain ⟨x, hx, hxsource, hxscore⟩ := exists_entry h hno hids hc
  have hrefl : ∀ a : HybridEntry, a.rrfScore ≤ a.rrfScore := fun _ => le_rfl
  obtain ⟨b, hbest, hkey, hle⟩ := FirstPerKey.exists_rel hrefl (byScore_sorted t)
    (mem_byScore.mpr hx) (List.not_mem_nil (a := x.sourceId))
  have hsame : b.sourceId = e.sourceId := by
    rw [hkey, hxsource, hsource]
  have hbe : b = e :=
    List.inj_on_of_nodup_map (FirstPerKey.keys_nodup HybridEntry.sourceId [] (byScore t)) hbest he
      hsame
  rw [← hxscore, ← hbe]
  exact hle

end

theorem bestPerSource_of_entries {uuid4 : Nat → UUID} {order : SetOrder}
    {vectorResults keywordResults : List RetrievedChunk} {graphEvidence out : List Evidence}
    {t : HybridTable} (hids : (graphEvidence.map Evidence.evidenceId).Nodup)
    (hno : NoClash (vectorResults ++ keywordResults) graphEvidence)
    (h : Merges order (chunkTable uuid4 vectorResults keywordResults) (ranked graphEvidence) t)
    (hbuilt : List.Forall₂ BuiltFrom (firstPerKey HybridEntry.sourceId [] (byScore t)) out) :
    BestPerSource vectorResults keywordResults graphEvidence out := by
  have hsources : out.map Evidence.sourceId =
      (firstPerKey HybridEntry.sourceId [] (byScore t)).map HybridEntry.sourceId :=
    Correspondence.map_eq hbuilt fun _ _ _ hb => hb.sourceId
  have hscores : ∀ e ∈ firstPerKey HybridEntry.sourceId [] (byScore t), ∀ item, BuiltFrom e item →
      fusedScore vectorResults keywordResults graphEvidence item = e.rrfScore := by
    intro e he item hb
    obtain ⟨c, -, -, hitem⟩ := exists_candidate h (mem_kept_get? he)
    exact (hitem item hb).2
  refine ⟨?once, ?sources, ?kept, ?best, ?order⟩
  case once =>
    rw [hsources]
    exact FirstPerKey.keys_nodup _ _ _
  case sources =>
    intro s
    rw [hsources, mem_kept_sources h hno hids]
  case kept =>
    intro item hitem
    obtain ⟨e, he, hb⟩ := Correspondence.exists_left_of_mem hbuilt hitem
    obtain ⟨c, hc, -, hgives⟩ := exists_candidate h (mem_kept_get? he)
    exact ⟨c, hc, (hgives item hb).1⟩
  case best =>
    intro item hitem c hc hsource
    obtain ⟨e, he, hb⟩ := Correspondence.exists_left_of_mem hbuilt hitem
    rw [hscores e he item hb]
    exact score_le_of_kept h hno hids he hc (hsource.trans hb.sourceId)
  case order =>
    have hmap := Correspondence.map_eq hbuilt hscores
    have hkept : ((firstPerKey HybridEntry.sourceId [] (byScore t)).map
        HybridEntry.rrfScore).Pairwise fun x y => y ≤ x :=
      List.pairwise_map.mpr ((byScore_sorted t).sublist (FirstPerKey.sublist _ _ _))
    rw [← hmap] at hkept
    exact List.pairwise_map.mp hkept

theorem hybridRrfFusion_bestPerSource (uuid4 : Nat → UUID) (order : SetOrder)
    (vectorResults keywordResults : List RetrievedChunk) {graphEvidence : List Evidence}
    (hids : (graphEvidence.map Evidence.evidenceId).Nodup)
    (hno : NoClash (vectorResults ++ keywordResults) graphEvidence) :
    ∃ out, hybridRrfFusion uuid4 order vectorResults keywordResults graphEvidence = .ok out ∧
      BestPerSource vectorResults keywordResults graphEvidence out ∧
      (SourcePerChunk (vectorResults ++ keywordResults) → ∀ s, s ∈ out.map Evidence.sourceId ↔
        s ∈ (vectorResults ++ keywordResults).map RetrievedChunk.sourceId ∨
          s ∈ graphEvidence.map Evidence.sourceId) := by
  have hspec := hybridRrfFusion_spec uuid4 order vectorResults keywordResults hids
  cases hout : hybridRrfFusion uuid4 order vectorResults keywordResults graphEvidence with
  | error err =>
    rw [hout] at hspec
    exact absurd hno hspec
  | ok out =>
    obtain ⟨t, -, hmerges, hbuilt⟩ := exists_entries hout
    have hbest := bestPerSource_of_entries hids hno hmerges hbuilt
    refine ⟨out, rfl, hbest, ?_⟩
    intro hone s
    rw [hbest.sources, mem_candidate_sources hone]

theorem hybridRrfFusion_bestPerSource_fact :
    ∃ out, hybridRrfFusion (BitVec.ofNat 128) listedSet
        [bushResult 1 10 (some 0x3FE0000000000000) none] [bushResult 2 11 none none]
        [bushEvidence 5 none none none absent_bounds] = .ok out ∧
      BestPerSource [bushResult 1 10 (some 0x3FE0000000000000) none] [bushResult 2 11 none none]
        [bushEvidence 5 none none none absent_bounds] out ∧
      (SourcePerChunk [bushResult 1 10 (some 0x3FE0000000000000) none, bushResult 2 11 none none] →
        ∀ s, s ∈ out.map Evidence.sourceId ↔
          s ∈ [bushResult 1 10 (some 0x3FE0000000000000) none, bushResult 2 11 none none].map
            RetrievedChunk.sourceId ∨
            s ∈ [bushEvidence 5 none none none absent_bounds].map Evidence.sourceId) :=
  hybridRrfFusion_bestPerSource _ _ _ _ (by decide) (by unfold NoClash; decide)

/-- A chunk that the two searches place in different sources: the second has no item. -/
theorem source_of_repeated_chunk :
    ∃ out, hybridRrfFusion (BitVec.ofNat 128) listedSet
        [bushResult 1 10 (some 0x3FE0000000000000) none]
        [bushResult 1 11 none (some 0x3FE0000000000000)] [] = .ok out ∧
      ∀ item ∈ out, item.sourceId ≠ (bushResult 1 11 none (some 0x3FE0000000000000)).sourceId := by
  refine ⟨_, rfl, ?_⟩
  decide

theorem MergedFrom.method_eq_graph {pieces : List (Evidence × Nat)} {e : HybridEntry}
    (h : MergedFrom pieces e) : determineRetrievalMethod e = .graph := by
  have hpos : 0 < graphSum pieces := by
    obtain ⟨r, hhead, -⟩ := h.first
    apply List.sum_pos
    · intro x hx
      obtain ⟨r, -, rfl⟩ := List.mem_map.mp hx
      unfold graphScoreAt reciprocalRank graphWeight rrfK
      positivity
    · intro hnil
      rw [List.map_eq_nil_iff.mp hnil] at hhead
      cases hhead
  unfold determineRetrievalMethod
  rw [h.graphScore, if_pos]
  simpa using ne_of_gt hpos

/-- What the claims and citations take from a piece of graph evidence. -/
structure SameProvenance (item ev : Evidence) : Prop where
  evidenceId : item.evidenceId = ev.evidenceId
  sourceId : item.sourceId = ev.sourceId
  chunkId : item.chunkId = ev.chunkId
  content : item.content = ev.content
  graphPathFactIds : item.graphPathFactIds = ev.graphPathFactIds
  validFrom : item.validFrom = ev.validFrom
  validTo : item.validTo = ev.validTo
  allowedPrincipals : item.allowedPrincipals = ev.allowedPrincipals

section
variable {uuid4 : Nat → UUID} {order : SetOrder} {vectorResults keywordResults : List RetrievedChunk}
  {graphEvidence out : List Evidence} {item : Evidence}

theorem exists_graphEntry (hids : (graphEvidence.map Evidence.evidenceId).Nodup)
    (hout : hybridRrfFusion uuid4 order vectorResults keywordResults graphEvidence = .ok out)
    (hitem : item ∈ out) (hgraph : item.retrievalMethod = .graph) :
    ∃ ev ∈ graphEvidence, ∃ rank, BuiltFrom (graphEntry ev rank) item := by
  obtain ⟨t, -, hmerges, hbuilt⟩ := exists_entries hout
  obtain ⟨e, he, hb⟩ := Correspondence.exists_left_of_mem hbuilt hitem
  have hget := mem_kept_get? he
  rcases hmerges.cases hget with hchunk | ⟨hnone, -⟩
  · obtain ⟨o, -, heq⟩ := exists_of_get?_chunkTable hchunk
    rw [hb.method, ← heq, method_of_hybridEntry] at hgraph
    split at hgraph <;> cases hgraph
  · obtain ⟨ev, hev, rank, rfl⟩ := hmerges.exists_graphEntry hids hget hnone
    exact ⟨ev, hev, rank, hb⟩

/-- The graph evidence that comes back is as it was, but for its chunk. -/
theorem graph_provenance_iff (hids : (graphEvidence.map Evidence.evidenceId).Nodup)
    (hout : hybridRrfFusion uuid4 order vectorResults keywordResults graphEvidence = .ok out)
    (hitem : item ∈ out) (hgraph : item.retrievalMethod = .graph) :
    ∃ ev ∈ graphEvidence, item.evidenceId = ev.evidenceId ∧
      (SameProvenance item ev ↔ ev.chunkId = none) := by
  obtain ⟨ev, hev, rank, hb⟩ := exists_graphEntry hids hout hitem hgraph
  have hchunk : item.chunkId = none := hb.chunkId
  refine ⟨ev, hev, hb.evidenceId, ?_, ?_⟩
  · intro h
    rw [← h.chunkId, hchunk]
  · intro hnone
    exact ⟨hb.evidenceId, hb.sourceId, hchunk.trans hnone.symm, hb.content, hb.graphPathFactIds,
      hb.validFrom, hb.validTo, hb.allowedPrincipals⟩

end

def bushPieces : List Evidence :=
  [bushEvidence 5 none none none absent_bounds,
    { bushEvidence 6 (some 9) none none absent_bounds with sourceId := 12 }]

theorem graph_provenance_without_chunk :
    ∃ out, hybridRrfFusion (BitVec.ofNat 128) listedSet
        [bushResult 1 11 (some 0x3FE0000000000000) none] [] bushPieces = .ok out ∧
      ∃ first ∈ out, ∃ second ∈ out, first.evidenceId = 5 ∧ second.evidenceId = 6 ∧
        ∀ item ∈ [first, second], ∃ ev ∈ bushPieces, item.evidenceId = ev.evidenceId ∧
          (SameProvenance item ev ↔ ev.chunkId = none) := by
  have hitems : (hybridRrfFusion (BitVec.ofNat 128) listedSet
      [bushResult 1 11 (some 0x3FE0000000000000) none] [] bushPieces).map
        (List.map fun e => (e.evidenceId, e.retrievalMethod)) =
      .ok [(5, .graph), (6, .graph), (0, .vector)] := by decide +kernel
  cases hout : hybridRrfFusion (BitVec.ofNat 128) listedSet
      [bushResult 1 11 (some 0x3FE0000000000000) none] [] bushPieces with
  | error e =>
    rw [hout] at hitems
    cases hitems
  | ok out =>
    rw [hout] at hitems
    obtain ⟨first, rest, rfl, hfirst, hrest⟩ := List.map_eq_cons_iff.mp (Except.ok.inj hitems)
    obtain ⟨second, more, rfl, hsecond, _⟩ := List.map_eq_cons_iff.mp hrest
    obtain ⟨hid, hmethod⟩ := Prod.mk.inj hfirst
    obtain ⟨hid', hmethod'⟩ := Prod.mk.inj hsecond
    have hmem : second ∈ first :: second :: more := List.mem_cons_of_mem _ List.mem_cons_self
    refine ⟨_, rfl, first, List.mem_cons_self, second, hmem, hid, hid', ?_⟩
    rw [List.forall_mem_cons, List.forall_mem_singleton]
    exact ⟨graph_provenance_iff (by decide) hout List.mem_cons_self hmethod,
      graph_provenance_iff (by decide) hout hmem hmethod'⟩

/-- Evidence that names its chunk comes back without it. -/
theorem graph_chunk_dropped :
    ∃ out, hybridRrfFusion (BitVec.ofNat 128) listedSet [] []
        [bushEvidence 5 (some 9) none none absent_bounds] = .ok out ∧
      ∃ item ∈ out, item.retrievalMethod = .graph ∧
        ¬ SameProvenance item (bushEvidence 5 (some 9) none none absent_bounds) := by
  refine ⟨_, rfl, _, List.mem_cons_self, (MergedFrom.start (_, 1)).method_eq_graph, ?_⟩
  intro h
  cases h.chunkId

end GroundGraph.Retrieval

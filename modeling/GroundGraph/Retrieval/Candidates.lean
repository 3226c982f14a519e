import GroundGraph.Retrieval.PrivateView
import GroundGraph.Worker.Delivery

/-! What the program finds, it never shows. Extraction emits candidates, projection keeps the
status of a fact, `update_fact_status` has no caller, and retrieval asks for verified facts only.
-/

set_option autoImplicit false

namespace GroundGraph.Retrieval

open GroundGraph.Knowledge GroundGraph.Neo4j GroundGraph.Outbox GroundGraph.Worker

def Unverified (g : Graph) : Prop := ∀ f ∈ g.facts.rows, f.status ≠ .verified

section
variable {g : Graph}

theorem Unverified.retrieveEvidence (h : Unverified g) (sc : Scoring) (q : Search)
    (fetches : Nat → Fetches) (seedEntities : List CanonicalEntity) :
    retrieveEvidence sc g q fetches seedEntities = some [] := by
  have hnone : ∀ r, r ∉ allEntries g q fetches seedEntities := by
    intro r hr
    obtain ⟨row, hrow, -, hverified⟩ := allEntries_fromRows fetches seedEntities r hr
    have hget := (mem_factRows.mp hrow).2.2.1
    exact h row.fact (g.facts.get?_some_iff.mp hget).1 hverified
  obtain ⟨evidence, hevidence⟩ := Option.isSome_iff_exists.mp
    ((retrieveEvidence_isSome_iff sc fetches seedEntities).mpr fun r hr => absurd hr (hnone r))
  have hempty : evidence = [] := by
    refine List.eq_nil_iff_forall_not_mem.mpr fun e he => ?_
    obtain ⟨k, r, hfirst, rfl⟩ := (mem_retrieveEvidence hevidence).mp he
    exact hnone r (firstEntry_some hfirst).1
  rw [hevidence, hempty]

variable (cfg : HybridRetrievalConfig) (backend : SearchBackend) (store : ChunkStore)
  (req : HybridRequest)

theorem Unverified.graphEvidence (h : Unverified g) (p : RetrievalPlan) :
    (cfg.over backend store g).graphEvidence req p = .ok [] := by
  unfold HybridRetrievalConfig.graphEvidence
  have hnone : ∀ seedEntities, Retrieval.retrieveEvidence (cfg.over backend store g).scoring
      (cfg.over backend store g).graph (HybridRetrievalConfig.graphSearch req p)
      (cfg.over backend store g).fetches seedEntities = some [] := h.retrieveEvidence _ _ _
  rw [hnone]
  split
  · rfl
  · rfl

theorem queryWithEvidence_graph {g' : Graph} (hentities : g'.entities = g.entities)
    (h : ∀ p, (cfg.over backend store g).graphEvidence req p =
      (cfg.over backend store g').graphEvidence req p) :
    (cfg.over backend store g).queryWithEvidence req =
      (cfg.over backend store g').queryWithEvidence req := by
  have hplan : (cfg.over backend store g).planOf req = (cfg.over backend store g').planOf req := by
    simp only [HybridRetrievalConfig.planOf, HybridRetrievalConfig.entitiesOf, Extraction.findEntities,
      HybridRetrievalConfig.over, hentities]
  have hselect : ∀ p vector keyword,
      (cfg.over backend store g).selectEvidence req p vector keyword =
        (cfg.over backend store g').selectEvidence req p vector keyword := by
    intro p vector keyword
    simp only [HybridRetrievalConfig.selectEvidence, h]
    rfl
  simp only [HybridRetrievalConfig.queryWithEvidence, HybridRetrievalConfig.gatherEvidence,
    hselect, hplan]
  rfl

theorem Unverified.gatherEvidence_graph (h : Unverified g)
    (hplan : ((cfg.over backend store g).planOf req).strategy = .graph) {evidence : List Evidence}
    (hgather : (cfg.over backend store g).gatherEvidence req = .ok evidence) : evidence = [] := by
  simp only [HybridRetrievalConfig.gatherEvidence, HybridRetrievalConfig.selectEvidence, hplan,
    h.graphEvidence] at hgather
  obtain ⟨results, -, hrest⟩ := Except.bind_ok_iff.mp hgather
  have hnone : sliceTo ((cfg.over backend store g).finalLimit req) ([] : List Evidence) = [] := by
    simp [sliceTo]
  simp only [bind, Except.bind, pure, Except.pure, hnone] at hrest
  exact (Except.ok.inj hrest).symm

end

section
variable {co : Conversions} {chunks : List UUID} {s : World}

theorem GraphOfRuns.unverified (h : GraphOfRuns co s) : Unverified s.graph := by
  intro f hf hverified
  obtain ⟨x, hattributed, -⟩ := h.found (.fact f) (s.graph.facts.mem_rows_iff.mp hf)
  rw [hattributed.status] at hverified
  cases hverified

/-- Whatever the workers have brought into the graph, every query is answered as over the same
entities without a fact, and one that asks the graph only has no evidence. -/
theorem candidates_never_shown {as : List Action} (hco : Documented co)
    (hproduces : ∀ a ∈ as, a.Produces)
    (hrun : (worldSystem co chunks).run (worldSystem co chunks).start as = some s)
    (cfg : HybridRetrievalConfig) (backend : SearchBackend) (store : ChunkStore)
    (req : HybridRequest) :
    (∀ g : Graph, g.entities = s.graph.entities → g.facts = .empty →
        (cfg.over backend store s.graph).queryWithEvidence req =
          (cfg.over backend store g).queryWithEvidence req) ∧
      (((cfg.over backend store s.graph).planOf req).strategy = .graph →
        ∀ evidence, (cfg.over backend store s.graph).gatherEvidence req = .ok evidence →
          evidence = []) := by
  have hs : WorldInv co chunks s ∧ ProducedInv s := run_produced hproduces hrun
  have hunverified := GraphOfRuns.unverified (hs.2.graphOfRuns hs.1 hco)
  refine ⟨fun g hentities hfacts => ?_, fun hplan evidence hgather => ?_⟩
  · have hempty : Unverified g := by
      intro f hf
      rw [hfacts] at hf
      cases hf
    refine queryWithEvidence_graph cfg backend store req hentities fun p => ?_
    rw [hunverified.graphEvidence, hempty.graphEvidence]
  · exact hunverified.gatherEvidence_graph cfg backend store req hplan hgather

end

def peopleProjected : List Action :=
  peopleRun.rows.map emitRow ++
    .poll 0 0 (fun _ => false) (fun n => BitVec.ofNat 128 (n + 100)) .ok ::
      peopleRun.rows.zipIdx.flatMap fun e =>
        [.project 0 0 [], .commitGraph 0 .ok [],
         .complete 0 (some (claimRow 0 workerId leaseDurationSeconds (BitVec.ofNat 128 (e.2 + 100))
           e.1)) 0 .ok []]

theorem peopleProjected_produce : ∀ a ∈ peopleProjected, a.Produces := by
  intro a ha
  rcases List.mem_append.mp ha with ha | ha
  · obtain ⟨row, hrow, rfl⟩ := List.mem_map.mp ha
    exact .extraction peopleRun hrow
  · rcases List.mem_cons.mp ha with rfl | ha
    · trivial
    · obtain ⟨e, -, ha⟩ := List.mem_flatMap.mp ha
      simp only [List.mem_cons, List.not_mem_nil, or_false] at ha
      rcases ha with rfl | rfl | rfl <;> trivial

def peopleOnly (g : Graph) : Graph := { g with facts := .empty }

/-- The fact is in the graph, between its two ends. -/
theorem candidates_never_shown_people :
    ∃ s, (worldSystem Nodes.isoConversions []).run (worldSystem Nodes.isoConversions []).start
        peopleProjected = some s ∧
      s.graph.factRows.map (fun row => (row.subject, row.fact.predicate, row.object)) =
        [(1, "deploys", 2)] ∧
      ∀ (cfg : HybridRetrievalConfig) (backend : SearchBackend) (store : ChunkStore)
        (req : HybridRequest), (cfg.over backend store s.graph).queryWithEvidence req =
          (cfg.over backend store (peopleOnly s.graph)).queryWithEvidence req := by
  have hview : ((worldSystem Nodes.isoConversions []).run
      (worldSystem Nodes.isoConversions []).start peopleProjected).map (fun s =>
        s.graph.factRows.map fun row => (row.subject, row.fact.predicate, row.object)) =
          some [(1, "deploys", 2)] := by
    decide +kernel
  obtain ⟨s, hs, hrows⟩ := Option.map_eq_some_iff.mp hview
  refine ⟨s, hs, hrows, fun cfg backend store req => ?_⟩
  exact (candidates_never_shown Nodes.documented_iso peopleProjected_produce hs cfg backend store
    req).1 (peopleOnly s.graph) rfl rfl

end GroundGraph.Retrieval

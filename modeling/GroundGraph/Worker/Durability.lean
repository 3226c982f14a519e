import GroundGraph.Outbox.Events
import GroundGraph.Outbox.LeaseSafety
import GroundGraph.Worker.System

/-! An event is never marked done before its effect is durable. Every action of a
worker is put together from three changes (a call on the outbox, a committed graph
transaction, a new worker state), and each keeps the invariant.
-/

set_option autoImplicit false

namespace GroundGraph.Worker

open GroundGraph.Knowledge GroundGraph.Neo4j GroundGraph.Outbox

structure Projects (event : Event) (c : ProjectionCommit) : Prop where
  eventId : c.eventId = event.eventId
  eventType : c.eventType = event.eventType
  payload : c.payload = event.payload

theorem Projects.of_sameEvent {event event' : Event} {c : ProjectionCommit}
    (h : Projects event c) (hsame : SameEvent event event') : Projects event' c :=
  ⟨h.eventId.trans hsame.eventId.symm, h.eventType.trans hsame.eventType.symm,
    h.payload.trans hsame.payload.symm⟩

/-- The write is the whole projection of the event, computed on the graph that the
first `seen` transactions had left. -/
structure Planned (co : Conversions) (chunks : List UUID) (commits : List ProjectionCommit)
    (c : ProjectionCommit) : Prop where
  seen_le : c.seen ≤ commits.length
  write : projectEvent co (replay chunks (firstCommits commits c.seen)) c.now c.eventType
    c.payload = .ok c.write

theorem Planned.cons {co : Conversions} {chunks : List UUID} {commits : List ProjectionCommit}
    {c : ProjectionCommit} (h : Planned co chunks commits c) (d : ProjectionCommit) :
    Planned co chunks (d :: commits) c where
  seen_le := h.seen_le.trans (Nat.le_succ _)
  write := by
    rw [firstCommits_cons h.seen_le]
    exact h.write

def Stage.event? : Stage → Option Event
  | .idle => none
  | .claimed event => some event
  | .projected event _ => some event
  | .graphCommitted event => some event
  | .failed event _ => some event

def WorkerState.events (st : WorkerState) : List Event := st.stage.event?.toList ++ st.queue

theorem WorkerState.mem_events_of_stage {st : WorkerState} {stage : Stage} {event e : Event}
    (hst : st.stage.event? = some event) (hstage : stage.event? = some event)
    (he : e ∈ (⟨stage, st.queue⟩ : WorkerState).events) : e ∈ st.events := by
  simpa only [WorkerState.events, hst, hstage] using he

def InOutbox (s : World) (event : Event) : Prop :=
  ∃ r, s.outbox.table.get? event.eventId = some r ∧ SameEvent event r

structure WorkerInv (co : Conversions) (chunks : List UUID) (s : World) (st : WorkerState) :
    Prop where
  held : ∀ event ∈ st.events, InOutbox s event
  staged : ∀ event c, st.stage = .projected event c →
    Projects event c ∧ Planned co chunks s.commits c
  done : ∀ event, st.stage = .graphCommitted event → ∃ c ∈ s.commits, Projects event c

structure WorldInv (co : Conversions) (chunks : List UUID) (s : World) : Prop where
  outbox : (leaseSystem JsonObject).Reachable s.outbox
  graph : s.graph = replay chunks s.commits
  planned : ∀ c ∈ s.commits, Planned co chunks s.commits c
  completed : ∀ k r, s.outbox.table.get? k = some r → r.status = .completed →
    ∃ c ∈ s.commits, Projects r c
  workers : ∀ w, WorkerInv co chunks s (s.workers w)

variable {co : Conversions} {chunks : List UUID} {s : World}

theorem InOutbox.leaseStep {event : Event} (h : InOutbox s event) {a : LeaseAction JsonObject}
    {o : LeaseState JsonObject} (hstep : leaseStep s.outbox a = some o) :
    InOutbox { s with outbox := o } event := by
  obtain ⟨r, hr, hsame⟩ := h
  obtain ⟨r', hr', hsame', _⟩ := leaseStep_row hstep hr
  exact ⟨r', hr', hsame.trans hsame'⟩

/-- A call on the outbox. It may complete an event only if its projection is in. -/
theorem WorldInv.leaseStep (hi : WorldInv co chunks s) {a : LeaseAction JsonObject}
    {o : LeaseState JsonObject} (hstep : leaseStep s.outbox a = some o)
    (hdone : ∀ seen k token now, a = .markCompleted seen k token now →
      ∀ r, s.outbox.table.get? k = some r → ∃ c ∈ s.commits, Projects r c) :
    WorldInv co chunks { s with outbox := o } := by
  refine ⟨?_, hi.graph, hi.planned, ?_, ?_⟩
  · exact hi.outbox.run _ ((leaseSystem JsonObject).run_single hstep)
  · intro k r' hr' hcompleted
    cases hr : s.outbox.table.get? k with
    | none =>
      have hpending := leaseStep_new_row hstep hr' hr
      rw [hpending] at hcompleted
      cases hcompleted
    | some r =>
      obtain ⟨r'', hr'', hsame, hcase⟩ := leaseStep_row hstep hr
      obtain rfl : r'' = r' := Option.some.inj (hr''.symm.trans hr')
      rcases hcase hcompleted with hold | ⟨seen, token, now, ha⟩
      · obtain ⟨c, hc, hproj⟩ := hi.completed k r hr hold
        exact ⟨c, hc, hproj.of_sameEvent hsame⟩
      · obtain ⟨c, hc, hproj⟩ := hdone seen k token now ha r hr
        exact ⟨c, hc, hproj.of_sameEvent hsame⟩
  · intro w
    have hw := hi.workers w
    exact ⟨fun event hevent => (hw.held event hevent).leaseStep hstep, hw.staged, hw.done⟩

theorem WorldInv.commit (hi : WorldInv co chunks s) {c : ProjectionCommit}
    (hc : Planned co chunks s.commits c) :
    WorldInv co chunks { s with graph := c.write.apply s.graph, commits := c :: s.commits } := by
  refine ⟨hi.outbox, ?_, ?_, ?_, ?_⟩
  · simp only [replay, hi.graph]
  · intro d hd
    rcases List.mem_cons.mp hd with rfl | hd
    · exact hc.cons d
    · exact (hi.planned d hd).cons c
  · intro k r hr hcompleted
    obtain ⟨d, hd, hproj⟩ := hi.completed k r hr hcompleted
    exact ⟨d, List.mem_cons_of_mem _ hd, hproj⟩
  · intro w
    have hw := hi.workers w
    refine ⟨hw.held, fun event d hstage => ?_, fun event hstage => ?_⟩
    · exact ⟨(hw.staged event d hstage).1, (hw.staged event d hstage).2.cons c⟩
    · obtain ⟨d, hd, hproj⟩ := hw.done event hstage
      exact ⟨d, List.mem_cons_of_mem _ hd, hproj⟩

theorem WorldInv.setWorker (hi : WorldInv co chunks s) (w : Nat) {st : WorkerState}
    (hst : WorkerInv co chunks s st) : WorldInv co chunks (s.setWorker w st) := by
  refine ⟨hi.outbox, hi.graph, hi.planned, hi.completed, fun i => ?_⟩
  have hworker : (s.setWorker w st).workers i = if i = w then st else s.workers i := rfl
  rw [hworker]
  split
  · exact ⟨hst.held, hst.staged, hst.done⟩
  · exact ⟨(hi.workers i).held, (hi.workers i).staged, (hi.workers i).done⟩

theorem WorkerInv.takeNext {events : List Event} (h : ∀ event ∈ events, InOutbox s event) :
    WorkerInv co chunks s (takeNext events) := by
  cases events with
  | nil => exact ⟨by simp [Worker.takeNext, idleWorker, WorkerState.events, Stage.event?],
      by simp [Worker.takeNext, idleWorker], by simp [Worker.takeNext, idleWorker]⟩
  | cons event queue =>
    refine ⟨fun e he => h e ?_, by simp [Worker.takeNext], by simp [Worker.takeNext]⟩
    simpa [Worker.takeNext, WorkerState.events, Stage.event?] using he

theorem WorkerInv.idle : WorkerInv co chunks s idleWorker :=
  show WorkerInv co chunks s (Worker.takeNext []) from WorkerInv.takeNext (by simp)

theorem WorkerInv.queue {st : WorkerState} (h : WorkerInv co chunks s st) :
    ∀ event ∈ st.queue, InOutbox s event :=
  fun event hevent => h.held event (List.mem_append_right _ hevent)

theorem WorkerInv.current {st : WorkerState} (h : WorkerInv co chunks s st) {event : Event}
    (hevent : st.stage.event? = some event) : InOutbox s event :=
  h.held event (List.mem_append_left _ (by simp [hevent]))

theorem WorkerInv.failed {st : WorkerState} (h : WorkerInv co chunks s st) {event : Event}
    (hevent : st.stage.event? = some event) (error : List Char) :
    WorkerInv co chunks s ⟨.failed event error, st.queue⟩ := by
  refine ⟨fun e he => h.held e ?_, by simp, by simp⟩
  exact WorkerState.mem_events_of_stage hevent rfl he

theorem completeEvent_leaseStep {o o' : LeaseState JsonObject} {seen : Option Event}
    {event : Event} {now : Instant} (h : completeEvent o seen event now = some o') :
    ∃ token, leaseStep o (.markCompleted seen event.eventId token now) = some o' := by
  unfold completeEvent at h
  split at h
  · cases h
  · rename_i token _
    refine ⟨token, ?_⟩
    split at h
    · rename_i t ht
      rw [← h, leaseStep, ht]
    · cases h

theorem failEvent_leaseStep {o o' : LeaseState JsonObject} {seen : Option Event} {event : Event}
    {error : List Char} {now : Instant} (h : failEvent o seen event error now = some o') :
    ∃ token, leaseStep o (.markFailed seen event.eventId token error now) = some o' := by
  unfold failEvent at h
  split at h
  · cases h
  · rename_i token _
    refine ⟨token, ?_⟩
    split at h
    · rename_i t ht
      rw [← h, leaseStep, ht]
    · cases h

theorem claimBatch_inOutbox {now : Instant} {n : Nat} {workerId : String} {lease : Int}
    {locked : UUID → Bool} {uuid4 : UuidSource} {event : Event}
    (h : event ∈ (claimBatch s.outbox.table now n workerId lease locked uuid4).2) :
    InOutbox s event := by
  simp only [claimBatch, List.mem_map] at h
  obtain ⟨⟨r, token⟩, hr, rfl⟩ := h
  have hmem := (mem_selectRows (List.of_mem_zip hr).1).1
  refine ⟨r, s.outbox.table.mem_rows_iff.mp hmem, ?_⟩
  exact ⟨rfl, rfl, rfl⟩

theorem poll_inv (hi : WorldInv co chunks s) {w : Nat} {now : Instant} {locked : UUID → Bool}
    {uuid4 : UuidSource} {outcome : CommitOutcome} {s' : World}
    (h : poll s w now locked uuid4 outcome = some s') : WorldInv co chunks s' := by
  unfold poll at h
  split at h
  · split at h
    · obtain rfl := Option.some.inj h
      exact hi
    · split at h
      · cases h
      · rename_i o ho
        have hclaimed := hi.leaseStep ho (fun _ _ _ _ ha => by cases ha)
        split at h
        · obtain rfl := Option.some.inj h
          refine hclaimed.setWorker w (WorkerInv.takeNext fun event hevent => ?_)
          exact (claimBatch_inOutbox hevent).leaseStep ho
        · obtain rfl := Option.some.inj h
          exact hclaimed
  · cases h

theorem project_inv (hi : WorldInv co chunks s) {w : Nat} {now : Instant} {error : List Char}
    {s' : World} (h : project co s w now error = some s') : WorldInv co chunks s' := by
  have hw := hi.workers w
  unfold project at h
  split at h
  · rename_i event hstage
    have hevent : (s.workers w).stage.event? = some event := by rw [hstage]; rfl
    split at h
    · rename_i write hwrite
      obtain rfl := Option.some.inj h
      refine hi.setWorker w ⟨fun e he => hw.held e ?_, ?_, by simp⟩
      · exact WorkerState.mem_events_of_stage hevent rfl he
      · rintro event' c hc
        obtain ⟨rfl, rfl⟩ := Stage.projected.inj hc
        refine ⟨⟨rfl, rfl, rfl⟩, le_rfl, ?_⟩
        rw [firstCommits_length, ← hi.graph]
        exact hwrite
    · obtain rfl := Option.some.inj h
      exact hi.setWorker w (hw.failed hevent error)
  · cases h

theorem projectRaises_inv (hi : WorldInv co chunks s) {w : Nat} {error : List Char} {s' : World}
    (h : projectRaises s w error = some s') : WorldInv co chunks s' := by
  have hw := hi.workers w
  unfold projectRaises at h
  split at h
  · rename_i event hstage
    obtain rfl := Option.some.inj h
    exact hi.setWorker w (hw.failed (by rw [hstage]; rfl) error)
  · rename_i event c hstage
    obtain rfl := Option.some.inj h
    exact hi.setWorker w (hw.failed (by rw [hstage]; rfl) error)
  · cases h

theorem commitGraph_inv (hi : WorldInv co chunks s) {w : Nat} {outcome : CommitOutcome}
    {error : List Char} {s' : World} (h : commitGraph s w outcome error = some s') :
    WorldInv co chunks s' := by
  have hw := hi.workers w
  unfold commitGraph at h
  split at h
  · rename_i event c hstage
    have hevent : (s.workers w).stage.event? = some event := by rw [hstage]; rfl
    obtain ⟨hproj, hplanned⟩ := hw.staged event c hstage
    have hcommitted := hi.commit hplanned
    have hw' := hcommitted.workers w
    cases outcome with
    | ok =>
      obtain rfl := Option.some.inj h
      refine hcommitted.setWorker w ⟨fun e he => hw'.held e ?_, by simp, ?_⟩
      · exact WorkerState.mem_events_of_stage hevent rfl he
      · rintro event' hc
        obtain rfl := Stage.graphCommitted.inj hc
        exact ⟨c, List.mem_cons_self, hproj⟩
    | unacknowledged =>
      obtain rfl := Option.some.inj h
      exact hcommitted.setWorker w (hw'.failed hevent error)
    | raised =>
      obtain rfl := Option.some.inj h
      exact hi.setWorker w (hw.failed hevent error)
  · cases h

/-- The one place where an event is completed: its transaction has committed. -/
theorem completeEvent_inv (hi : WorldInv co chunks s) {w : Nat} {event : Event}
    (hstage : (s.workers w).stage = .graphCommitted event) {seen : Option Event} {now : Instant}
    {o : LeaseState JsonObject} (h : completeEvent s.outbox seen event now = some o) :
    WorldInv co chunks { s with outbox := o } := by
  have hw := hi.workers w
  obtain ⟨token, hstep⟩ := completeEvent_leaseStep h
  refine hi.leaseStep hstep ?_
  rintro _ _ _ _ ha r hr
  obtain ⟨_, rfl, _, _⟩ := LeaseAction.markCompleted.inj ha
  obtain ⟨c, hc, hproj⟩ := hw.done event hstage
  have hevent : (s.workers w).stage.event? = some event := by
    rw [hstage]
    rfl
  obtain ⟨r', hr', hsame⟩ := hw.current hevent
  obtain rfl : r' = r := Option.some.inj (hr'.symm.trans hr)
  exact ⟨c, hc, hproj.of_sameEvent hsame⟩

theorem complete_inv (hi : WorldInv co chunks s) {w : Nat} {seen : Option Event} {now : Instant}
    {outcome : CommitOutcome} {error : List Char} {s' : World}
    (h : complete s w seen now outcome error = some s') : WorldInv co chunks s' := by
  have hw := hi.workers w
  unfold complete at h
  split at h
  · rename_i event hstage
    have hevent : (s.workers w).stage.event? = some event := by rw [hstage]; rfl
    cases hdone : completeEvent s.outbox seen event now with
    | none =>
      simp only [hdone, Option.some.injEq] at h
      subst h
      exact hi.setWorker w (hw.failed hevent error)
    | some o =>
      have hcompleted := completeEvent_inv hi hstage hdone
      have hw' := hcompleted.workers w
      cases outcome with
      | ok =>
        simp only [hdone, Option.some.injEq] at h
        subst h
        exact hcompleted.setWorker w (WorkerInv.takeNext hw'.queue)
      | unacknowledged =>
        simp only [hdone, Option.some.injEq] at h
        subst h
        exact hcompleted.setWorker w (hw'.failed hevent error)
      | raised =>
        simp only [hdone, Option.some.injEq] at h
        subst h
        exact hi.setWorker w (hw.failed hevent error)
  · cases h

theorem fail_inv (hi : WorldInv co chunks s) {w : Nat} {seen : Option Event} {now : Instant}
    {outcome : CommitOutcome} {s' : World} (h : fail s w seen now outcome = some s') :
    WorldInv co chunks s' := by
  unfold fail at h
  split at h
  · rename_i event error hstage
    cases hfailed : failEvent s.outbox seen event error now with
    | none =>
      simp only [hfailed, Option.some.injEq] at h
      subst h
      exact hi.setWorker w .idle
    | some o =>
      obtain ⟨token, hstep⟩ := failEvent_leaseStep hfailed
      have hreleased := hi.leaseStep hstep (fun _ _ _ _ ha => by cases ha)
      cases outcome with
      | ok =>
        simp only [hfailed, Option.some.injEq] at h
        subst h
        exact hreleased.setWorker w (WorkerInv.takeNext (hreleased.workers w).queue)
      | unacknowledged =>
        simp only [hfailed, Option.some.injEq] at h
        subst h
        exact hreleased.setWorker w .idle
      | raised =>
        simp only [hfailed, Option.some.injEq] at h
        subst h
        exact hi.setWorker w .idle
  · cases h

theorem worldStep_inv (s : World) (a : Action) (s' : World) (hi : WorldInv co chunks s)
    (h : worldStep co s a = some s') : WorldInv co chunks s' := by
  cases a with
  | tick now =>
    obtain ⟨o, ho, rfl⟩ := Option.map_eq_some_iff.mp h
    exact hi.leaseStep ho (fun _ _ _ _ ha => by cases ha)
  | emit event =>
    obtain ⟨o, ho, rfl⟩ := Option.map_eq_some_iff.mp h
    exact hi.leaseStep ho (fun _ _ _ _ ha => by cases ha)
  | poll w now locked uuid4 outcome => exact poll_inv hi h
  | project w now error => exact project_inv hi h
  | projectRaises w error => exact projectRaises_inv hi h
  | commitGraph w outcome error => exact commitGraph_inv hi h
  | complete w seen now outcome error => exact complete_inv hi h
  | fail w seen now outcome => exact fail_inv hi h
  | crash w =>
    obtain rfl := Option.some.inj h
    exact hi.setWorker w .idle

theorem start_inv (co : Conversions) (chunks : List UUID) :
    WorldInv co chunks (worldSystem co chunks).start :=
  ⟨(leaseSystem JsonObject).reachable_start, rfl, by simp [worldSystem],
    by simp [worldSystem, leaseSystem], fun _ => .idle⟩

theorem reachable_inv (hs : (worldSystem co chunks).Reachable s) : WorldInv co chunks s :=
  (worldSystem co chunks).reachable_invariant (start_inv co chunks) worldStep_inv hs

/-- No event is done before its projection is durable, and none is lost. -/
structure DurableBeforeDone (co : Conversions) (chunks : List UUID) (s : World) : Prop where
  completed_committed : ∀ r ∈ s.outbox.table.rows, r.status = .completed →
    ∃ c ∈ s.commits, Projects r c ∧ Planned co chunks s.commits c
  graph_is_commits : s.graph = replay chunks s.commits
  uncommitted_open : ∀ r ∈ s.outbox.table.rows,
    (∀ c ∈ s.commits, c.eventId ≠ r.eventId) →
      (r.status = .pending ∨ r.status = .claimed) ∧
        ∃ t, s.outbox.clock ≤ t ∧ ∀ now, t ≤ now → selectable now r = true

theorem durable_before_done (hs : (worldSystem co chunks).Reachable s) :
    DurableBeforeDone co chunks s := by
  have hi := reachable_inv hs
  have hlease := Outbox.reachable_inv hi.outbox
  refine ⟨fun r hr hcompleted => ?_, hi.graph, fun r hr hnone => ?_⟩
  · obtain ⟨c, hc, hproj⟩ :=
      hi.completed _ r (s.outbox.table.mem_rows_iff.mp hr) hcompleted
    exact ⟨c, hc, hproj, hi.planned c hc⟩
  · have hget := s.outbox.table.mem_rows_iff.mp hr
    have hne : r.status ≠ .completed := by
      intro hcompleted
      obtain ⟨c, hc, hproj⟩ := hi.completed _ r hget hcompleted
      exact hnone c hc hproj.eventId
    refine ⟨?_, hlease.claimable hr hne⟩
    rcases (hlease.rows _ r hget).status with hst | hst | hst
    · exact Or.inl hst
    · exact Or.inr hst
    · exact absurd hst hne

/-- A worker whose commit is not acknowledged, and a second one that takes over. -/
def takeover : List Action :=
  [.emit ⟨1, "entity", 2, .entityResolved,
      [("entity_id", .str "00000000-0000-0000-0000-000000000002"),
       ("entity_type", .str "person"), ("canonical_name", .str "Ada")],
      .pending, 0, none, 0, none, none, none⟩,
   .poll 0 0 (fun _ => false) (fun n => BitVec.ofNat 128 (n + 100)) .ok,
   .project 0 0 [],
   .commitGraph 0 .unacknowledged "connection lost".toList,
   .tick 31000000,
   .poll 1 31000000 (fun _ => false) (fun n => BitVec.ofNat 128 (n + 200)) .ok,
   .project 1 31000000 [],
   .commitGraph 1 .ok [],
   .fail 0 none 31000000 .ok]

theorem durable_before_done_takeover :
    ∃ s, (worldSystem plainConversions []).run (worldSystem plainConversions []).start takeover =
        some s ∧
      s.commits.length = 2 ∧ DurableBeforeDone plainConversions [] s := by
  have hrun : ((worldSystem plainConversions []).run (worldSystem plainConversions []).start
      takeover).isSome := by decide
  obtain ⟨s, hs⟩ := Option.isSome_iff_exists.mp hrun
  have hcommits : ((worldSystem plainConversions []).run (worldSystem plainConversions []).start
      takeover).map (fun s => s.commits.length) = some 2 := by decide
  rw [hs] at hcommits
  exact ⟨s, hs, Option.some.inj hcommits, durable_before_done ⟨takeover, hs⟩⟩

end GroundGraph.Worker
